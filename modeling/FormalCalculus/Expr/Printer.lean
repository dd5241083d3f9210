import FormalCalculus.Expr.Basic
import FormalCalculus.Numeral.Printer

/-!
# Printing expressions

A number is printed as its numeral, a symbol as its name, and a list as its items in parentheses,
one space between each two.

* `Expr.render` says so by recursion on the expression;
* `Expr.renderOnto` prints in front of a text that is already there, so that no part of the output
  is written twice; `Expr.renderOnto_eq` says that it prints the same.
-/

namespace FormalCalculus

namespace Expr

mutual

/-- The characters of an expression in print. -/
def render : Expr → List Char
  | number x => Numeral.render x
  | symbol name => name.toList
  | list es => '(' :: (renderItems es ++ [')'])

/-- The characters of expressions in print, one space between each two. -/
def renderItems : List Expr → List Char
  | [] => []
  | [e] => render e
  | e :: es => render e ++ ' ' :: renderItems es

end

/-- One space stands between an item and the items behind it. -/
theorem renderItems_cons_cons (e e' : Expr) (es : List Expr) :
    renderItems (e :: e' :: es) = e.render ++ ' ' :: renderItems (e' :: es) := by
  rw [renderItems]
  simp

mutual

/-- Prints an expression in front of a text. -/
def renderOnto : Expr → List Char → List Char
  | number x, rest => Numeral.render x ++ rest
  | symbol name, rest => name.toList ++ rest
  | list es, rest => '(' :: renderItemsOnto es (')' :: rest)

/-- Prints expressions, one space between each two, in front of a text. -/
def renderItemsOnto : List Expr → List Char → List Char
  | [], rest => rest
  | [e], rest => renderOnto e rest
  | e :: es, rest => renderOnto e (' ' :: renderItemsOnto es rest)

end

mutual

/-- Printing in front of a text puts the expression in print in front of it. -/
theorem renderOnto_eq : ∀ (e : Expr) (rest : List Char), e.renderOnto rest = e.render ++ rest
  | number _, _ => rfl
  | symbol _, _ => rfl
  | list es, rest => by simp [renderOnto, render, renderItemsOnto_eq es]

theorem renderItemsOnto_eq : ∀ (es : List Expr) (rest : List Char),
    renderItemsOnto es rest = renderItems es ++ rest
  | [], _ => rfl
  | [e], rest => by simp [renderItemsOnto, renderItems, renderOnto_eq e]
  | e :: e' :: es, rest => by
    simp [renderItemsOnto, renderItems, renderOnto_eq e, renderItemsOnto_eq (e' :: es)]

end

/-- **An expression in print.** -/
def text (e : Expr) : String := String.ofList (e.renderOnto [])

@[simp] theorem toList_text (e : Expr) : e.text.toList = e.render := by
  simp [text, renderOnto_eq]

end Expr

end FormalCalculus
