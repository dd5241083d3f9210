import FormalCalculus.Operator

/-!
# Expressions

An expression is a number, a symbol, or a list of expressions. A list whose head is the symbol of
an operator applies that operator to the rest; nothing in the type asks for that, and lists of any
other shape, the empty one included, are expressions too.

Two comparisons are kept apart:

* `a = b` is identity, down to the bits of every number; it is decidable (`Expr.decEq`);
* `Expr.equal a b` compares numbers as arithmetic does, so the two zeros are equal and "not a
  number" differs from itself. The simplification rules ask this question.
-/

namespace FormalCalculus

/-- An expression in prefix notation. -/
inductive Expr where
  | number (value : Float)
  | symbol (name : String)
  | list (items : List Expr)

namespace Expr

/-! ### Identity -/

mutual

/-- Identity of expressions is decidable. -/
def decEq : (a b : Expr) → Decidable (a = b)
  | number x, number y =>
    if h : x = y then isTrue (by rw [h]) else isFalse (by simpa using h)
  | symbol s, symbol t =>
    if h : s = t then isTrue (by rw [h]) else isFalse (by simpa using h)
  | list as, list bs =>
    match decEqList as bs with
    | isTrue h => isTrue (by rw [h])
    | isFalse h => isFalse (by simpa using h)
  | number _, symbol _ => isFalse (by simp)
  | number _, list _ => isFalse (by simp)
  | symbol _, number _ => isFalse (by simp)
  | symbol _, list _ => isFalse (by simp)
  | list _, number _ => isFalse (by simp)
  | list _, symbol _ => isFalse (by simp)

/-- Identity of lists of expressions is decidable. -/
def decEqList : (as bs : List Expr) → Decidable (as = bs)
  | [], [] => isTrue rfl
  | a :: as, b :: bs =>
    match decEq a b, decEqList as bs with
    | isTrue h, isTrue hs => isTrue (by rw [h, hs])
    | isFalse h, _ => isFalse (by simp [h])
    | _, isFalse hs => isFalse (by simp [hs])
  | [], _ :: _ => isFalse (by simp)
  | _ :: _, [] => isFalse (by simp)

end

instance : DecidableEq Expr := decEq

/-! ### Building -/

/-- A unary application. -/
def unary (op : Op) (a : Expr) : Expr := list [symbol op.symbol, a]

/-- A binary application. -/
def binary (op : Op) (a b : Expr) : Expr := list [symbol op.symbol, a, b]

/-! ### Looking inside -/

/-- The value of a number. -/
def number? : Expr → Option Float
  | number x => some x
  | _ => none

/-- Whether an expression is a number equal to `x`, as arithmetic compares. -/
def isNumber (e : Expr) (x : Float) : Bool :=
  match e with
  | number y => y == x
  | _ => false

/-- Whether an expression is the number zero, of either sign. -/
def isZero (e : Expr) : Bool := e.isNumber 0

/-- Whether an expression is the number one. -/
def isOne (e : Expr) : Bool := e.isNumber 1

/-- The items of a list; a number or a symbol has none. -/
def items : Expr → List Expr
  | list es => es
  | _ => []

/-- The first item of a list. -/
def head? (e : Expr) : Option Expr := e.items.head?

/-- The items of a list behind its head. -/
def operands (e : Expr) : List Expr := e.items.tail

/-- The name of a symbol. -/
def name? : Expr → Option String
  | symbol name => some name
  | _ => none

/-- The name of the symbol at the head of a list, whether or not it is an operator. -/
def headName? (e : Expr) : Option String := e.head?.bind name?

/-- The operator that a symbol names. -/
def op? (e : Expr) : Option Op := e.name?.bind Op.ofSymbol?

@[simp] theorem op?_symbol (op : Op) : (symbol op.symbol).op? = some op := by
  simp [op?, name?]

/-! ### Equality as arithmetic compares -/

mutual

/-- **Structural equality**, numbers being compared as arithmetic does. -/
def equal : Expr → Expr → Bool
  | number x, number y => x == y
  | symbol s, symbol t => s == t
  | list as, list bs => equalList as bs
  | _, _ => false

/-- Structural equality, item by item. -/
def equalList : List Expr → List Expr → Bool
  | [], [] => true
  | a :: as, b :: bs => equal a b && equalList as bs
  | _, _ => false

end

end Expr

end FormalCalculus
