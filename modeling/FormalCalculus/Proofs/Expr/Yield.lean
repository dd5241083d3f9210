import FormalCalculus.Expr.Printer
import FormalCalculus.Proofs.Expr.Subterm
import FormalCalculus.Proofs.Numeral.ReadBack
import FormalCalculus.Proofs.Token.Terminal

/-!
# What an expression in print consists of

The *yield* of an expression is its leaves from left to right, with a pair of parentheses around
the items of every list. It is what reading and printing have in common:

* an expression is **readable** if its numbers are finite, its symbols are names that can be read,
  and its lists have items (`Expr.Readable`);
* the terminals of a readable expression in print are its yield (`Expr.terminals_render`): a space
  or a parenthesis ends every atom, so that no two atoms run into each other;
* conversely an expression without empty lists is readable if its yield is
  (`Expr.readable_of_yield`), which is how a parsed expression is found to be readable.
-/

namespace FormalCalculus

namespace Expr

/-! ### Yields -/

mutual

/-- The terminals of an expression, from left to right. -/
def yield : Expr → List Terminal
  | number x => [.number x]
  | symbol name => [.symbol name]
  | list es => .openParen :: (yieldList es ++ [.closeParen])

/-- The terminals of some expressions, one after the other. -/
def yieldList : List Expr → List Terminal
  | [] => []
  | e :: es => e.yield ++ yieldList es

end

theorem yield_ne_nil (e : Expr) : e.yield ≠ [] := by
  cases e <;> simp [yield]

theorem yieldList_cons (e : Expr) (es : List Expr) :
    yieldList (e :: es) = e.yield ++ yieldList es := by rw [yieldList]

theorem yieldList_append (as bs : List Expr) :
    yieldList (as ++ bs) = yieldList as ++ yieldList bs := by
  induction as with
  | nil => rfl
  | cons a as ih => rw [List.cons_append, yieldList_cons, yieldList_cons, ih, List.append_assoc]

theorem mem_yieldList {t : Terminal} {es : List Expr} :
    t ∈ yieldList es ↔ ∃ e ∈ es, t ∈ e.yield := by
  induction es with
  | nil => simp [yieldList]
  | cons e es ih => simp [yieldList, ih]

/-! ### Readable expressions -/

/-- Lists have items. -/
def FilledNode : Expr → Prop
  | list es => es ≠ []
  | _ => True

/-- **No list is empty**, anywhere in the expression. -/
def Filled : Expr → Prop := Everywhere FilledNode

/-- The nodes that can be read back. -/
def ReadableNode : Expr → Prop
  | number x => x.isFinite = true
  | symbol name => IsName name
  | list es => es ≠ []

instance : DecidablePred ReadableNode := fun e =>
  match e with
  | number x => inferInstanceAs (Decidable (x.isFinite = true))
  | symbol name => inferInstanceAs (Decidable (IsName name))
  | list es => inferInstanceAs (Decidable (es ≠ []))

/-- **Expressions that can be read back** from what is printed. -/
def Readable : Expr → Prop := Everywhere ReadableNode

instance : DecidablePred Readable := inferInstanceAs (DecidablePred (Everywhere ReadableNode))

@[simp] theorem readable_number {x : Float} : (number x).Readable ↔ x.isFinite = true :=
  everywhere_number

@[simp] theorem readable_symbol {name : String} : (symbol name).Readable ↔ IsName name :=
  everywhere_symbol

theorem readable_list {es : List Expr} :
    (list es).Readable ↔ es ≠ [] ∧ ∀ e ∈ es, e.Readable :=
  everywhere_list

/-- The symbols of the operators are names. -/
theorem isName_symbol (op : Op) : IsName op.symbol := by
  cases op <;> decide +kernel

@[simp] theorem readable_unary {op : Op} {a : Expr} : (unary op a).Readable ↔ a.Readable := by
  simp [unary, readable_list, isName_symbol]

@[simp] theorem readable_binary {op : Op} {a b : Expr} :
    (binary op a b).Readable ↔ a.Readable ∧ b.Readable := by
  simp [binary, readable_list, isName_symbol]

theorem filled_list {es : List Expr} : (list es).Filled ↔ es ≠ [] ∧ ∀ e ∈ es, e.Filled :=
  everywhere_list

theorem Readable.filled {e : Expr} (h : e.Readable) : e.Filled := by
  intro t ht
  have hnode := h t ht
  cases t with
  | number x => trivial
  | symbol name => trivial
  | list es => exact hnode

/-- **An expression with a readable yield is readable**, if none of its lists is empty. -/
theorem readable_of_yield {e : Expr} (hfilled : e.Filled) (h : ∀ t ∈ e.yield, t.Readable) :
    e.Readable := by
  induction e using Expr.induction with
  | number x => exact readable_number.2 (h (.number x) (by simp [yield]))
  | symbol name => exact readable_symbol.2 (h (.symbol name) (by simp [yield]))
  | list es ih =>
    obtain ⟨hne, hitems⟩ := filled_list.1 hfilled
    refine readable_list.2 ⟨hne, fun e he => ih e he (hitems e he) fun t ht => h t ?_⟩
    have hmem : t ∈ yieldList es := mem_yieldList.2 ⟨e, he, ht⟩
    simp [yield, hmem]

/-! ### Printing -/

/-- Numerals hold neither blanks nor parentheses. -/
theorem isAtomChar_of_isNumeralChar {c : Char} (h : Numeral.isNumeralChar c = true) :
    Piece.isAtomChar c = true := by
  simp only [Numeral.isNumeralChar, Bool.or_eq_true, beq_iff_eq] at h
  obtain (hdigit | rfl) | rfl := h
  · -- the digits lie between the blanks and parentheses below and the blanks above them
    obtain ⟨hlow, hhigh⟩ : 48 ≤ c.toNat ∧ c.toNat ≤ 57 := Char.isDigit_iff_toNat.1 hdigit
    have hparen : ∀ paren : Paren, c ≠ paren.char := by
      rintro paren rfl
      cases paren <;> exact absurd hlow (by decide)
    have hblank : Text.isBlank c = false := by
      simp only [Text.isBlank, Text.blankRanges, List.any_cons, List.any_nil]
      simp
      omega
    exact Piece.isAtomChar_iff.2 ⟨hblank, hparen⟩
  · decide
  · decide

theorem isAtomChar_of_mem_render {x : Float} (hx : x.isFinite = true) {c : Char}
    (h : c ∈ Numeral.render x) : Piece.isAtomChar c = true :=
  isAtomChar_of_isNumeralChar (Numeral.isNumeralChar_of_mem_render hx h)

/-- The numeral of a finite number is an atom that is this number. -/
theorem ofAtom_render {x : Float} (hx : x.isFinite = true) :
    Terminal.ofAtom (Numeral.render x) = .number x := by
  simp [Terminal.ofAtom, Token.Kind.ofAtom, Numeral.read?_render hx, hx, Token.Kind.terminal]

theorem ofAtom_name {name : String} (h : IsName name) :
    Terminal.ofAtom name.toList = .symbol name := by
  simp [Terminal.ofAtom, h.2.2, Token.Kind.terminal]

theorem endsAtom_nil : EndsAtom [] := by simp [EndsAtom]

theorem endsAtom_cons {c : Char} (hc : Piece.isAtomChar c = false) (rest : List Char) :
    EndsAtom (c :: rest) := by
  intro d hd
  obtain rfl := Option.some.inj hd
  exact hc

/-- The terminals of items in print, if those of every item are its yield. -/
theorem terminals_renderItems {es : List Expr}
    (h : ∀ e ∈ es, ∀ rest, EndsAtom rest → terminals (e.render ++ rest) = e.yield ++ terminals rest)
    {rest : List Char} (hrest : EndsAtom rest) :
    terminals (renderItems es ++ rest) = yieldList es ++ terminals rest := by
  induction es with
  | nil => rfl
  | cons e es ih =>
    have hitems := ih fun e' he' => h e' (List.mem_cons_of_mem _ he')
    cases es with
    | nil => simpa [renderItems, yieldList] using h e List.mem_cons_self rest hrest
    | cons e' es =>
      -- the space ends this item, and is itself no terminal
      rw [renderItems_cons_cons, List.append_assoc, List.cons_append,
        h e List.mem_cons_self _ (endsAtom_cons (by decide) _), terminals_cons_blank (by decide),
        hitems, yieldList_cons e, List.append_assoc]

/-- **The terminals of a readable expression in print are its yield**, whatever follows that ends
an atom. -/
theorem terminals_render {e : Expr} (he : e.Readable) {rest : List Char} (hrest : EndsAtom rest) :
    terminals (e.render ++ rest) = e.yield ++ terminals rest := by
  induction e using Expr.induction generalizing rest with
  | number x =>
    have hx := readable_number.1 he
    rw [render, terminals_append_atom (Numeral.render_ne_nil hx)
      (fun _ => isAtomChar_of_mem_render hx) hrest, ofAtom_render hx]
    rfl
  | symbol name =>
    have hname := readable_symbol.1 he
    rw [render, terminals_append_atom hname.1 hname.2.1 hrest, ofAtom_name hname]
    rfl
  | list es ih =>
    obtain ⟨-, hitems⟩ := readable_list.1 he
    -- the closing parenthesis ends the last item
    rw [render, List.cons_append, List.append_assoc, List.singleton_append,
      terminals_cons_paren .opening,
      terminals_renderItems (fun e he rest hrest => ih e he (hitems e he) hrest)
        (endsAtom_cons Paren.closing.isAtomChar_char _), terminals_cons_paren .closing]
    simp [yield]

/-- **The tokens of a readable expression in print are its yield.** -/
theorem map_terminal_ofText_text {e : Expr} (he : e.Readable) :
    (Token.ofText e.text).map Token.terminal = e.yield := by
  have h := terminals_render he endsAtom_nil
  rw [Token.map_terminal_ofText, toList_text]
  simpa using h

end Expr

end FormalCalculus
