import FormalCalculus.Proofs.Derivative.FirstFault
import FormalCalculus.Proofs.Numeral.ReadBack
import FormalCalculus.Proofs.Text.EditDistance

/-!
# The operators that are suggested

A list whose head is no operator is refused, and the error comes with the operators whose symbols
are at an edit distance below two from what the head is called. A distance of zero would make it an
operator after all, so the operators suggested are those one edit away.

That a distance of zero is out of the question has to be shown for every way in which a head can be
called. A symbol goes by its name, and was looked up among the operators in vain. Everything else
goes by its printed form: a list in print begins with a parenthesis, as no symbol of an operator
does, and a number in print can be read back, as no symbol of an operator can
(`Expr.text_ne_symbol`).

Main statement: `Expr.suggestions_one_edit_away`.
-/

namespace FormalCalculus

open Text (Span)

/-! ### What is printed is no operator -/

/-- No symbol of an operator reads as a number. -/
theorem Op.read?_symbol (op : Op) : Numeral.read? op.symbol.toList = none := by
  cases op <;> decide +kernel

/-- **No number is printed as the symbol of an operator.** -/
theorem Numeral.render_ne_symbol (x : Float) (op : Op) : render x ≠ op.symbol.toList := by
  intro h
  by_cases hx : x.isFinite = true
  · have hread := read?_render hx
    rw [h, op.read?_symbol] at hread
    cases hread
  · -- what is not finite is printed as one of three names
    have hcode : ¬ code x < infinityCode := fun hlt => hx ((isFinite_iff x).2 hlt)
    have hnames : render x = ['N', 'a', 'N'] ∨ render x = ['i', 'n', 'f'] ∨
        render x = ['-', 'i', 'n', 'f'] := by
      unfold render magnitudeText
      rw [if_neg hcode]
      split
      · exact Or.inl rfl
      · split
        · exact Or.inr (Or.inr rfl)
        · exact Or.inr (Or.inl rfl)
    rw [h] at hnames
    revert hnames
    cases op <;> decide

namespace Expr

variable {v : Variable}

/-- **No head but a symbol is called by the symbol of an operator.** -/
theorem text_ne_symbol {e : Expr} (h : ∀ name, e ≠ symbol name) (op : Op) :
    op.symbol ≠ e.text := by
  intro htext
  have hrender : e.render = op.symbol.toList := by rw [htext, toList_text]
  cases e with
  | number x => exact Numeral.render_ne_symbol x op hrender
  | symbol name => exact h name rfl
  | list es =>
    have hhead : op.symbol.toList.head? ≠ some '(' := by cases op <;> decide
    rw [← hrender] at hhead
    exact hhead rfl

/-! ### The error -/

/-- A list that is refused for its head is not called by the symbol of an operator, and the
suggestions are made for what it is called. -/
theorem Faulty.suggestions_eq {t : Expr} {name : String} {suggestions : List Op} {spans : List Span}
    (h : Faulty t ⟨.invalidOperator name suggestions, spans⟩) :
    (∀ op : Op, op.symbol ≠ name) ∧ suggestions = Op.suggestions name := by
  cases h with
  | empty => exact ⟨fun op => by cases op <;> decide, rfl⟩
  | name hname => exact ⟨hname, rfl⟩
  | head hhead => exact ⟨text_ne_symbol hhead, rfl⟩

/-- A first fault is the fault of a list. -/
theorem FirstFault.exists_faulty {ts : List Expr} {error : Error} (h : FirstFault ts error) :
    ∃ t, Faulty t error := by
  induction h with
  | here h => exact ⟨_, h⟩
  | later _ _ ih => exact ih

/-- **Operators are suggested for a name** that is none if their symbols are one edit away. -/
theorem mem_suggestions {name : String} {op : Op} (h : op.symbol ≠ name) :
    op ∈ Op.suggestions name ↔ Text.Edit op.symbol.toList name.toList := by
  rw [Op.suggestions, List.mem_filter, decide_eq_true_iff, Text.editDistance_lt_two_iff]
  constructor
  · rintro ⟨-, heq | hedit⟩
    · exact absurd (String.toList_inj.1 heq) h
    · exact hedit
  · intro hedit
    exact ⟨op.mem_all, Or.inr hedit⟩

/-- **The suggestions are the operators one edit away.** Let differentiation fail for a name that is
no operator. Then the name is not the symbol of one, and the suggestions are, in the order of all
operators and without repetition, those whose symbols turn into the name when one character is
inserted, deleted, or replaced by another one. -/
theorem suggestions_one_edit_away (v : Variable) (e : Expr) (name : String)
    (suggestions : List Op) (spans : List Span)
    (h : e.derivative v = .error ⟨.invalidOperator name suggestions, spans⟩) :
    (∀ op : Op, op.symbol ≠ name) ∧ suggestions.Nodup ∧ suggestions.Sublist Op.all ∧
      ∀ op, op ∈ suggestions ↔ Text.Edit op.symbol.toList name.toList := by
  obtain ⟨t, ht⟩ := (firstFault_of_derivative h).exists_faulty
  obtain ⟨hname, rfl⟩ := ht.suggestions_eq
  have hsublist : (Op.suggestions name).Sublist Op.all := List.filter_sublist
  have hnodup : Op.all.Nodup := by decide
  exact ⟨hname, hnodup.sublist hsublist, hsublist, fun op => mem_suggestions (hname op)⟩

/-- A number at the head, whose printed form is a single character. -/
theorem suggestions_one_edit_away_of_number :
    let e := list [symbol "sin", list [number 7, symbol "x"]]
    let suggestions := [Op.add, .sub, .mul, .div, .pow]
    e.derivative .any = .error ⟨.invalidOperator "7" suggestions, []⟩ ∧
      (∀ op : Op, op.symbol ≠ "7") ∧ suggestions.Nodup ∧ suggestions.Sublist Op.all ∧
      ∀ op, op ∈ suggestions ↔ Text.Edit op.symbol.toList "7".toList := by
  intro e suggestions
  have h : e.derivative .any = .error ⟨.invalidOperator "7" suggestions, []⟩ := by decide +kernel
  exact ⟨h, suggestions_one_edit_away .any e "7" suggestions [] h⟩

end Expr

end FormalCalculus
