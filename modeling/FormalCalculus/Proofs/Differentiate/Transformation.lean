import FormalCalculus.Proofs.Derivative.Calculus
import FormalCalculus.Proofs.Differentiate.Depth
import FormalCalculus.Proofs.Simplify.Meaning

/-!
# Chains of transformations

An expression at hand can be differentiated, simplified, rewritten at its root, or replaced by one
of its operands, and all of this again with what results. A `Transformation` is one such step, and
`Transformation.outcomes` follows a chain of them; a step that fails leaves the expression as it is.

The expressions that this is meant for are the **proper** ones: every list applies an operator to as
many operands as it takes, every number is finite, and every symbol is a name. No transformation
leads out of them (`Transformation.apply_proper`). Differentiation never fails on one, and the only
failure of the other steps is a division by zero.

Main statement: `Transformation.outcomes_proper`, for chains of any length.
-/

namespace FormalCalculus

/-- **Proper expressions**: well-formed ones that can be read back. -/
structure Expr.Proper (e : Expr) : Prop where
  wellFormed : e.WellFormed
  readable : e.Readable

/-- What can be done with an expression. -/
inductive Transformation where
  /-- It is differentiated. -/
  | differentiate (v : Variable)
  /-- It is simplified. -/
  | simplify
  /-- The rules are tried once at its root; if none fires, it is kept. -/
  | rewriteRoot
  /-- One of its operands takes its place; if there is none of this number, it is kept. -/
  | operand (index : Nat)
deriving DecidableEq

namespace Transformation

/-- **The outcome of one transformation.** -/
def apply (arith : Arithmetic) (e : Expr) : Transformation → Except Error Expr
  | differentiate v => e.derivative v
  | simplify => (e.simplify arith).outcome
  | rewriteRoot => (Rules.apply arith e).map fun offer => (offer.map Rewrite.result).getD e
  | operand index => .ok (e.operands[index]?.getD e)

/-- **The outcomes of a chain**, step by step. A step starts with what the one before it resulted
in, or with the same expression again if that one failed. -/
def outcomes (arith : Arithmetic) (e : Expr) : List Transformation → List (Except Error Expr)
  | [] => []
  | t :: ts => t.apply arith e :: outcomes arith ((t.apply arith e).toOption.getD e) ts

/-- What may come of a step: a proper expression, or a division by zero where rules are tried. -/
def Admits (t : Transformation) (outcome : Except Error Expr) : Prop :=
  (∃ s, outcome = .ok s ∧ s.Proper) ∨
    (t = simplify ∨ t = rewriteRoot) ∧ ∃ quotient, outcome = .error ⟨.divisionByZero quotient, []⟩

variable {arith : Arithmetic}

/-- Proper expressions are differentiated to proper ones, and without fail. -/
theorem derivative_proper (v : Variable) {e : Expr} (he : e.Proper) :
    ∃ d, e.derivative v = .ok d ∧ d.Proper := by
  obtain ⟨d, hd⟩ := he.wellFormed.derives (v := v)
  exact ⟨d, Expr.derivative_eq_ok.2 hd, hd.wellFormed he.wellFormed, hd.readable he.readable⟩

/-- The rules offer proper expressions for proper ones. -/
theorem rewrite_proper {e : Expr} {r : Rewrite} (h : Rules.apply arith e = .ok (some r))
    (he : e.Proper) : r.result.Proper := by
  obtain ⟨op, a, b, rfl, hfires⟩ := Rules.apply_some h
  obtain ⟨-, hwa, hwb⟩ := Expr.wellFormed_binary.1 he.wellFormed
  obtain ⟨hra, hrb⟩ := Expr.readable_binary.1 he.readable
  exact ⟨hfires.wellFormed hwa hwb, hfires.readable hra hrb⟩

/-- An operand of a proper expression is proper. -/
theorem operand_proper {e : Expr} (he : e.Proper) (index : Nat) :
    (e.operands[index]?.getD e).Proper := by
  cases hoperand : e.operands[index]? with
  | none => exact he
  | some a =>
    have ha : a ∈ e.items := List.mem_of_mem_tail (List.mem_of_getElem? hoperand)
    exact ⟨he.wellFormed.of_mem_items ha, he.readable.of_mem_items ha⟩

/-- **One transformation does not lead out of the proper expressions.** -/
theorem apply_proper (t : Transformation) {e : Expr} (he : e.Proper) :
    t.Admits (t.apply arith e) := by
  cases t with
  | differentiate v => exact Or.inl (derivative_proper v he)
  | simplify =>
    cases hs : (e.simplify arith).outcome with
    | ok s =>
      have hs : e.SimplifiesTo arith s := hs
      exact Or.inl ⟨s, hs, hs.wellFormed he.wellFormed, hs.readable he.readable⟩
    | error error =>
      obtain ⟨quotient, rfl⟩ := Expr.cause_of_simplify_error hs
      exact Or.inr ⟨Or.inl rfl, quotient, hs⟩
  | rewriteRoot =>
    cases hrules : Rules.apply arith e with
    | error error =>
      obtain ⟨a, b, -, -, rfl⟩ := Rules.apply_error.1 hrules
      exact Or.inr ⟨Or.inr rfl, _, by rw [apply, hrules]; rfl⟩
    | ok offer =>
      refine Or.inl ⟨_, by rw [apply, hrules]; rfl, ?_⟩
      cases offer with
      | none => exact he
      | some r => exact rewrite_proper hrules he
  | operand index => exact Or.inl ⟨_, rfl, operand_proper he index⟩

/-- What a chain goes on with is proper again. -/
theorem Admits.proper {t : Transformation} {e : Expr} {outcome : Except Error Expr}
    (h : t.Admits outcome) (he : e.Proper) : (outcome.toOption.getD e).Proper := by
  obtain ⟨s, rfl, hs⟩ | ⟨-, quotient, rfl⟩ := h
  · exact hs
  · exact he

/-- **Proper expressions are closed under chains of transformations.** Every step of every chain
results in a proper expression, or is a simplification or a rewriting that fails with a division by
zero. No step fails for an operator that is none or has the wrong number of operands, and
differentiation does not fail at all. -/
theorem outcomes_proper (arith : Arithmetic) (e : Expr) (he : e.Proper)
    (ts : List Transformation) : List.Forall₂ Admits ts (outcomes arith e ts) := by
  induction ts generalizing e with
  | nil => exact .nil
  | cons t ts ih =>
    have hstep : t.Admits (t.apply arith e) := apply_proper t he
    exact .cons hstep (ih _ (hstep.proper he))

/-- A quotient by zero fails to simplify, but can be differentiated, and the new denominator is
simplified to zero. -/
theorem outcomes_proper_of_quotient :
    let b := Expr.binary .sub (.number 2) (.number 2)
    let db := Expr.binary .sub (.number 0) (.number 0)
    let e := Expr.binary .div (.symbol "x") b
    let ts := [simplify, differentiate .any, operand 1, simplify]
    e.Proper ∧
      outcomes .squaring e ts =
        [.error ⟨.divisionByZero "(/ x 0)", []⟩,
          .ok (Expr.quotientRule (.symbol "x") b (.number 1) db),
          .ok (Expr.binary .pow b (.number 2)), .ok (.number 0)] ∧
      List.Forall₂ Admits ts (outcomes .squaring e ts) := by
  intro b db e ts
  have he : e.Proper := ⟨by decide +kernel, by decide +kernel⟩
  exact ⟨he, by decide +kernel, outcomes_proper .squaring e he ts⟩

end Transformation

end FormalCalculus
