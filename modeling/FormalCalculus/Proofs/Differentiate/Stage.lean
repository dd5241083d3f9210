import FormalCalculus.Differentiate
import FormalCalculus.Proofs.Derivative.Relation
import FormalCalculus.Proofs.Simplify.Outcome

/-!
# The stages of a result and of an error

A result has gone through three stages: it was parsed, differentiated and simplified
(`differentiate_eq_ok`). An error ends the work in one of them, and **its cause tells which**: no
two stages share a cause (`Cause.stage`). Parsing ends with a fault of the first token that is at
fault (`Expr.stage_of_ofText_error`), differentiation at a list that applies no operator as it
should be applied (`Expr.stage_of_derivative_error`). What is left to simplification is a division
by zero, and the stages before it have then succeeded (`exists_of_differentiate_error`).
-/

namespace FormalCalculus

variable {arith : Arithmetic} {v : Variable}

/-- The stages of the work on a text. -/
inductive Stage where
  | parsing
  | differentiation
  | simplification
deriving DecidableEq, Repr

/-- **The stage that a cause belongs to.** -/
def Cause.stage : Cause → Stage
  | emptyInput | unexpectedEnd | expectedEnd | unclosedParenthesis _ | emptyParenthesis
  | tooDeeplyNested _ => .parsing
  | invalidOperator _ _ | arityMismatch _ _ _ => .differentiation
  | divisionByZero _ => .simplification

/-! ### Parsing -/

namespace Frame

variable {maxDepth depth : Nat} {endSpan : Text.Span} {stack : List Frame} {error : Error}

theorem supply_ne_fault (e : Expr) : supply e stack ≠ .fault error := by
  cases stack <;> simp [supply]

theorem stage_of_step_fault {token : Token}
    (h : step maxDepth depth stack token = .fault error) : error.cause.stage = .parsing := by
  unfold step at h
  split at h
  · exact absurd h (supply_ne_fault _)
  · exact absurd h (supply_ne_fault _)
  · split at h <;> cases h
    rfl
  · split at h
    · cases h
      rfl
    · cases h
      rfl
    · exact absurd h (supply_ne_fault _)

theorem stage_of_run_error {tokens rest : List Token}
    (h : run maxDepth depth endSpan stack tokens = (.error error, rest)) :
    error.cause.stage = .parsing := by
  induction tokens generalizing stack with
  | nil =>
    cases h
    cases stack <;> rfl
  | cons token tokens ih =>
    rw [run] at h
    cases hstep : step maxDepth depth stack token with
    | done e =>
      rw [hstep] at h
      cases h
    | more stack' =>
      rw [hstep] at h
      exact ih h
    | fault error' =>
      rw [hstep] at h
      cases h
      exact stage_of_step_fault hstep

end Frame

/-- Errors of a parser: those of the pass, or of what is missing before it or left behind it. -/
theorem Parser.stage_of_parseAll_error {p : Parser} {error : Error}
    (h : p.parseAll.1 = .error error) : error.cause.stage = .parsing := by
  unfold parseAll parse at h
  split at h
  · cases h
    rfl
  · cases hrun : Frame.run p.maxDepth p.depth p.endSpan [] p.rest with
    | mk result rest =>
      rw [hrun] at h
      cases result with
      | error error' =>
        cases h
        exact Frame.stage_of_run_error hrun
      | ok e =>
        cases rest with
        | nil => cases h
        | cons token rest =>
          -- something is left behind the expression
          dsimp only at h
          split at h <;> cases h <;> rfl

namespace Expr

/-- **Errors of parsing.** -/
theorem stage_of_ofText_error {limit : Nat} {text : String} {error : Error}
    (h : ofText limit text = .error error) : error.cause.stage = .parsing :=
  Parser.stage_of_parseAll_error h

/-! ### Differentiation -/

/-- **Errors of differentiation.** -/
theorem stage_of_derivative_error {e : Expr} {error : Error} (h : e.derivative v = .error error) :
    error.cause.stage = .differentiation := by
  fun_induction derivative v e with
  | case1 => cases h
  | case2 => cases h
  | case3 | case4 | case15 =>
    cases h
    rfl
  | case5 _ a b _ ih₁ ih₂ | case6 _ a b _ ih₁ ih₂ | case7 _ a b _ ih₁ ih₂
  | case8 _ a b _ ih₁ ih₂ =>
    obtain h | ⟨_, -, h⟩ := bind_eq_error.1 h
    · exact ih₁ h
    obtain h | ⟨_, -, h⟩ := bind_eq_error.1 h
    · exact ih₂ h
    · cases h
  | case9 _ _ _ _ ih | case10 _ _ _ ih | case11 _ _ _ ih | case12 _ _ _ ih | case13 _ _ _ ih
  | case14 _ _ _ ih =>
    obtain h | ⟨_, -, h⟩ := bind_eq_error.1 h
    · exact ih h
    · cases h

end Expr

/-! ### The whole way -/

variable {options : Options} {text : String}

/-- **A result has gone through all stages.** -/
theorem differentiate_eq_ok {s : Expr} :
    differentiate arith options text = .ok s ↔
      ∃ e d, Expr.ofText options.maxDepth text = .ok e ∧ Expr.Derives options.respectTo e d ∧
        d.SimplifiesTo arith s := by
  simp only [differentiate, Expr.bind_eq_ok, Expr.derivative_eq_ok, Expr.SimplifiesTo]
  constructor
  · rintro ⟨e, he, d, hd, hs⟩
    exact ⟨e, d, he, hd, hs⟩
  · rintro ⟨e, d, he, hd, hs⟩
    exact ⟨e, he, d, hd, hs⟩

theorem differentiateText_eq_ok {out : String} :
    differentiateText arith options text = .ok out ↔
      ∃ s, differentiate arith options text = .ok s ∧ out = s.text := by
  rw [differentiateText]
  cases differentiate arith options text <;> simp [Except.map, eq_comm]

theorem differentiateText_eq_error {error : Error} :
    differentiateText arith options text = .error error ↔
      differentiate arith options text = .error error := by
  rw [differentiateText]
  cases differentiate arith options text <;> simp [Except.map]

/-- **An error of simplification comes after the other stages**, which have succeeded. -/
theorem exists_of_differentiate_error {error : Error}
    (h : differentiate arith options text = .error error)
    (hstage : error.cause.stage = .simplification) :
    ∃ e d, Expr.ofText options.maxDepth text = .ok e ∧ Expr.Derives options.respectTo e d ∧
      (d.simplify arith).outcome = .error error := by
  rw [differentiate] at h
  obtain h | ⟨e, he, h⟩ := Expr.bind_eq_error.1 h
  · rw [Expr.stage_of_ofText_error h] at hstage
    cases hstage
  obtain h | ⟨d, hd, h⟩ := Expr.bind_eq_error.1 h
  · rw [Expr.stage_of_derivative_error h] at hstage
    cases hstage
  · exact ⟨e, d, he, Expr.derivative_eq_ok.1 hd, h⟩

end FormalCalculus
