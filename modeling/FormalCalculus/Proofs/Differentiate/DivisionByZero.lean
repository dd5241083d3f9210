import FormalCalculus.Proofs.Differentiate.Stage
import FormalCalculus.Proofs.Simplify.NormalForm

/-!
# Where a division by zero comes from

A division by zero is found when the derivative is simplified. The quotients in a derivative are
those of the expression, copied along with its operands, and those that the rules put in. Of the
latter

* the derivative of a tangent divides by the square of a cosine, which is never a number;
* that of a logarithm divides by the argument, and fails where this is zero (`Expr.LogOfZero`);
* that of a quotient divides by the square of the denominator. It fails where the denominator is
  zero, as the expression itself does, *and* where the denominator is so small a number that its
  square vanishes (`Expr.SquareVanishes`).

`Expr.Derives.origin` follows a failure back to one of these, by induction on the derivative.
Main statement: `division_by_zero_origin`. The last of them does occur: `(/ x 1e-200)` has neither
a denominator zero nor a logarithm, and its derivative fails all the same
(`division_by_zero_of_small_denominator`).
-/

namespace FormalCalculus

variable {arith : Arithmetic} {v : Variable}

namespace Expr

/-! ### Origins -/

/-- A logarithm whose argument is simplified to zero. -/
def LogOfZero (arith : Arithmetic) (t : Expr) : Prop :=
  ∃ a z, t = unary .ln a ∧ (a.simplify arith).outcome = .ok z ∧ z.isZero = true

/-- A quotient whose denominator is simplified to a number that is not zero but has the square
zero. -/
def SquareVanishes (arith : Arithmetic) (t : Expr) : Prop :=
  ∃ a b y, t = binary .div a b ∧ (b.simplify arith).outcome = .ok (number y) ∧
    (y == 0) = false ∧ (arith.pow y 2 == 0) = true

/-- **The origins of a failure**: the expression itself fails to simplify, or differentiation
reaches the logarithm of zero or a denominator whose square vanishes. -/
def Origin (arith : Arithmetic) (e : Expr) : Prop :=
  e.FailsToSimplify arith ∨
    ∃ t, Visited t e ∧ (t.LogOfZero arith ∨ t.SquareVanishes arith)

/-- An item that fails makes the whole fail. -/
theorem failsToSimplify_of_mem_items {a e : Expr} (h : a ∈ e.items)
    (hfails : a.FailsToSimplify arith) : e.FailsToSimplify arith := by
  cases e with
  | number x => cases h
  | symbol name => cases h
  | list es => exact failsToSimplify_list.2 (Or.inl ⟨a, h, hfails⟩)

/-- An origin in a differentiated operand is one in the whole. -/
theorem Origin.of_operand {a e : Expr} (h : a.Origin arith) (ha : a ∈ e.differentiatedOperands) :
    e.Origin arith := by
  obtain hfails | ⟨t, hvisited, ht⟩ := h
  · exact Or.inl (failsToSimplify_of_mem_items (mem_items_of_mem_differentiatedOperands ha) hfails)
  · exact Or.inr ⟨t, .operand ha hvisited, ht⟩

theorem Origin.of_item {a e : Expr} (hfails : a.FailsToSimplify arith) (ha : a ∈ e.items) :
    e.Origin arith :=
  Or.inl (failsToSimplify_of_mem_items ha hfails)

/-! ### Denominators that the rules put in -/

/-- A square is only simplified to zero if its base is a number, with a square that is zero. -/
theorem number_of_square_isZero {b z : Expr}
    (h : (binary .pow b (number 2)).SimplifiesTo arith z) (hz : z.isZero = true) :
    ∃ y, b.SimplifiesTo arith (number y) ∧ (arith.pow y 2 == 0) = true := by
  obtain ⟨b', two, hb, htwo, hroot⟩ := simplifiesTo_binary.1 h
  obtain rfl := simplifiesTo_number.1 htwo
  obtain ⟨-, rfl⟩ | ⟨r, hr, rfl⟩ := hroot
  · cases hz
  · cases Rules.fires_of_ofOp hr with
    | powerZero hzero => exact absurd hzero (by decide)
    | powerOne hone => exact absurd hone (by decide)
    | foldConstants hfold =>
      -- the base is a number and the square its value
      rename_i y w
      obtain ⟨hw, -⟩ := Option.filter_eq_some_iff.1 hfold
      obtain rfl : arith.pow y 2 = w := Option.some.inj hw
      exact ⟨y, hb, hz⟩

/-- A quotient in a derivative by the square of a denominator. -/
theorem origin_of_square_isZero {a b z : Expr}
    (h : (binary .pow b (number 2)).SimplifiesTo arith z) (hz : z.isZero = true) :
    (binary .div a b).Origin arith := by
  obtain ⟨y, hy, hsquare⟩ := number_of_square_isZero h hz
  -- a zero base is a zero denominator of the quotient itself
  cases hzero : y == 0 with
  | true => exact Or.inl (failsToSimplify_binary.2 (Or.inr (Or.inr ⟨rfl, number y, hy, hzero⟩)))
  | false => exact Or.inr ⟨_, .root _, Or.inr ⟨a, b, y, rfl, hy, hzero, hsquare⟩⟩

/-- The square of a cosine is not zero. -/
theorem not_isZero_square_cos {a z : Expr}
    (h : (binary .pow (unary .cos a) (number 2)).SimplifiesTo arith z) : z.isZero ≠ true := by
  intro hz
  obtain ⟨y, hy, -⟩ := number_of_square_isZero h hz
  obtain ⟨a', -, heq⟩ := simplifiesTo_unary.1 hy
  cases heq

/-! ### Following a failure back -/

/-- **Every failure has an origin.** A derivative that fails to simplify does so for one of the
reasons above. -/
theorem Derives.origin {e d : Expr} (h : Derives v e d) (hfails : d.FailsToSimplify arith) :
    e.Origin arith := by
  -- whatever fails is an operand, the derivative of an operand, or a denominator put in by a rule
  induction h with
  | number x => exact absurd hfails not_failsToSimplify_number
  | symbol name => exact absurd hfails not_failsToSimplify_number
  | add _ _ iha ihb | sub _ _ iha ihb =>
    simp only [failsToSimplify_binary, reduceCtorEq, false_and, or_false] at hfails
    obtain hda | hdb := hfails
    · exact (iha hda).of_operand (by simp)
    · exact (ihb hdb).of_operand (by simp)
  | mul _ _ iha ihb =>
    simp only [productRule, failsToSimplify_binary, reduceCtorEq, false_and, or_false] at hfails
    obtain (ha | hdb) | hda | hb := hfails
    · exact .of_item ha (by simp)
    · exact (ihb hdb).of_operand (by simp)
    · exact (iha hda).of_operand (by simp)
    · exact .of_item hb (by simp)
  | div _ _ iha ihb =>
    simp only [quotientRule, failsToSimplify_binary, not_failsToSimplify_number, reduceCtorEq,
      false_and, true_and, or_false] at hfails
    obtain ((hda | hb) | ha | hdb) | hb | ⟨z, hsquare, hz⟩ := hfails
    · exact (iha hda).of_operand (by simp)
    · exact .of_item hb (by simp)
    · exact .of_item ha (by simp)
    · exact (ihb hdb).of_operand (by simp)
    · exact .of_item hb (by simp)
    · exact origin_of_square_isZero hsquare hz
  | pow _ iha =>
    simp only [powerRule, failsToSimplify_binary, not_failsToSimplify_number, reduceCtorEq,
      false_and, or_false] at hfails
    obtain (hb | ha | hb) | hda := hfails
    · exact .of_item hb (by simp)
    · exact .of_item ha (by simp)
    · exact .of_item hb (by simp)
    · exact (iha hda).of_operand (by simp)
  | sin _ iha | cos _ iha | exp _ iha =>
    simp only [sinRule, cosRule, expRule, failsToSimplify_binary, failsToSimplify_unary,
      not_failsToSimplify_number, reduceCtorEq, false_and, or_false, false_or] at hfails
    obtain hda | ha := hfails
    · exact (iha hda).of_operand (by simp)
    · exact .of_item ha (by simp)
  | tan _ iha =>
    simp only [tanRule, failsToSimplify_binary, failsToSimplify_unary, not_failsToSimplify_number,
      reduceCtorEq, false_and, true_and, or_false] at hfails
    obtain hda | ha | ⟨z, hsquare, hz⟩ := hfails
    · exact (iha hda).of_operand (by simp)
    · exact .of_item ha (by simp)
    · exact absurd hz (not_isZero_square_cos hsquare)
  | @ln a _ _ iha =>
    simp only [lnRule, failsToSimplify_binary, true_and] at hfails
    obtain hda | ha | ⟨z, hlog, hz⟩ := hfails
    · exact (iha hda).of_operand (by simp)
    · exact .of_item ha (by simp)
    · exact Or.inr ⟨_, .root _, Or.inl ⟨a, z, rfl, hlog, hz⟩⟩

end Expr

/-- **Every division by zero has an origin in the text.** The expression itself divides by zero, or
differentiation reaches the logarithm of zero, or it reaches a quotient by a number so small that
its square vanishes. -/
theorem division_by_zero_origin (arith : Arithmetic) (options : Options) (text : String)
    (error : Error) (quotient : String) (h : differentiateText arith options text = .error error)
    (hcause : error.cause = .divisionByZero quotient) :
    ∃ e, Expr.ofText options.maxDepth text = .ok e ∧
      ((∃ quotient', (e.simplify arith).outcome = .error ⟨.divisionByZero quotient', []⟩) ∨
        (∃ t, Expr.Visited t e ∧ t.LogOfZero arith) ∨
        ∃ t, Expr.Visited t e ∧ t.SquareVanishes arith) := by
  -- no earlier stage has this cause, so the derivative is there and fails to simplify
  have hstage : error.cause.stage = .simplification := by
    rw [hcause]
    rfl
  obtain ⟨e, d, he, hd, hfails⟩ :=
    exists_of_differentiate_error (differentiateText_eq_error.1 h) hstage
  refine ⟨e, he, ?_⟩
  obtain ⟨error', herror⟩ | ⟨t, ht, hlog | hsquare⟩ := hd.origin ⟨error, hfails⟩
  · obtain ⟨quotient', rfl⟩ := Expr.cause_of_simplify_error herror
    exact Or.inl ⟨quotient', herror⟩
  · exact Or.inr (Or.inl ⟨t, ht, hlog⟩)
  · exact Or.inr (Or.inr ⟨t, ht, hsquare⟩)

/-- The logarithm of zero. -/
theorem division_by_zero_origin_of_log :
    differentiateText .squaring {} "(ln 0)" = .error ⟨.divisionByZero "(/ 0 0)", []⟩ ∧
      ∃ e, Expr.ofText 256 "(ln 0)" = .ok e ∧
        ((∃ quotient, (e.simplify .squaring).outcome = .error ⟨.divisionByZero quotient, []⟩) ∨
          (∃ t, Expr.Visited t e ∧ t.LogOfZero .squaring) ∨
          ∃ t, Expr.Visited t e ∧ t.SquareVanishes .squaring) := by
  have h : differentiateText .squaring {} "(ln 0)" = .error ⟨.divisionByZero "(/ 0 0)", []⟩ := by
    decide +kernel
  exact ⟨h, division_by_zero_origin .squaring {} "(ln 0)" _ _ h rfl⟩

/-- **A small denominator is enough.** The expression is simplified, to itself, and holds no
logarithm, but the derivative divides by a square that vanishes. -/
theorem division_by_zero_of_small_denominator :
    let e := Expr.binary .div (.symbol "x") (.number 1e-200)
    let quotient := (Expr.binary .div (.number 1e-200) (.number 0)).text
    Expr.ofText 256 "(/ x 1e-200)" = .ok e ∧
      differentiateText .squaring {} "(/ x 1e-200)" = .error ⟨.divisionByZero quotient, []⟩ ∧
      (e.simplify .squaring).outcome = .ok e ∧ ∀ a, ¬ Expr.Visited (.unary .ln a) e := by
  intro e quotient
  refine ⟨by decide +kernel, by decide +kernel, by decide +kernel, fun a h => ?_⟩
  obtain heq | ⟨b, hb, h⟩ := Expr.visited_iff.1 h
  · exact absurd heq (by simp [e, Expr.unary, Expr.binary])
  · simp only [e, Expr.differentiatedOperands_binary, List.mem_cons, List.not_mem_nil,
      or_false] at hb
    obtain rfl | rfl := hb
    · cases Expr.visited_symbol.1 h
    · cases Expr.visited_number.1 h

end FormalCalculus
