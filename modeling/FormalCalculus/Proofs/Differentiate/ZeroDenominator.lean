import FormalCalculus.Proofs.Differentiate.DivisionByZero

/-!
# No division by zero is lost

The derivative of an expression is a different expression: its quotients are new, and some operands
do not occur in it at all. Still, whatever makes the expression divide by zero is met again when its
derivative is simplified:

* the operands of products, quotients, powers and functions are copied into the derivative, and a
  copy that fails to simplify makes the whole fail, even as a factor of zero or in an exponent;
* the terms of sums and differences are not copied, but their derivatives are there, and fail in
  their place;
* a denominator comes back as its square, and the square of zero is zero. This is arithmetic, and
  is asked of the powers at hand (`Arithmetic.SquaresZeros`);
* the argument of a logarithm becomes a denominator itself.

So the origins of a failure (`Expr.Origin`) are not only where failures come from, they all lead to
one (`Expr.Derives.fails_iff_origin`). Main statement: `division_by_zero_is_reported`.
-/

namespace FormalCalculus

/-- The squares of both zeros are zero, as powers. -/
structure Arithmetic.SquaresZeros (arith : Arithmetic) : Prop where
  zero : (arith.pow 0 2 == 0) = true
  minusZero : (arith.pow (-0) 2 == 0) = true

theorem Arithmetic.squaring_squaresZeros : squaring.SquaresZeros where
  zero := by decide +kernel
  minusZero := by decide +kernel

variable {arith : Arithmetic} {v : Variable}

/-- What compares equal to zero has a square that does. -/
theorem Arithmetic.SquaresZeros.pow_two (harith : arith.SquaresZeros) {x : Float}
    (hx : (x == 0) = true) : (arith.pow x 2 == 0) = true := by
  obtain rfl | rfl := Numeral.eq_zero_of_beq_zero hx
  · exact harith.zero
  · exact harith.minusZero

namespace Expr

/-! ### Subterms that divide by zero -/

/-- A quotient whose denominator is simplified to zero. -/
def QuotientByZero (arith : Arithmetic) (t : Expr) : Prop :=
  ∃ a b z, t = binary .div a b ∧ (b.simplify arith).outcome = .ok z ∧ z.isZero = true

theorem QuotientByZero.fails {t : Expr} (h : t.QuotientByZero arith) : t.FailsToSimplify arith := by
  obtain ⟨a, b, z, rfl, hb, hz⟩ := h
  exact failsToSimplify_binary.2 (Or.inr (Or.inr ⟨rfl, z, hb, hz⟩))

/-- **A subterm that fails makes the whole fail**, wherever it stands. -/
theorem failsToSimplify_of_mem_subterms {t e : Expr} (ht : t ∈ e.subterms)
    (hfails : t.FailsToSimplify arith) : e.FailsToSimplify arith := by
  induction e using Expr.induction with
  | number x =>
    obtain rfl : t = number x := List.mem_singleton.1 ht
    exact hfails
  | symbol name =>
    obtain rfl : t = symbol name := List.mem_singleton.1 ht
    exact hfails
  | list es ih =>
    obtain rfl | ⟨e, he, ht⟩ := mem_subterms_list.1 ht
    · exact hfails
    · exact failsToSimplify_of_mem_items (e := list es) he (ih e he ht)

/-! ### Origins at a root -/

/-- A number whose square vanishes is squared to zero: the square is finite, and so it is folded. -/
theorem square_simplifiesTo_zero {b : Expr} {y : Float} (hb : b.SimplifiesTo arith (number y))
    (hsquare : (arith.pow y 2 == 0) = true) :
    ∃ z, (binary .pow b (number 2)).SimplifiesTo arith z ∧ z.isZero = true := by
  have hfinite : (arith.pow y 2).isFinite = true := by
    obtain hzero | hzero := Numeral.eq_zero_of_beq_zero hsquare
    · rw [hzero]
      decide +kernel
    · rw [hzero]
      decide +kernel
  have hfold : arith.fold? .pow y 2 = some (arith.pow y 2) :=
    Option.filter_eq_some_iff.2 ⟨rfl, hfinite⟩
  have htwo : (number 2).isZero = false ∧ (number 2).isOne = false := by decide
  have hrule : Rules.ofOp arith .pow (number y) (number 2) =
      .ok (some (.single (.foldConstants .pow) (number (arith.pow y 2)))) := by
    simp [Rules.ofOp, Rules.power, Rules.powerZero, Rules.powerOne, Rules.foldConstants, htwo,
      hfold]
  refine ⟨number (arith.pow y 2), simplifiesTo_binary.2 ?_, hsquare⟩
  exact ⟨_, _, hb, simplifiesTo_number.2 rfl, Or.inr ⟨_, hrule, rfl⟩⟩

/-- A zero is a number. -/
theorem eq_number_of_isZero {z : Expr} (h : z.isZero = true) :
    ∃ y, z = number y ∧ (y == 0) = true := by
  cases z with
  | number y => exact ⟨y, rfl, h⟩
  | symbol name => cases h
  | list es => cases h

/-- An origin lies at the root or in a differentiated operand. -/
theorem Origin.root_or_operand {e : Expr} (h : e.Origin arith) :
    e.FailsToSimplify arith ∨ e.LogOfZero arith ∨ e.SquareVanishes arith ∨
      ∃ a ∈ e.differentiatedOperands, a.Origin arith := by
  obtain hfails | ⟨t, hvisited, ht⟩ := h
  · exact Or.inl hfails
  · obtain rfl | ⟨a, ha, hvisited⟩ := visited_iff.1 hvisited
    · exact Or.inr (ht.imp_right Or.inl)
    · exact Or.inr (Or.inr (Or.inr ⟨a, ha, Or.inr ⟨t, hvisited, ht⟩⟩))

/-- A leaf has none. -/
theorem not_origin_of_leaf {e : Expr} (hfails : ¬ e.FailsToSimplify arith) (hitems : e.items = []) :
    ¬ e.Origin arith := by
  intro h
  obtain h | ⟨a, z, rfl, -⟩ | ⟨a, b, y, rfl, -⟩ | ⟨a, ha, -⟩ := h.root_or_operand
  · exact hfails h
  · cases hitems
  · cases hitems
  · have ha := mem_items_of_mem_differentiatedOperands ha
    rw [hitems] at ha
    cases ha

/-- The origins in a unary application. -/
theorem Origin.cases_unary {op : Op} {a : Expr} (h : (unary op a).Origin arith) :
    a.FailsToSimplify arith ∨ (op = .ln ∧ ∃ z, a.SimplifiesTo arith z ∧ z.isZero = true) ∨
      ∃ c ∈ (unary op a).differentiatedOperands, c.Origin arith := by
  obtain hfails | ⟨a', z, heq, ha, hz⟩ | ⟨a', b', y, heq, -⟩ | hoperand := h.root_or_operand
  · exact Or.inl (failsToSimplify_unary.1 hfails)
  · obtain ⟨hop, rfl⟩ := unary_inj.1 heq
    exact Or.inr (Or.inl ⟨hop, z, ha, hz⟩)
  · exact absurd heq unary_ne_binary
  · exact Or.inr (Or.inr hoperand)

/-- The origins in a binary application. A denominator zero is one whose square vanishes, too. -/
theorem Origin.cases_binary (harith : arith.SquaresZeros) {op : Op} {a b : Expr}
    (h : (binary op a b).Origin arith) :
    a.FailsToSimplify arith ∨ b.FailsToSimplify arith ∨
      (op = .div ∧ ∃ y, b.SimplifiesTo arith (number y) ∧ (arith.pow y 2 == 0) = true) ∨
      ∃ c ∈ (binary op a b).differentiatedOperands, c.Origin arith := by
  obtain hfails | ⟨a', z, heq, -⟩ | ⟨a', b', y, heq, hb, -, hsquare⟩ | hoperand :=
    h.root_or_operand
  · obtain ha | hb | ⟨hop, z, hb, hz⟩ := failsToSimplify_binary.1 hfails
    · exact Or.inl ha
    · exact Or.inr (Or.inl hb)
    · obtain ⟨y, rfl, hy⟩ := eq_number_of_isZero hz
      exact Or.inr (Or.inr (Or.inl ⟨hop, y, hb, harith.pow_two hy⟩))
  · exact absurd heq.symm unary_ne_binary
  · obtain ⟨hop, rfl, rfl⟩ := binary_inj.1 heq
    exact Or.inr (Or.inr (Or.inl ⟨hop, y, hb, hsquare⟩))
  · exact Or.inr (Or.inr (Or.inr hoperand))

/-! ### Every origin leads to a failure -/

/-- **The derivative fails wherever an origin lies**, by induction on the derivative: at the root
the failure is copied or put in by the rule, and below it, the derivative of an operand fails. -/
theorem Derives.fails_of_origin (harith : arith.SquaresZeros) {e d : Expr} (h : Derives v e d)
    (horigin : e.Origin arith) : d.FailsToSimplify arith := by
  induction h with
  | number x => exact absurd horigin (not_origin_of_leaf not_failsToSimplify_number rfl)
  | symbol name => exact absurd horigin (not_origin_of_leaf not_failsToSimplify_symbol rfl)
  | @add a b da db _ _ iha ihb | @sub a b da db _ _ iha ihb =>
    rw [failsToSimplify_binary]
    obtain ha | hb | ⟨⟨⟩, -⟩ | hoperand := horigin.cases_binary harith
    -- the terms are gone, but their derivatives fail as they do
    · exact Or.inl (iha (Or.inl ha))
    · exact Or.inr (Or.inl (ihb (Or.inl hb)))
    · obtain ha | hb : a.Origin arith ∨ b.Origin arith := by simpa using hoperand
      · exact Or.inl (iha ha)
      · exact Or.inr (Or.inl (ihb hb))
  | @mul a b da db _ _ iha ihb =>
    simp only [productRule, failsToSimplify_binary, reduceCtorEq, false_and, or_false]
    obtain ha | hb | ⟨⟨⟩, -⟩ | hoperand := horigin.cases_binary harith
    · exact Or.inl (Or.inl ha)
    · exact Or.inr (Or.inr hb)
    · obtain ha | hb : a.Origin arith ∨ b.Origin arith := by simpa using hoperand
      · exact Or.inr (Or.inl (iha ha))
      · exact Or.inl (Or.inr (ihb hb))
  | @div a b da db _ _ iha ihb =>
    simp only [quotientRule, failsToSimplify_binary, not_failsToSimplify_number, reduceCtorEq,
      false_and, true_and, or_false]
    obtain ha | hb | ⟨-, y, hy, hsquare⟩ | hoperand := horigin.cases_binary harith
    · exact Or.inl (Or.inr (Or.inl ha))
    · exact Or.inl (Or.inl (Or.inr hb))
    -- the new denominator is the square of the old one
    · exact Or.inr (Or.inr (square_simplifiesTo_zero hy hsquare))
    · obtain ha | hb : a.Origin arith ∨ b.Origin arith := by simpa using hoperand
      · exact Or.inl (Or.inl (Or.inl (iha ha)))
      · exact Or.inl (Or.inr (Or.inr (ihb hb)))
  | @pow a b da _ iha =>
    simp only [powerRule, failsToSimplify_binary, not_failsToSimplify_number, reduceCtorEq,
      false_and, or_false]
    obtain ha | hb | ⟨⟨⟩, -⟩ | hoperand := horigin.cases_binary harith
    · exact Or.inl (Or.inr (Or.inl ha))
    -- the exponent is not differentiated, but copied twice
    · exact Or.inl (Or.inl hb)
    · have ha : a.Origin arith := by simpa using hoperand
      exact Or.inr (iha ha)
  | @sin a da _ iha | @cos a da _ iha | @tan a da _ iha | @exp a da _ iha =>
    simp only [sinRule, cosRule, tanRule, expRule, failsToSimplify_binary, failsToSimplify_unary,
      not_failsToSimplify_number, reduceCtorEq, false_and, true_and, or_false, false_or]
    obtain ha | ⟨⟨⟩, -⟩ | hoperand := horigin.cases_unary
    · simp only [ha, true_or, or_true]
    · have ha : a.Origin arith := by simpa using hoperand
      exact Or.inl (iha ha)
  | @ln a da _ iha =>
    simp only [lnRule, failsToSimplify_binary, true_and]
    obtain ha | ⟨-, hzero⟩ | hoperand := horigin.cases_unary
    · exact Or.inr (Or.inl ha)
    -- the argument is the new denominator
    · exact Or.inr (Or.inr hzero)
    · have ha : a.Origin arith := by simpa using hoperand
      exact Or.inl (iha ha)

/-- **A derivative fails to simplify exactly if there is an origin** in what it was taken of. -/
theorem Derives.fails_iff_origin (harith : arith.SquaresZeros) {e d : Expr} (h : Derives v e d) :
    d.FailsToSimplify arith ↔ e.Origin arith :=
  ⟨h.origin, h.fails_of_origin harith⟩

end Expr

/-- **No division by zero is lost.** If the parsed expression has a derivative, and either fails to
simplify itself, or has a quotient by zero anywhere in it, or has the logarithm of zero where
differentiation reaches it, then the whole fails with a division by zero. -/
theorem division_by_zero_is_reported (arith : Arithmetic) (harith : arith.SquaresZeros)
    (options : Options) (text : String) (e d : Expr)
    (he : Expr.ofText options.maxDepth text = .ok e) (hd : e.derivative options.respectTo = .ok d)
    (h : (∃ error, (e.simplify arith).outcome = .error error) ∨
      (∃ t ∈ e.subterms, t.QuotientByZero arith) ∨
      ∃ t, Expr.Visited t e ∧ t.LogOfZero arith) :
    ∃ quotient, differentiateText arith options text = .error ⟨.divisionByZero quotient, []⟩ := by
  have horigin : e.Origin arith := by
    obtain hfails | ⟨t, ht, hquotient⟩ | ⟨t, hvisited, hlog⟩ := h
    · exact Or.inl hfails
    · exact Or.inl (Expr.failsToSimplify_of_mem_subterms ht hquotient.fails)
    · exact Or.inr ⟨t, hvisited, Or.inl hlog⟩
  obtain ⟨error, herror⟩ := ((Expr.derivative_eq_ok.1 hd).fails_iff_origin harith).2 horigin
  obtain ⟨quotient, rfl⟩ := Expr.cause_of_simplify_error herror
  refine ⟨quotient, differentiateText_eq_error.2 ?_⟩
  rw [differentiate, he]
  refine Expr.bind_eq_error.2 (Or.inr ⟨e, rfl, ?_⟩)
  exact Expr.bind_eq_error.2 (Or.inr ⟨d, hd, herror⟩)

/-- A quotient by zero as a factor of zero. -/
theorem division_by_zero_is_reported_of_factor :
    let text := "(* 0 (/ x (- 2 2)))"
    let quotient := Expr.binary .div (.symbol "x") (.binary .sub (.number 2) (.number 2))
    let e := Expr.binary .mul (.number 0) quotient
    Arithmetic.squaring.SquaresZeros ∧ Expr.ofText 256 text = .ok e ∧
      (∃ d, e.derivative .any = .ok d) ∧ quotient ∈ e.subterms ∧
      quotient.QuotientByZero .squaring ∧
      ∃ quotient, differentiateText .squaring {} text = .error ⟨.divisionByZero quotient, []⟩ := by
  intro text quotient e
  have harith := Arithmetic.squaring_squaresZeros
  have he : Expr.ofText 256 text = .ok e := by decide +kernel
  obtain ⟨d, hd⟩ : ∃ d, Expr.Derives .any e d :=
    ⟨_, .mul (.number 0) (.div (.symbol "x") (.sub (.number 2) (.number 2)))⟩
  have hd : e.derivative .any = .ok d := Expr.derivative_eq_ok.2 hd
  have hmem : quotient ∈ e.subterms := by decide +kernel
  have hzero : quotient.QuotientByZero .squaring :=
    ⟨_, _, .number 0, rfl, by decide +kernel, by decide⟩
  exact ⟨harith, he, ⟨d, hd⟩, hmem, hzero,
    division_by_zero_is_reported .squaring harith {} text e d he hd
      (Or.inr (Or.inl ⟨quotient, hmem, hzero⟩))⟩

end FormalCalculus
