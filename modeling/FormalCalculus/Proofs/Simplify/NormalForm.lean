import FormalCalculus.Proofs.Numeral.Bits
import FormalCalculus.Proofs.Simplify.Outcome

/-!
# Simplification reaches a normal form

Rules are tried once at every list, from the leaves to the root, and never again. That this is
enough is a statement about what the rules offer: an expression is `Normal` if no rule fires at any
of its subterms, and a rule that fires on normal operands offers a normal expression
(`Rules.Fires.normal`). An offer is one of the operands, a number, a product with `-1` that the
rules for products decline, or a square.

The square is the one offer that depends on arithmetic. It is made of two equal numbers only where
their product overflows, and it is normal because the power overflows with it. Powers belong to the
arithmetic at hand, so this is asked of them: `Arithmetic.SquaresOverflow`.

Main statement: `Expr.simplify_reaches_normal_form`. What comes out is normal, and simplifying it
once more takes no step.
-/

namespace FormalCalculus

/-- A square overflows as a power if it does as a product. -/
def Arithmetic.SquaresOverflow (arith : Arithmetic) : Prop :=
  ∀ x : Float, (x * x).isFinite = false → (arith.pow x 2).isFinite = false

/-- The arithmetic whose powers are all squares. -/
def Arithmetic.squaring : Arithmetic where
  pow x _ := x * x

theorem Arithmetic.squaring_squaresOverflow : squaring.SquaresOverflow := fun _ h => h

/-- **Normal expressions**: no rule fires at any subterm. -/
def Expr.Normal (arith : Arithmetic) : Expr → Prop :=
  Expr.Everywhere fun t => Rules.apply arith t = .ok none

variable {arith : Arithmetic}

namespace Rules

/-! ### What is offered is normal -/

/-- A value that is not finite is not folded. -/
theorem fold?_eq_none {op : Op} {x y z : Float} (h : arith.apply op x y = some z)
    (hz : z.isFinite = false) : arith.fold? op x y = none := by
  simp [Arithmetic.fold?, h, Option.filter, hz]

/-- Equal numbers whose product overflows have the same product with themselves. -/
theorem mul_self_of_equal {x y : Float} (hx : (Expr.number x).isZero = false)
    (heq : (Expr.number x).equal (.number y) = true)
    (hfold : foldConstants arith .mul (.number x) (.number y) = none) :
    (x * x).isFinite = false := by
  have hxy : x = y := Numeral.eq_of_beq heq hx
  subst hxy
  by_contra hfinite
  simp [foldConstants, Arithmetic.fold?, Arithmetic.apply, Option.filter, hfinite] at hfold

/-- A square that is offered in the place of a product is not folded. -/
theorem power_two_of_square (harith : arith.SquaresOverflow) {a b : Expr}
    (ha : a.isZero = false) (heq : a.equal b = true)
    (hfold : foldConstants arith .mul a b = none) : power arith a (.number 2) = none := by
  have hzero : (Expr.number 2).isZero = false := by decide
  have hone : (Expr.number 2).isOne = false := by decide
  have hnone : foldConstants arith .pow a (.number 2) = none := by
    cases a with
    | number x =>
      cases b with
      | number y =>
        -- equal numbers that do not fold have a square that overflows
        have hpow := harith x (mul_self_of_equal ha heq hfold)
        rw [foldConstants, fold?_eq_none rfl hpow, Option.map_none]
      | symbol name => cases heq
      | list es => cases heq
    | symbol name => rfl
    | list es => rfl
  simp [power, powerZero, powerOne, hzero, hone, hnone]

theorem normal_number (x : Float) : (Expr.number x).Normal arith :=
  Expr.everywhere_number.2 rfl

/-- A binary application of normal operands is normal if no rule fires at it. -/
theorem normal_binary {op : Op} {a b : Expr} (hroot : ofOp arith op a b = .ok none)
    (ha : a.Normal arith) (hb : b.Normal arith) : (Expr.binary op a b).Normal arith :=
  Expr.everywhere_binary.2 ⟨(apply_binary op a b).trans hroot, rfl, ha, hb⟩

/-- **Offers are normal.** What a rule offers on normal operands, no rule rewrites again. -/
theorem Fires.normal (harith : arith.SquaresOverflow) {op : Op} {a b : Expr} {r : Rewrite}
    (h : Fires arith op a b r) (ha : a.Normal arith) (hb : b.Normal arith) :
    r.result.Normal arith := by
  induction h with
  | addZeroLeft _ => exact hb
  | addZeroRight _ => exact ha
  | subtractFromZero _ hproduct =>
    exact normal_binary (congrArg Except.ok hproduct) (normal_number _) hb
  | subtractFromZeroProduct _ _ ih =>
    -- the rules for products have taken the product with `-1` in turn
    exact ih (normal_number _) hb
  | subtractZero _ => exact ha
  | multiplyZero _ => exact normal_number _
  | multiplyOneLeft _ => exact hb
  | multiplyOneRight _ => exact ha
  | squareEqualFactors hzero heq hfold =>
    have hpower := power_two_of_square harith hzero heq hfold
    exact normal_binary (congrArg Except.ok hpower) ha (normal_number _)
  | divideOne _ => exact ha
  | divideEqual _ _ => exact normal_number _
  | powerZero _ => exact normal_number _
  | powerOne _ => exact ha
  | foldConstants _ => exact normal_number _

end Rules

namespace Expr

/-- **Simplification ends in a normal expression.** -/
theorem SimplifiesTo.normal (harith : arith.SquaresOverflow) {e s : Expr}
    (h : e.SimplifiesTo arith s) : s.Normal arith := by
  have hitems {es es' : List Expr} (hes : List.Forall₂ (fun _ s => s.Normal arith) es es') :
      ∀ e' ∈ es', e'.Normal arith := by
    intro e' he'
    obtain ⟨_, -, hnormal⟩ := exists_partner hes.flip he'
    exact hnormal
  refine SimplifiesTo.induction (motive := fun _ s => s.Normal arith)
    ?number ?symbol ?kept ?rewritten h
  case number => exact Rules.normal_number
  case symbol => exact fun name => everywhere_symbol.2 rfl
  case kept =>
    intro es es' hes hnone
    exact everywhere_list.2 ⟨hnone, hitems hes⟩
  case rewritten =>
    intro es op a b r hes hfires
    exact hfires.normal harith (hitems hes a (by simp)) (hitems hes b (by simp))

/-! ### Normal expressions stay as they are -/

theorem simplifyItems_of_forall {es : List Expr}
    (h : ∀ e ∈ es, e.simplify arith = Traced.pure e) :
    simplifyItems arith es = Traced.pure es := by
  induction es with
  | nil => rfl
  | cons e es ih =>
    rw [simplifyItems, h e List.mem_cons_self, Traced.pure_bind,
      ih fun e' he' => h e' (List.mem_cons_of_mem _ he'), Traced.pure_bind]

/-- **A normal expression is simplified to itself**, without a step. -/
theorem simplify_of_normal {e : Expr} (h : e.Normal arith) : e.simplify arith = Traced.pure e := by
  induction e using Expr.induction with
  | number x => rfl
  | symbol name => rfl
  | list es ih =>
    obtain ⟨hroot, hitems⟩ := everywhere_list.1 h
    rw [simplify, simplifyItems_of_forall fun e he => ih e he (hitems e he), Traced.pure_bind,
      simplifyRoot, hroot]

/-- **Simplification reaches a normal form and is idempotent.** No rule fires at any list of what
comes out, so that simplifying it again takes no step and changes nothing. -/
theorem simplify_reaches_normal_form (arith : Arithmetic) (harith : arith.SquaresOverflow)
    (e s : Expr) (h : (e.simplify arith).outcome = .ok s) :
    (∀ es, list es ∈ s.subterms → Rules.apply arith (list es) = .ok none) ∧
      s.simplify arith = ⟨[], .ok s⟩ := by
  have hnormal : s.Normal arith := SimplifiesTo.normal harith h
  exact ⟨fun es hes => hnormal (list es) hes, simplify_of_normal hnormal⟩

/-- A difference from zero of a product that overflows: the product becomes a square, and stays one
below the factor `-1`. -/
theorem simplify_reaches_normal_form_of_overflow :
    let e := binary .sub (number 0) (binary .mul (number 1e200) (number 1e200))
    let s := binary .mul (number (-1)) (binary .pow (number 1e200) (number 2))
    (e.simplify .squaring).outcome = .ok s ∧
      (∀ es, list es ∈ s.subterms → Rules.apply .squaring (list es) = .ok none) ∧
      s.simplify .squaring = ⟨[], .ok s⟩ := by
  intro e s
  have h : (e.simplify .squaring).outcome = .ok s := by decide +kernel
  exact ⟨h, simplify_reaches_normal_form .squaring Arithmetic.squaring_squaresOverflow e s h⟩

end Expr

end FormalCalculus
