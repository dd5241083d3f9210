import FormalCalculus.Derivative
import FormalCalculus.Proofs.Expr.Value
import Mathlib.Algebra.MvPolynomial.Derivation
import Mathlib.Algebra.TrivSqZeroExt.Basic
import Mathlib.RingTheory.Derivation.Basic
import Mathlib.RingTheory.Localization.FractionRing
import Mathlib.Tactic.FieldSimp

/-!
# The laws of calculus

`Interpretation.Calculus` says what powers and the elementary functions have to do with a derivation
of a field. Sums, products and quotients need no law of their own: that a derivation is additive and
obeys the rule for products is all there is to know (`derivation_div`). Nor does the derivative of a
tangent, which is a quotient (`Interpretation.Calculus.derivation_tan`).

The laws can be met: they hold in `Elementary`, the field that a variable generates together with
the tangent of its half, its exponential and its logarithm (`Elementary.calculus`). Its derivation
is given on polynomials by what it does to the four generators, and extends to fractions because a
fraction and its derivative make a dual number (`Fractions.derivation`).
-/

namespace FormalCalculus

variable {K : Type*} [Field K] {I : Interpretation K} {D : Derivation ℤ K K} {S : Set K}

/-- **The laws of calculus.** Numbers are constants, and powers and functions have the derivatives
that they have. The elementary functions obey their laws on a set `S` of arguments. With
`Set.univ` these are functions on the whole field; but a field that has a sine of one element may
have none of another, and then nothing has to be known of the other. -/
structure Interpretation.Calculus (I : Interpretation K) (D : Derivation ℤ K K) (S : Set K) :
    Prop extends I.StandardLiterals where
  constant : ∀ x, D (I.literal x) = 0
  sin : ∀ f ∈ S, D (I.sin f) = D f * I.cos f
  cos : ∀ f ∈ S, D (I.cos f) = -(D f * I.sin f)
  tan : ∀ f ∈ S, I.cos f ≠ 0 → I.tan f * I.cos f = I.sin f
  circle : ∀ f ∈ S, I.sin f ^ 2 + I.cos f ^ 2 = 1
  exp : ∀ f ∈ S, D (I.exp f) = D f * I.exp f
  ln : ∀ f ∈ S, f ≠ 0 → f * D (I.ln f) = D f
  square : ∀ f, I.power f 2 = f * f
  power : ∀ f c, D c = 0 → D (I.power f c) = c * I.power f (c - 1) * D f

/-- The derivative of a quotient, with the denominator as the rule has it. -/
theorem derivation_div (f g : K) : D (f / g) = (D f * g - f * D g) / (g * g) := by
  rw [D.leibniz_div, smul_eq_mul, smul_eq_mul, smul_eq_mul, inv_pow, inv_mul_eq_div, sq,
    mul_comm g]

/-- The derivative of a tangent: a tangent is the quotient of a sine and a cosine, and their squares
add up to one. -/
theorem Interpretation.Calculus.derivation_tan (hI : I.Calculus D S) {f : K} (hf : f ∈ S)
    (hne : I.cos f ≠ 0) : D (I.tan f) = D f / (I.cos f * I.cos f) := by
  have htan : I.tan f = I.sin f / I.cos f := eq_div_of_mul_eq hne (hI.tan f hf hne)
  have hnumerator : D f * I.cos f * I.cos f - I.sin f * -(D f * I.sin f) = D f := by
    calc D f * I.cos f * I.cos f - I.sin f * -(D f * I.sin f)
        = D f * (I.sin f ^ 2 + I.cos f ^ 2) := by ring
      _ = D f := by rw [hI.circle f hf, mul_one]
  rw [htan, derivation_div, hI.sin f hf, hI.cos f hf, hnumerator]

/-! ### Derivations of fractions -/

namespace Fractions

open TrivSqZeroExt

variable {R A K : Type*} [CommRing R] [CommRing A] [Algebra R A] [Field K] [Module R K]
  [Algebra A K] [IsFractionRing A K]

/-- An element and its derivative, as a dual number. Dual numbers are multiplied by the rule for
products. -/
noncomputable def dual (d : Derivation R A K) : A →+* TrivSqZeroExt K K where
  toFun a := (algebraMap A K a, d a)
  map_zero' := TrivSqZeroExt.ext (map_zero _) (map_zero d)
  map_one' := TrivSqZeroExt.ext (map_one _) d.map_one_eq_zero
  map_add' a b := TrivSqZeroExt.ext (map_add _ a b) (map_add d a b)
  map_mul' a b := by
    refine TrivSqZeroExt.ext (map_mul _ a b) ?_
    show d (a * b) = algebraMap A K a * d b + d a * algebraMap A K b
    rw [d.leibniz, Algebra.smul_def, Algebra.smul_def, mul_comm (algebraMap A K b)]

theorem isUnit_dual (d : Derivation R A K) (a : nonZeroDivisors A) : IsUnit (dual d a) :=
  isUnit_iff_isUnit_fst.2 (IsLocalization.map_units K a)

/-- A fraction and its derivative, as a dual number. -/
noncomputable def fractionDual (d : Derivation R A K) : K →+* TrivSqZeroExt K K :=
  IsLocalization.lift (isUnit_dual d)

theorem fractionDual_algebraMap (d : Derivation R A K) (a : A) :
    fractionDual d (algebraMap A K a) = dual d a :=
  IsLocalization.lift_eq (isUnit_dual d) a

theorem fst_fractionDual (d : Derivation R A K) (f : K) : (fractionDual d f).fst = f := by
  have hid : (fstHom K K K : TrivSqZeroExt K K →+* K).comp (fractionDual d) = RingHom.id K := by
    refine IsLocalization.ringHom_ext (nonZeroDivisors A) (RingHom.ext fun a => ?_)
    exact congrArg fst (fractionDual_algebraMap d a)
  exact congrArg (fun g : K →+* K => g f) hid

/-- **A derivation extends to fractions.** -/
noncomputable def derivation (d : Derivation R A K) : Derivation ℤ K K :=
  Derivation.mk' (((sndHom K K).restrictScalars ℤ).comp (fractionDual d).toIntAlgHom.toLinearMap)
    fun f g => by simp [fst_fractionDual, mul_comm g]

theorem derivation_algebraMap (d : Derivation R A K) (a : A) :
    derivation d (algebraMap A K a) = d a :=
  congrArg snd (fractionDual_algebraMap d a)

end Fractions

/-! ### A field of elementary functions -/

/-- A variable, the tangent of its half, its exponential and its logarithm. -/
inductive Elementary.Generator where
  | variable
  | halfTangent
  | exponential
  | logarithm

/-- **The field of elementary functions**: the rational functions of the generators. -/
def Elementary := FractionRing (MvPolynomial Elementary.Generator ℤ)

namespace Elementary

noncomputable instance : Field Elementary :=
  inferInstanceAs (Field (FractionRing (MvPolynomial Generator ℤ)))

noncomputable instance : Algebra (MvPolynomial Generator ℤ) Elementary :=
  inferInstanceAs (Algebra _ (FractionRing (MvPolynomial Generator ℤ)))

instance : IsFractionRing (MvPolynomial Generator ℤ) Elementary :=
  inferInstanceAs (IsFractionRing _ (FractionRing (MvPolynomial Generator ℤ)))

instance : CharZero Elementary :=
  IsFractionRing.charZero_of_isFractionRing (MvPolynomial Generator ℤ)

noncomputable def generator (g : Generator) : Elementary :=
  algebraMap (MvPolynomial Generator ℤ) Elementary (MvPolynomial.X g)

/-- The variable. -/
noncomputable def x : Elementary := generator .variable

/-- The tangent of half the variable, of which the trigonometric functions are rational
functions. -/
noncomputable def t : Elementary := generator .halfTangent

/-- The derivatives of the generators. -/
noncomputable def slope : Generator → Elementary
  | .variable => 1
  | .halfTangent => (1 + t ^ 2) / 2
  | .exponential => generator .exponential
  | .logarithm => 1 / x

noncomputable def deriv : Derivation ℤ Elementary Elementary :=
  Fractions.derivation (MvPolynomial.mkDerivation ℤ slope)

theorem deriv_generator (g : Generator) : deriv (generator g) = slope g :=
  (Fractions.derivation_algebraMap _ _).trans (MvPolynomial.mkDerivation_X ℤ slope g)

theorem deriv_x : deriv x = 1 := deriv_generator .variable

theorem deriv_t : deriv t = (1 + t ^ 2) / 2 := deriv_generator .halfTangent

theorem deriv_two_mul_t : deriv (2 * t) = 1 + t ^ 2 := by
  rw [two_mul, map_add, deriv_t, add_halves]

theorem deriv_t_sq : deriv (t ^ 2) = t * (1 + t ^ 2) := by
  rw [sq, Derivation.leibniz, smul_eq_mul, ← mul_add, deriv_t, add_halves, sq]

/-- Rational numbers are constants. -/
theorem deriv_ratCast (q : ℚ) : deriv q = 0 := by
  rw [Rat.cast_def, Derivation.leibniz_div]
  simp

/-- A polynomial that is not zero at some point is not zero. -/
theorem algebraMap_ne_zero {p : MvPolynomial Generator ℤ} (point : Generator → ℤ)
    (h : MvPolynomial.eval point p ≠ 0) : algebraMap _ Elementary p ≠ 0 := by
  intro hzero
  rw [FaithfulSMul.algebraMap_eq_zero_iff] at hzero
  rw [hzero, map_zero] at h
  exact h rfl

theorem generator_ne_zero (g : Generator) : generator g ≠ 0 := algebraMap_ne_zero 1 (by simp)

theorem one_add_sq_ne_zero : 1 + t ^ 2 ≠ 0 := by
  have h := algebraMap_ne_zero (p := 1 + MvPolynomial.X .halfTangent ^ 2) 0 (by simp)
  rwa [map_add, map_one, map_pow] at h

theorem one_sub_sq_ne_zero : 1 - t ^ 2 ≠ 0 := by
  have h := algebraMap_ne_zero (p := 1 - MvPolynomial.X .halfTangent ^ 2) 0 (by simp)
  rwa [map_sub, map_one, map_pow] at h

open Classical in
/-- Powers with an integer exponent. Any other power is zero, which has the derivative that the law
demands: an exponent is an integer if the next lower one is. -/
noncomputable def power (f c : Elementary) : Elementary :=
  if h : ∃ n : ℤ, c = n then f ^ h.choose else 0

theorem power_intCast (f : Elementary) (n : ℤ) : power f n = f ^ n := by
  have h : ∃ m : ℤ, (n : Elementary) = m := ⟨n, rfl⟩
  rw [power, dif_pos h, ← Int.cast_injective h.choose_spec]

theorem deriv_power (f c : Elementary) : deriv (power f c) = c * power f (c - 1) * deriv f := by
  by_cases h : ∃ n : ℤ, c = n
  · obtain ⟨n, rfl⟩ := h
    have hpred : (n : Elementary) - 1 = (n - 1 : ℤ) := by rw [Int.cast_sub, Int.cast_one]
    rw [hpred, power_intCast, power_intCast, Derivation.leibniz_zpow, zsmul_eq_mul, smul_eq_mul,
      mul_assoc]
  · have hpred : ¬∃ n : ℤ, c - 1 = n := by
      rintro ⟨n, hn⟩
      exact h ⟨n + 1, by rw [Int.cast_add, ← hn, Int.cast_one, sub_add_cancel]⟩
    rw [power, power, dif_neg h, dif_neg hpred, map_zero, mul_zero, zero_mul]

/-- **The elementary functions of the variable**, each given at the variable and nowhere else. The
symbol `x` stands for the variable, and all others for one. -/
noncomputable def interpretation : Interpretation Elementary where
  literal a := Numeral.toRat a
  symbol name := if name = "x" then x else 1
  power := power
  sin _ := 2 * t / (1 + t ^ 2)
  cos _ := (1 - t ^ 2) / (1 + t ^ 2)
  tan _ := 2 * t / (1 - t ^ 2)
  exp _ := generator .exponential
  ln _ := generator .logarithm

theorem cos_ne_zero {f : Elementary} : interpretation.cos f ≠ 0 :=
  div_ne_zero one_sub_sq_ne_zero one_add_sq_ne_zero

theorem symbol_x : interpretation.symbol "x" = x := by simp [interpretation]

/-- The variable is the one symbol that is not constant. -/
theorem deriv_symbol (name : String) :
    deriv (interpretation.symbol name) = if (Variable.named "x").matches name then 1 else 0 := by
  by_cases h : name = "x"
  · simp [h, symbol_x, deriv_x, Variable.matches]
  · have hname : interpretation.symbol name = 1 := by simp [interpretation, h]
    simp [hname, Variable.matches, Ne.symm h]

/-- **The laws of calculus hold** at the variable. -/
theorem calculus : interpretation.Calculus deriv {x} where
  toStandardLiterals := Interpretation.standardLiterals_of_toRat fun _ => rfl
  constant a := deriv_ratCast _
  sin := by
    rintro f rfl
    have hne := one_add_sq_ne_zero
    show deriv (2 * t / (1 + t ^ 2)) = deriv x * ((1 - t ^ 2) / (1 + t ^ 2))
    -- the derivative that the half-angle tangent has been given makes this a sine
    rw [derivation_div, deriv_two_mul_t, map_add, Derivation.map_one_eq_zero, deriv_t_sq, deriv_x]
    field_simp
    ring
  cos := by
    rintro f rfl
    have hne := one_add_sq_ne_zero
    show deriv ((1 - t ^ 2) / (1 + t ^ 2)) = -(deriv x * (2 * t / (1 + t ^ 2)))
    rw [derivation_div, map_sub, map_add, Derivation.map_one_eq_zero, deriv_t_sq, deriv_x]
    field_simp
    ring
  tan := by
    rintro f rfl -
    have hne := one_add_sq_ne_zero
    have hne' := one_sub_sq_ne_zero
    show 2 * t / (1 - t ^ 2) * ((1 - t ^ 2) / (1 + t ^ 2)) = 2 * t / (1 + t ^ 2)
    field_simp
  circle := by
    rintro f rfl
    have hne := one_add_sq_ne_zero
    show (2 * t / (1 + t ^ 2)) ^ 2 + ((1 - t ^ 2) / (1 + t ^ 2)) ^ 2 = 1
    field_simp
    ring
  exp := by
    rintro f rfl
    show deriv (generator .exponential) = deriv x * generator .exponential
    rw [deriv_x, one_mul, deriv_generator, slope]
  ln := by
    rintro f rfl hne
    show x * deriv (generator .logarithm) = deriv x
    rw [deriv_x, deriv_generator, slope, mul_one_div_cancel hne]
  square f := by
    have h := power_intCast f 2
    rw [Int.cast_ofNat] at h
    exact h.trans (zpow_two f)
  power f c _ := deriv_power f c

end Elementary

end FormalCalculus
