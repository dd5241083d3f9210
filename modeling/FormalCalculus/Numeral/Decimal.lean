import FormalCalculus.Numeral.Magnitude

/-!
# Decimals and the magnitudes they denote

A `Decimal` is `digits * 10 ^ exponent`. `Decimal.code` is the code of the nearest magnitude, so a
decimal is read by rounding once, from its exact value. Decimals far outside the range of the
magnitudes are settled by their exponent alone, without ever writing down the power of ten: the two
bounds are generous, and nothing that denotes a finite magnitude other than zero lies beyond them.

`Decimal.exact` writes a finite magnitude down in full; `Decimal.code_exact` says that it is read
as the magnitude it came from.
-/

namespace FormalCalculus.Numeral

/-- An unsigned decimal number, `digits * 10 ^ exponent`. -/
structure Decimal where
  /-- The digits, read as one natural number. -/
  digits : Nat
  /-- The power of ten that the last digit counts. -/
  exponent : Int
deriving DecidableEq, Repr

namespace Decimal

/-- The numerator of a decimal as a quotient. -/
def numerator (d : Decimal) : Nat := d.digits * 10 ^ d.exponent.toNat

/-- The denominator of a decimal as a quotient, a power of ten. -/
def denominator (d : Decimal) : Nat := 10 ^ (-d.exponent).toNat

theorem denominator_pos (d : Decimal) : 0 < d.denominator := Nat.pow_pos (by decide)

/-- **The magnitude of a decimal.** The code nearest to its exact value; zero for a decimal below
`10 ^ (-1099)` and infinity for one of at least `10 ^ 310`. -/
def code (d : Decimal) : Nat :=
  if d.digits = 0 ∨ d.exponent < -(1100 + (d.digits.log2 : Int)) then 0
  else if 310 ≤ d.exponent then infinityCode
  else nearestCode d.numerator d.denominator

/-- A decimal without digits is zero. -/
theorem code_of_digits_eq_zero {d : Decimal} (h : d.digits = 0) : d.code = 0 := by simp [code, h]

@[simp] theorem code_zero (e : Int) : (⟨0, e⟩ : Decimal).code = 0 := code_of_digits_eq_zero rfl

/-- All digits of a finite magnitude: half a decimal place is five of the next. -/
def exact (c : Nat) : Decimal := ⟨units c * 5 ^ unitPlaces, -unitPlaces⟩

/-- Only the code zero has no units. -/
theorem eq_zero_of_units_eq_zero {c : Nat} (h : units c = 0) : c = 0 := by
  unfold units at h
  split at h
  · exact h
  · obtain hsignificand | hpower := Nat.mul_eq_zero.1 h
    · omega
    · exact absurd hpower (Nat.ne_of_gt (Nat.two_pow_pos _))

/-- **The exact digits read back.** -/
theorem code_exact {c : Nat} (hc : c < infinityCode) : (exact c).code = c := by
  by_cases h0 : units c = 0
  · have hzero (n : Nat) : units c * n = 0 := by rw [h0, Nat.zero_mul]
    rw [code_of_digits_eq_zero (hzero _), eq_zero_of_units_eq_zero h0]
  · have hpos (k : Nat) : units c * 5 ^ k ≠ 0 :=
      Nat.mul_ne_zero h0 (Nat.ne_of_gt (Nat.pow_pos (by decide)))
    have hlow (n : Nat) : ¬ (-unitPlaces : Int) < -(1100 + (n : Int)) := by
      simp only [unitPlaces]
      omega
    have hhigh : ¬ (310 : Int) ≤ -unitPlaces := by decide
    rw [code, exact, if_neg (not_or.2 ⟨hpos _, hlow _⟩), if_neg hhigh]
    refine nearestCode_of_eq_units (denominator_pos _) hc ?_
    simp only [numerator, denominator, Int.toNat_neg_natCast, Int.neg_neg, Int.toNat_natCast,
      Nat.pow_zero, Nat.mul_one, Nat.mul_assoc, ← Nat.mul_pow]

end Decimal

end FormalCalculus.Numeral
