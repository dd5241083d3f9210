/-!
# Magnitudes of binary floating-point numbers

A finite `Float` is, up to its sign, a whole number of **units** of `2 ^ (-1074)`, the smallest
positive one. The low 63 bits of its bit pattern, read as a natural number, are its **code**: codes
are ordered as the magnitudes are, `0` is zero and `infinityCode` is infinity. Everything here is
therefore exact arithmetic on `Nat`:

* `units` — the number of units that a finite code stands for;
* `nearestCode` — the code nearest to a quotient, a half going to the even code;
* `nearestCode_of_eq_units` — a quotient that *is* a number of units is not moved by rounding.

The last statement is what makes reading back possible: a decimal that denotes a magnitude exactly
is read as that magnitude.
-/

namespace FormalCalculus.Numeral

/-- In this namespace, powers of natural numbers are those of the core library, also where those of
a monoid are in scope. An exponent that is a numeral is marked as a natural number, so that its
power is one of these. -/
scoped instance (priority := 2000) natPow : Pow Nat Nat := instPowNat

/-- A unit is `2 ^ (-unitPlaces)`; written in full it has this many decimal places. -/
def unitPlaces : Nat := 1074

/-! ### Codes -/

/-- The code of infinity, just above the codes of all finite magnitudes. -/
def infinityCode : Nat := 2047 * 2 ^ (52 : Nat)

/-- A code of "not a number"; every code above `infinityCode` is one. -/
def nanCode : Nat := infinityCode + 2 ^ (51 : Nat)

/-- The code of a float: its bit pattern without the sign. -/
def code (x : Float) : Nat := x.toBits.toNat % 2 ^ (63 : Nat)

/-- Whether the sign bit of a float is set; also true of negative zero. -/
def isNegative (x : Float) : Bool := decide (2 ^ (63 : Nat) ≤ x.toBits.toNat)

/-- The float with a given sign and code. -/
def ofCode (negative : Bool) (code : Nat) : Float :=
  Float.ofBits (UInt64.ofNat ((if negative then 2 ^ (63 : Nat) else 0) + code))

/-- **The units of a code.** Codes below `2 ^ 52` count units; above, the low 52 bits are the
fraction of a significand whose leading bit is implied, scaled by the exponent field. -/
def units (code : Nat) : Nat :=
  if code < 2 ^ (52 : Nat) then code
  else (2 ^ (52 : Nat) + code % 2 ^ (52 : Nat)) * 2 ^ (code / 2 ^ (52 : Nat) - 1)

/-! ### Rounding -/

/-- A quotient rounded to the nearest natural number, a half going to the even one. -/
def roundDiv (num den : Nat) : Nat :=
  let below := num / den
  let rest := 2 * (num % den)
  if rest < den then below
  else if den < rest then below + 1
  else below + below % 2

/-- **The nearest magnitude.** The code nearest to `num / den`, a half going to the even code. A
quotient is written in units, cut to 53 significant bits, and rounded there; a carry out of the
significand runs into the exponent field, which is the right result. Too large quotients have the
code of infinity. -/
def nearestCode (num den : Nat) : Nat :=
  let scaled := num * 2 ^ unitPlaces
  let shift := (scaled / den).log2 - 52
  min infinityCode (shift * 2 ^ (52 : Nat) + roundDiv scaled (den * 2 ^ shift))

/-- Rounding leaves an exact multiple alone. -/
theorem roundDiv_mul {m den : Nat} (h : 0 < den) : roundDiv (m * den) den = m := by
  simp [roundDiv, Nat.mul_div_cancel _ h, h]

/-- The length of a significand with an implied leading bit, shifted by `k` places. -/
theorem log2_significand {m : Nat} (hm : m < 2 ^ (52 : Nat)) (k : Nat) :
    ((2 ^ (52 : Nat) + m) * 2 ^ k).log2 = 52 + k := by
  have hne : (2 ^ (52 : Nat) + m) * 2 ^ k ≠ 0 :=
    Nat.mul_ne_zero (by omega) (Nat.ne_of_gt (Nat.two_pow_pos k))
  refine (Nat.log2_eq_iff hne).2 ⟨?_, ?_⟩
  · rw [Nat.pow_add]
    exact Nat.mul_le_mul_right _ (Nat.le_add_right _ _)
  · rw [show 52 + k + 1 = 53 + k by omega, Nat.pow_add]
    exact Nat.mul_lt_mul_of_pos_right (by omega) (Nat.two_pow_pos k)

/-- The number of bits that a finite code's units have beyond a significand. -/
theorem log2_units {c : Nat} : (units c).log2 - 52 = c / 2 ^ (52 : Nat) - 1 := by
  unfold units
  split
  · rename_i hlt
    by_cases h0 : c = 0
    · subst h0; simp
    · have hlog : c.log2 < 52 := (Nat.log2_lt h0).2 hlt
      omega
  · rw [log2_significand (Nat.mod_lt _ (by decide)), Nat.add_sub_cancel_left]

/-- A code is its units, cut to a significand, on top of its exponent field. -/
theorem units_eq_mul (c : Nat) :
    units c = (c - (c / 2 ^ (52 : Nat) - 1) * 2 ^ (52 : Nat)) * 2 ^ (c / 2 ^ (52 : Nat) - 1) := by
  unfold units
  split
  · rename_i hlt
    rw [Nat.div_eq_of_lt hlt]
    simp
  · congr 1
    omega

/-- **Rounding keeps what is exact.** A quotient equal to a finite number of units has the code of
those units. -/
theorem nearestCode_of_eq_units {num den c : Nat} (hden : 0 < den) (hc : c < infinityCode)
    (h : num * 2 ^ unitPlaces = units c * den) : nearestCode num den = c := by
  have hshift : (num * 2 ^ unitPlaces / den).log2 - 52 = c / 2 ^ (52 : Nat) - 1 := by
    rw [h, Nat.mul_div_cancel _ hden, log2_units]
  have hround : roundDiv (num * 2 ^ unitPlaces) (den * 2 ^ (c / 2 ^ (52 : Nat) - 1))
      = c - (c / 2 ^ (52 : Nat) - 1) * 2 ^ (52 : Nat) := by
    rw [h, units_eq_mul, Nat.mul_assoc, Nat.mul_comm (2 ^ _) den]
    exact roundDiv_mul (Nat.mul_pos hden (Nat.two_pow_pos _))
  simp only [nearestCode, hshift, hround]
  omega

end FormalCalculus.Numeral
