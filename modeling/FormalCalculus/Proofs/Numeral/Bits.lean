import Mathlib
import FormalCalculus.Numeral.Magnitude

/-!
# Floats and their codes

A float is a 64-bit pattern in three fields: a sign, an exponent and a mantissa. The operations of
arithmetic do not look at the pattern, they look at what it is unpacked to: a signed zero, infinity,
or mantissa and exponent. Here the two views are tied together, in the terms of `code`, the pattern
without its sign:

* `isFinite_iff` — the finite floats are those whose code lies below that of infinity;
* `ofCode_code` — a float is determined by its sign and its code;
* `eq_of_beq` — floats that compare equal are the same float, unless they are zeros;
* `isFinite_of_beq`, `beq_self_of_isFinite` — one of them is finite if the other is, and a finite
  float does compare equal to itself.
-/

namespace FormalCalculus.Numeral

open Float.Model (Format)
open Float.Model.UnpackedFloat

/-- The exponent field stands above the low 52 bits. -/
theorem toNat_unpackExponent (b : BitVec Format.binary64.numBits) :
    (unpackExponent b).toNat = b.toNat / 2 ^ 52 % 2 ^ 11 := by
  simp [unpackExponent, Nat.shiftRight_eq_div_pow]

/-- The finite bit patterns are those whose exponent field is not full. -/
theorem isFinite_unpack (b : BitVec Format.binary64.numBits) :
    (unpack Format.binary64 b).isFinite = true ↔ (unpackExponent b).toNat ≠ 2047 := by
  fun_cases unpack Format.binary64 b with
  | case1 m e s sign hones hzero =>
    -- the field is full: infinity, and in the next case what is not a number
    have : (unpackExponent b).toNat = 2047 := by rw [show unpackExponent b = -1#11 from hones]; rfl
    simp [isFinite, this]
  | case2 m e hones hne =>
    have : (unpackExponent b).toNat = 2047 := by rw [show unpackExponent b = -1#11 from hones]; rfl
    simp [isFinite, this]
  | case3 m e s sign hones hsub hzero =>
    -- it is not full: a zero, a subnormal or a normal number
    simpa [isFinite] using fun h => hones (BitVec.eq_of_toNat_eq h)
  | case4 m e exponent s sign hones hsub hne =>
    simpa [isFinite] using fun h => hones (BitVec.eq_of_toNat_eq h)
  | case5 m e exponent s sign hones hsub =>
    simpa [isFinite] using fun h => hones (BitVec.eq_of_toNat_eq h)

/-- **The finite floats** are those whose code lies below that of infinity. -/
theorem isFinite_iff (x : Float) : x.isFinite = true ↔ code x < infinityCode := by
  have hlt : x.toBits.toNat < 2 ^ 64 := x.toBits.toBitVec.isLt
  have h := isFinite_unpack x.toBits.toBitVec
  rw [toNat_unpackExponent] at h
  have hbits : x.toBits.toBitVec.toNat = x.toBits.toNat := rfl
  rw [hbits] at h
  -- below the sign, the field is full from the code of infinity on
  refine Iff.trans h ?_
  unfold code infinityCode
  omega

/-- **A float is its sign and its code.** -/
theorem ofCode_code (x : Float) : ofCode (isNegative x) (code x) = x := by
  have hlt : x.toBits.toNat < 2 ^ 64 := x.toBits.toBitVec.isLt
  have hsplit : (if isNegative x then 2 ^ 63 else 0) + code x = x.toBits.toNat := by
    by_cases h : 2 ^ 63 ≤ x.toBits.toNat
    · simp only [isNegative, h, decide_true, if_true, code]
      omega
    · simp only [isNegative, h, decide_false, Bool.false_eq_true, if_false, code]
      omega
  rw [ofCode, hsplit, UInt64.ofNat_toNat, Float.ofBits_toBits]

/-- **Floats that compare equal are the same**, unless they are zeros. -/
theorem eq_of_beq {x y : Float} (h : (x == y) = true) (hx : (x == 0) = false) : x = y := by
  obtain ⟨-, -, heq | ⟨rfl, -⟩ | ⟨rfl, -⟩⟩ := Float.beq_iff_ne_nan_and_eq.1 h
  · exact heq
  -- otherwise a zero is compared with the other zero
  · exact absurd hx (by decide)
  · exact absurd hx (by decide)

/-- Only the two zeros compare equal to zero. -/
theorem eq_zero_of_beq_zero {x : Float} (h : (x == 0) = true) : x = 0 ∨ x = -0 := by
  obtain ⟨-, -, rfl | ⟨rfl, -⟩ | ⟨rfl, -⟩⟩ := Float.beq_iff_ne_nan_and_eq.1 h
  · exact Or.inl rfl
  · exact Or.inl rfl
  · exact Or.inr rfl

/-- What compares equal to a finite float is finite. -/
theorem isFinite_of_beq {x y : Float} (h : (x == y) = true) (hx : x.isFinite = true) :
    y.isFinite = true := by
  obtain ⟨-, -, rfl | ⟨-, rfl⟩ | ⟨-, rfl⟩⟩ := Float.beq_iff_ne_nan_and_eq.1 h
  · exact hx
  · decide +kernel
  · decide +kernel

/-- A finite float compares equal to itself. -/
theorem beq_self_of_isFinite {x : Float} (hx : x.isFinite = true) : (x == x) = true := by
  have hnan : x ≠ Float.nan := by
    rintro rfl
    exact absurd hx (by decide +kernel)
  exact Float.beq_iff_ne_nan_and_eq.2 ⟨hnan, hnan, Or.inl rfl⟩

end FormalCalculus.Numeral
