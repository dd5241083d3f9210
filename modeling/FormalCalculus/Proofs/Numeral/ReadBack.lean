import FormalCalculus.Numeral.Printer
import FormalCalculus.Numeral.Reader
import FormalCalculus.Proofs.Numeral.Bits

/-!
# Finite numbers read back

Printing chooses the digits of a magnitude and lays them out; reading collects digits and rounds.
That the chosen digits denote the magnitude is part of their choice (`code_shortest`), so what is
left is the layout: a decimal written positionally is read as a decimal of the same value.

* `decimal?_positional` — positional notation is read as `positionalReading`: the decimal itself,
  or, where zeros had to be written out behind the digits, the whole number that they spell;
* `code_positionalReading` — both denote the same magnitude;
* `read?_render` — **a finite number in print is read as that number**, down to the sign of zero;
* `isNumeralChar_of_mem_render`, `render_ne_nil` — it is printed as digits, point and sign.
-/

namespace FormalCalculus.Numeral

/-! ### Reading digits -/

/-- A run of digits and nothing else is a decimal without places. -/
theorem decimal?_digits {ds : List Char} (hne : ds ≠ []) (hds : ∀ c ∈ ds, c.isDigit = true) :
    decimal? ds = some ⟨Nat.ofDigitChars 10 ds 0, 0⟩ := by
  have htake : ds.takeWhile Char.isDigit = ds := List.takeWhile_eq_self_iff.2 hds
  have hdrop : ds.dropWhile Char.isDigit = [] := List.dropWhile_eq_nil_iff.2 hds
  simp [decimal?, htake, hdrop, splitFraction, exponent?, hne]

/-- A point leaves the digits behind it as places. -/
theorem decimal?_point {whole fraction : List Char} (hne : whole ≠ [])
    (hwhole : ∀ c ∈ whole, c.isDigit = true) (hfraction : ∀ c ∈ fraction, c.isDigit = true) :
    decimal? (whole ++ '.' :: fraction)
      = some ⟨Nat.ofDigitChars 10 (whole ++ fraction) 0, -fraction.length⟩ := by
  -- the point ends the run of digits in front of it
  have hpoint : Char.isDigit '.' = false := by decide
  have htake : (whole ++ '.' :: fraction).takeWhile Char.isDigit = whole := by
    rw [List.takeWhile_append_of_pos hwhole, List.takeWhile_cons_of_neg (by simp [hpoint]),
      List.append_nil]
  have hdrop : (whole ++ '.' :: fraction).dropWhile Char.isDigit = '.' :: fraction := by
    rw [List.dropWhile_append_of_pos hwhole, List.dropWhile_cons_of_neg (by simp [hpoint])]
  have htake' : fraction.takeWhile Char.isDigit = fraction := List.takeWhile_eq_self_iff.2 hfraction
  have hdrop' : fraction.dropWhile Char.isDigit = [] := List.dropWhile_eq_nil_iff.2 hfraction
  simp [decimal?, htake, hdrop, splitFraction, htake', hdrop', exponent?, hne]

/-- A point put into a run of digits leaves as many places as digits behind it. -/
theorem decimal?_split {ds : List Char} {places : Nat} (hlen : places < ds.length)
    (hds : ∀ c ∈ ds, c.isDigit = true) :
    decimal? (ds.take (ds.length - places) ++ '.' :: ds.drop (ds.length - places))
      = some ⟨Nat.ofDigitChars 10 ds 0, -places⟩ := by
  have hne : ds.take (ds.length - places) ≠ [] := by
    intro h
    have := congrArg List.length h
    rw [List.length_take, List.length_nil] at this
    omega
  have hplaces : (ds.drop (ds.length - places)).length = places := by
    rw [List.length_drop]
    omega
  rw [decimal?_point hne (fun c hc => hds c (List.mem_of_mem_take hc))
    (fun c hc => hds c (List.mem_of_mem_drop hc)), List.take_append_drop, hplaces]

/-! ### Positional notation -/

/-! The digits of a natural number, and the zeros that are put around them, are digits. -/

theorem isDigit_of_mem_replicate_zero {k : Nat} {c : Char} (h : c ∈ List.replicate k '0') :
    c.isDigit = true := by
  rw [List.eq_of_mem_replicate h]
  decide

theorem isDigit_of_mem_toDigits {n : Nat} {c : Char} (h : c ∈ Nat.toDigits 10 n) :
    c.isDigit = true :=
  Nat.isDigit_of_mem_toDigits (by decide) (by decide) h

/-- What positional notation is read as: the decimal itself, or, if its exponent is not negative,
the digits with the zeros written out. -/
def positionalReading (d : Decimal) : Decimal :=
  if 0 ≤ d.exponent then ⟨d.digits * 10 ^ d.exponent.toNat, 0⟩ else d

/-- **Positional notation is read** as it is meant. -/
theorem decimal?_positional (d : Decimal) :
    decimal? (positional d) = some (positionalReading d) := by
  unfold positional positionalReading
  dsimp only
  split
  · -- zeros behind the digits multiply by a power of ten
    rename_i hexp
    rw [decimal?_digits (by simp [Nat.toDigits_ne_nil]), Nat.ofDigitChars_append,
      Nat.ofDigitChars_replicate_zero, Nat.ofDigitChars_ten_toDigits, Nat.mul_comm]
    intro c hc
    obtain hc | hc := List.mem_append.1 hc
    · exact isDigit_of_mem_toDigits hc
    · exact isDigit_of_mem_replicate_zero hc
  · -- zeros in front of the digits only fill up the places
    rename_i hexp
    rw [decimal?_split, Nat.ofDigitChars_append, Nat.ofDigitChars_replicate_zero, Nat.mul_zero,
      Nat.ofDigitChars_ten_toDigits]
    · have : (-((-d.exponent).toNat : Int)) = d.exponent := by omega
      rw [this]
    · rw [List.length_append, List.length_replicate]
      have := @Nat.length_toDigits_pos 10 d.digits
      omega
    · intro c hc
      obtain hc | hc := List.mem_append.1 hc
      · exact isDigit_of_mem_replicate_zero hc
      · exact isDigit_of_mem_toDigits hc

/-- A decimal with whole digits only, within range, has the code nearest to that whole number. -/
theorem code_eq_nearestCode {d : Decimal} (hzero : d.digits ≠ 0) (hexp : 0 ≤ d.exponent)
    (hhigh : d.exponent < 310) : d.code = nearestCode (d.digits * 10 ^ d.exponent.toNat) 1 := by
  have hlow : ¬ (d.digits = 0 ∨ d.exponent < -(1100 + (d.digits.log2 : Int))) := by omega
  have hneg : (-d.exponent).toNat = 0 := by omega
  rw [Decimal.code, if_neg hlow, if_neg (by omega), Decimal.numerator, Decimal.denominator, hneg,
    Nat.pow_zero]

/-- Writing the zeros of a decimal out does not change the magnitude it denotes, unless it is too
large for one. -/
theorem code_positionalReading {d : Decimal} (hd : d.code < infinityCode) :
    (positionalReading d).code = d.code := by
  unfold positionalReading
  split
  · rename_i hexp
    by_cases hzero : d.digits = 0
    · rw [Decimal.code_of_digits_eq_zero hzero, Decimal.code_of_digits_eq_zero]
      simp [hzero]
    · have hpos : d.digits * 10 ^ d.exponent.toNat ≠ 0 :=
        Nat.mul_ne_zero hzero (Nat.ne_of_gt (Nat.pow_pos (by decide)))
      -- a larger exponent would make the code that of infinity
      have hhigh : d.exponent < 310 := by
        by_contra h
        have hlow : ¬ (d.digits = 0 ∨ d.exponent < -(1100 + (d.digits.log2 : Int))) := by omega
        rw [Decimal.code, if_neg hlow, if_pos (by omega)] at hd
        omega
      rw [code_eq_nearestCode hpos (Int.le_refl 0) (Int.ofNat_lt.2 (by decide)), Int.toNat_zero,
        Nat.pow_zero, Nat.mul_one, code_eq_nearestCode hzero hexp hhigh]
  · rfl

/-! ### Magnitudes -/

/-- The text of a finite magnitude is read as that magnitude. -/
theorem decimal?_magnitudeText {c : Nat} (hc : c < infinityCode) :
    (decimal? (magnitudeText c)).map Decimal.code = some c := by
  have hcode := code_shortest hc
  rw [magnitudeText, if_pos hc, decimal?_positional, Option.map_some,
    code_positionalReading (by rw [hcode]; exact hc), hcode]

/-- A decimal has no sign. -/
theorem splitSign_of_decimal? {cs : List Char} {d : Decimal} (h : decimal? cs = some d) :
    splitSign cs = (false, cs) := by
  unfold splitSign
  split
  · cases h
  · cases h
  · rfl

/-- **Finite numbers read back.** -/
theorem read?_render {x : Float} (hx : x.isFinite = true) : read? (render x) = some x := by
  have hcode := (isFinite_iff x).1 hx
  have hnan : ¬ infinityCode < code x := by omega
  have hread := decimal?_magnitudeText hcode
  have hvalue := ofCode_code x
  rw [render, if_neg hnan]
  split
  · rename_i hneg
    rw [hneg] at hvalue
    simp [read?, splitSign, hread, hvalue]
  · -- without a sign in front, the text begins as a decimal does
    rename_i hneg
    obtain ⟨d, hd, -⟩ := Option.map_eq_some_iff.1 hread
    rw [Bool.not_eq_true] at hneg
    rw [hneg] at hvalue
    simp [read?, splitSign_of_decimal? hd, hread, hvalue]

/-! ### The characters of a numeral -/

/-- The characters that finite numbers are written with. -/
def isNumeralChar (c : Char) : Bool := c.isDigit || c == '.' || c == '-'

theorem isNumeralChar_of_isDigit {c : Char} (h : c.isDigit = true) : isNumeralChar c = true := by
  simp [isNumeralChar, h]

theorem isNumeralChar_of_mem_positional {d : Decimal} {c : Char} (h : c ∈ positional d) :
    isNumeralChar c = true := by
  unfold positional at h
  dsimp only at h
  split at h
  · obtain h | h := List.mem_append.1 h
    · exact isNumeralChar_of_isDigit (isDigit_of_mem_toDigits h)
    · exact isNumeralChar_of_isDigit (isDigit_of_mem_replicate_zero h)
  · have hpadded {k : Nat} (h : c ∈ List.replicate k '0' ++ Nat.toDigits 10 d.digits) :
        isNumeralChar c = true := by
      obtain h | h := List.mem_append.1 h
      · exact isNumeralChar_of_isDigit (isDigit_of_mem_replicate_zero h)
      · exact isNumeralChar_of_isDigit (isDigit_of_mem_toDigits h)
    obtain h | h := List.mem_append.1 h
    · exact hpadded (List.mem_of_mem_take h)
    · obtain rfl | h := List.mem_cons.1 h
      · rfl
      · exact hpadded (List.mem_of_mem_drop h)

/-- A finite number is written with digits, a point and a sign. -/
theorem isNumeralChar_of_mem_render {x : Float} (hx : x.isFinite = true) {c : Char}
    (h : c ∈ render x) : isNumeralChar c = true := by
  have hcode := (isFinite_iff x).1 hx
  have hnan : ¬ infinityCode < code x := by omega
  rw [render, if_neg hnan, magnitudeText, if_pos hcode] at h
  split at h
  · obtain rfl | h := List.mem_cons.1 h
    · rfl
    · exact isNumeralChar_of_mem_positional h
  · exact isNumeralChar_of_mem_positional h

/-- Something is written for every finite number. -/
theorem render_ne_nil {x : Float} (hx : x.isFinite = true) : render x ≠ [] := by
  intro h
  have hread := read?_render hx
  rw [h] at hread
  cases hread

end FormalCalculus.Numeral
