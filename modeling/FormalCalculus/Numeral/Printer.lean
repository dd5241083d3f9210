import FormalCalculus.Numeral.Shortest

/-!
# Writing numerals

A float is written with the fewest digits that read back as it, and always positionally: large ones
end in zeros, small ones begin with `0.` and zeros, and there is no exponent and no trailing point.
Negative zero keeps its sign. The values that are not finite are written `inf`, `-inf` and `NaN`.
-/

namespace FormalCalculus.Numeral

/-- **Positional notation.** The digits of a decimal with zeros appended, or with a point that
leaves as many digits behind it as the exponent asks for and at least one in front. -/
def positional (d : Decimal) : List Char :=
  let ds := Nat.toDigits 10 d.digits
  if 0 ≤ d.exponent then ds ++ List.replicate d.exponent.toNat '0'
  else
    let places := (-d.exponent).toNat
    let padded := List.replicate (places + 1 - ds.length) '0' ++ ds
    padded.take (padded.length - places) ++ '.' :: padded.drop (padded.length - places)

/-- The text of a magnitude. -/
def magnitudeText (c : Nat) : List Char :=
  if c < infinityCode then positional (shortest c) else ['i', 'n', 'f']

/-- **The text of a float.** -/
def render (x : Float) : List Char :=
  if infinityCode < code x then ['N', 'a', 'N']
  else if isNegative x then '-' :: magnitudeText (code x)
  else magnitudeText (code x)

end FormalCalculus.Numeral
