import FormalCalculus.Numeral.Decimal

/-!
# The shortest decimal of a magnitude

Among the decimals that read back as a given magnitude, `shortest` takes one with the fewest digits,
and of those the one nearest to the exact value; of two equally near ones the larger.

The search walks the decimal grids `10 ^ x` downwards, starting one place above the leading digit,
where a magnitude just below a power of ten finds that power. On each grid only the two neighbours
of the exact value are candidates: if any point of a grid reads back, one of these two does. A
candidate is accepted by reading it, so that `code_shortest` holds by construction; the exact digits
close the search.
-/

namespace FormalCalculus.Numeral

/-- The neighbour, on the grid `10 ^ x`, of the magnitude with code `c` that reads back as `c`: the
nearer one if both do, the upper one in a tie. -/
def onGrid (c : Nat) (x : Int) : Option Decimal :=
  let num := units c * 10 ^ (-x).toNat
  let den := 2 ^ unitPlaces * 10 ^ x.toNat
  let below : Decimal := ⟨num / den, x⟩
  let above : Decimal := ⟨num / den + 1, x⟩
  if below.code = c then
    if above.code = c ∧ den ≤ 2 * (num % den) then some above else some below
  else if above.code = c then some above
  else none

/-- The position of the leading digit: the magnitude lies in `[10 ^ x, 10 ^ (x + 1))`. -/
def leadingPlace (c : Nat) : Int :=
  let whole := units c / 2 ^ unitPlaces
  if whole = 0 then -((Nat.toDigits 10 ((2 ^ unitPlaces - 1) / units c)).length : Int)
  else (Nat.toDigits 10 whole).length - 1

/-- **The shortest decimal.** One digit is tried first, then two, up to the seventeen that always
suffice. Zero has the single digit `0`. -/
def shortest (c : Nat) : Decimal :=
  if c = 0 then ⟨0, 0⟩
  else ((List.range 18).findSome? fun k : Nat => onGrid c (leadingPlace c + 1 - k)).getD (.exact c)

/-- What a grid offers reads back. -/
theorem code_of_onGrid {c : Nat} {x : Int} {d : Decimal} (h : onGrid c x = some d) :
    d.code = c := by
  simp only [onGrid] at h
  split at h
  · split at h
    · rename_i hb ha
      cases h
      exact ha.1
    · rename_i hb ha
      cases h
      exact hb
  · split at h
    · rename_i hb ha
      cases h
      exact ha
    · cases h

/-- **The shortest decimal reads back** as the magnitude it stands for. -/
theorem code_shortest {c : Nat} (hc : c < infinityCode) : (shortest c).code = c := by
  unfold shortest
  split
  · rename_i h0
    rw [h0, Decimal.code_zero]
  · cases h : (List.range 18).findSome? fun k : Nat => onGrid c (leadingPlace c + 1 - k) with
    | none => exact Decimal.code_exact hc
    | some d =>
      obtain ⟨k, -, hk⟩ := List.exists_of_findSome?_eq_some h
      exact code_of_onGrid hk

end FormalCalculus.Numeral
