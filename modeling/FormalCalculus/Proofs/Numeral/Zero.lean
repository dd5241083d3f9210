import FormalCalculus.Proofs.Numeral.Bits

/-!
# The sign of a zero

Floats that compare equal are the same float, or they are two zeros. So how much arithmetic can tell
them apart is a question about zeros, and it is looked at where floats are unpacked: two unpacked
floats are `Alike` if they are the same or both are zeros. Sums, differences and products of floats
that are alike are alike again, and so are quotients, as long as only the numerator is a zero.

For the floats themselves this says that the results `Agree`: both are finite or none is, and if
they are, they compare equal.

* `Alike.add`, `Alike.sub`, `Alike.mul`, `Alike.div` — the operations on unpacked floats, from what a
  zero on either side can do (`Alike.map₂`); a difference is a sum (`sub_eq_add_neg`);
* `agree_add`, `agree_sub`, `agree_mul`, `agree_div` — the operations on floats.
-/

namespace FormalCalculus.Numeral

open Float.Model (Format UnpackedFloat)
open Float.Model.UnpackedFloat (Sign)

/-- **Results that agree**: both are finite or none is, and finite ones compare equal. -/
structure Agree (z z' : Float) : Prop where
  isFinite_eq : z.isFinite = z'.isFinite
  beq_of_isFinite : z.isFinite = true → (z == z') = true

/-! ### Unpacked floats -/

/-- Subtracting is adding with the sign changed, also for infinities and zeros. -/
theorem sub_eq_add_neg (format : Format) (u v : UnpackedFloat) :
    UnpackedFloat.sub format u v = UnpackedFloat.add format u v.neg := by
  cases u with
  | notANumber => rfl
  | infinity s | zero s => cases v <;> rfl
  | finite s m e hm =>
    cases v with
    | notANumber | infinity t | zero t => rfl
    | finite t m' e' hm' =>
      have happly (n : Nat) : (-t).apply n = -t.apply n := by cases t <;> simp [Sign.apply]
      simp only [UnpackedFloat.sub, UnpackedFloat.add, UnpackedFloat.neg, happly,
        Int.sub_eq_add_neg]

/-- **Unpacked floats that are alike** are the same, or they are zeros of any sign. -/
inductive Alike : UnpackedFloat → UnpackedFloat → Prop
  | same (u : UnpackedFloat) : Alike u u
  | zeros (s t : Sign) : Alike (.zero s) (.zero t)

namespace Alike

theorem trans {u v w : UnpackedFloat} (h : Alike u v) (h' : Alike v w) : Alike u w := by
  cases h with
  | same u => exact h'
  | zeros s t =>
    cases h' with
    | same u => exact .zeros s t
    | zeros t r => exact .zeros s r

/-- An operation for which the sign of a zero makes no difference, on either side, takes floats that
are alike to floats that are alike. -/
theorem map₂ {f : UnpackedFloat → UnpackedFloat → UnpackedFloat}
    (hleft : ∀ s t v, Alike (f (.zero s) v) (f (.zero t) v))
    (hright : ∀ u s t, Alike (f u (.zero s)) (f u (.zero t))) {u u' v v' : UnpackedFloat}
    (hu : Alike u u') (hv : Alike v v') : Alike (f u v) (f u' v') := by
  have hfirst : Alike (f u v) (f u' v) := by
    cases hu with
    | same u => exact .same _
    | zeros s t => exact hleft s t v
  have hsecond : Alike (f u' v) (f u' v') := by
    cases hv with
    | same v => exact .same _
    | zeros s t => exact hright u' s t
  exact hfirst.trans hsecond

section

variable {format : Format} {u u' v v' : UnpackedFloat}

theorem add (hu : Alike u u') (hv : Alike v v') :
    Alike (UnpackedFloat.add format u v) (UnpackedFloat.add format u' v') := by
  -- a zero changes nothing in a sum, unless both terms are zeros, and then the sum is one too
  refine map₂ ?left ?right hu hv
  case left =>
    intro s t v
    cases v with
    | infinity r | notANumber | finite r m e hm => exact .same _
    | zero r => cases s <;> cases t <;> cases r <;> exact .zeros _ _
  case right =>
    intro u s t
    cases u with
    | infinity r | notANumber | finite r m e hm => exact .same _
    | zero r => cases s <;> cases t <;> cases r <;> exact .zeros _ _

theorem neg (hv : Alike v v') : Alike v.neg v'.neg := by
  cases hv with
  | same v => exact .same _
  | zeros s t => exact .zeros _ _

theorem sub (hu : Alike u u') (hv : Alike v v') :
    Alike (UnpackedFloat.sub format u v) (UnpackedFloat.sub format u' v') := by
  rw [sub_eq_add_neg, sub_eq_add_neg]
  exact hu.add hv.neg

theorem mul (hu : Alike u u') (hv : Alike v v') :
    Alike (UnpackedFloat.mul format u v) (UnpackedFloat.mul format u' v') := by
  -- a product with a zero is a zero, unless the other factor is infinite or no number
  refine map₂ ?left ?right hu hv
  case left =>
    intro s t v
    cases v with
    | infinity r | notANumber => exact .same _
    | zero r | finite r m e hm => exact .zeros _ _
  case right =>
    intro u s t
    cases u with
    | infinity r | notANumber => exact .same _
    | zero r | finite r m e hm => exact .zeros _ _

/-- The denominator has to be the same. A number divided by the two zeros is infinite, with either
sign. -/
theorem div (hu : Alike u u') (v : UnpackedFloat) :
    Alike (UnpackedFloat.div format u v) (UnpackedFloat.div format u' v) := by
  cases hu with
  | same u => exact .same _
  | zeros s t =>
    cases v with
    | notANumber | zero r => exact .same _
    | infinity r | finite r m e hm => exact .zeros _ _

end

/-- Packing unpacked floats that are alike gives results that agree. -/
theorem agree {u v : UnpackedFloat} (h : Alike u v) :
    Agree (.ofModel (.pack u)) (.ofModel (.pack v)) := by
  cases h with
  | same u => exact ⟨rfl, beq_self_of_isFinite⟩
  | zeros s t => cases s <;> cases t <;> exact ⟨rfl, fun _ => rfl⟩

end Alike

/-! ### Floats that compare equal -/

/-- **Floats that compare equal are alike.** -/
theorem alike_of_beq {x y : Float} (h : (x == y) = true) :
    Alike x.toModel.unpack y.toModel.unpack := by
  obtain ⟨-, -, rfl | ⟨rfl, rfl⟩ | ⟨rfl, rfl⟩⟩ := Float.beq_iff_ne_nan_and_eq.1 h
  · exact .same _
  · exact .zeros .positive .negative
  · exact .zeros .negative .positive

section

variable {x x' y y' : Float}

theorem agree_add (hx : (x == x') = true) (hy : (y == y') = true) : Agree (x + y) (x' + y') :=
  ((alike_of_beq hx).add (alike_of_beq hy)).agree

theorem agree_sub (hx : (x == x') = true) (hy : (y == y') = true) : Agree (x - y) (x' - y') :=
  ((alike_of_beq hx).sub (alike_of_beq hy)).agree

theorem agree_mul (hx : (x == x') = true) (hy : (y == y') = true) : Agree (x * y) (x' * y') :=
  ((alike_of_beq hx).mul (alike_of_beq hy)).agree

/-- Quotients agree if the denominator is not zero. -/
theorem agree_div (hx : (x == x') = true) (hy : (y == y') = true) (hzero : (y == 0) = false) :
    Agree (x / y) (x' / y') := by
  obtain rfl : y = y' := eq_of_beq hy hzero
  exact ((alike_of_beq hx).div _).agree

end

end FormalCalculus.Numeral
