import FormalCalculus.Proofs.Expr.Subterm
import FormalCalculus.Simplify.Rules

/-!
# What the rules can do

`Rules.Fires arith op a b r` lists, rule by rule, every rewrite `r` that the rules of `op` can offer
on the operands `a` and `b`, with what is known when they do. The rules of an operator are tried in
order, so a rule that comes later also knows that the earlier ones declined; of this the relation
keeps what the later statements need: a square is only offered where the product does not fold, and
the product with `-1` only stands where no rule for products takes it.

* `Rules.fires_of_ofOp`, `Rules.apply_some` — nothing else is offered;
* `Rules.apply_error` — the rules fail on a quotient with the denominator zero, and only there.

Whatever the rules preserve is shown by cases on `Rules.Fires`, or from the few expressions that
they put in (`Rules.Fires.preserves`); the functions themselves are not opened again.
-/

namespace FormalCalculus

namespace Rules

variable {arith : Arithmetic}

/-- **What a rule can do**: the rewrites that the rules of an operator offer on two operands. -/
inductive Fires (arith : Arithmetic) : Op → Expr → Expr → Rewrite → Prop
  | addZeroLeft {a b : Expr} (ha : a.isZero = true) : Fires arith .add a b (.single .addZero b)
  | addZeroRight {a b : Expr} (hb : b.isZero = true) : Fires arith .add a b (.single .addZero a)
  /-- The product with `-1` stands as it is. -/
  | subtractFromZero {a b : Expr} (ha : a.isZero = true)
      (hproduct : multiply arith (.number (-1)) b = none) :
      Fires arith .sub a b (.single .subtractFromZero (.binary .mul (.number (-1)) b))
  /-- The product with `-1` is rewritten in turn. -/
  | subtractFromZeroProduct {a b : Expr} {r : Rewrite} (ha : a.isZero = true)
      (hproduct : Fires arith .mul (.number (-1)) b r) :
      Fires arith .sub a b ⟨r.result, .subtractFromZero :: r.steps⟩
  | subtractZero {a b : Expr} (hb : b.isZero = true) :
      Fires arith .sub a b (.single .subtractZero a)
  | multiplyZero {a b : Expr} (h : a.isZero = true ∨ b.isZero = true) :
      Fires arith .mul a b (.single .multiplyZero (.number 0))
  | multiplyOneLeft {a b : Expr} (ha : a.isOne = true) :
      Fires arith .mul a b (.single .multiplyOne b)
  | multiplyOneRight {a b : Expr} (hb : b.isOne = true) :
      Fires arith .mul a b (.single .multiplyOne a)
  | squareEqualFactors {a b : Expr} (ha : a.isZero = false) (heq : a.equal b = true)
      (hfold : Rules.foldConstants arith .mul a b = none) :
      Fires arith .mul a b (.single .squareEqualFactors (.binary .pow a (.number 2)))
  | divideOne {a b : Expr} (hb : b.isOne = true) : Fires arith .div a b (.single .divideOne a)
  | divideEqual {a b : Expr} (hb : b.isZero = false) (heq : a.equal b = true) :
      Fires arith .div a b (.single .divideEqual (.number 1))
  | powerZero {a b : Expr} (hb : b.isZero = true) :
      Fires arith .pow a b (.single .powerZero (.number 1))
  | powerOne {a b : Expr} (hb : b.isOne = true) : Fires arith .pow a b (.single .powerOne a)
  | foldConstants {op : Op} {x y z : Float} (hfold : arith.fold? op x y = some z) :
      Fires arith op (.number x) (.number y) (.single (.foldConstants op) (.number z))

/-- **What every rule preserves**: a property of the operands that all finite numbers have, and that
products with `-1` and squares take over from what they are made of. -/
theorem Fires.preserves {P : Expr → Prop} {op : Op} {a b : Expr} {r : Rewrite}
    (h : Fires arith op a b r) (hnumber : ∀ x : Float, x.isFinite = true → P (.number x))
    (hproduct : ∀ b, P b → P (.binary .mul (.number (-1)) b))
    (hsquare : ∀ a, P a → P (.binary .pow a (.number 2))) (ha : P a) (hb : P b) : P r.result := by
  induction h with
  | addZeroLeft | multiplyOneLeft => exact hb
  | addZeroRight | subtractZero | multiplyOneRight | divideOne | powerOne => exact ha
  | subtractFromZero => exact hproduct _ hb
  | subtractFromZeroProduct _ _ ih => exact ih (hnumber _ (by decide +kernel)) hb
  | squareEqualFactors => exact hsquare _ ha
  | multiplyZero | divideEqual | powerZero => exact hnumber _ (by decide +kernel)
  -- a value is only put in if it is finite
  | foldConstants hfold => exact hnumber _ (Option.filter_eq_some_iff.1 hfold).2

/-! ### One operator at a time -/

section

variable {a b : Expr} {r : Rewrite} {op : Op}

theorem fires_of_foldConstants (h : foldConstants arith op a b = some r) :
    Fires arith op a b r := by
  unfold foldConstants at h
  split at h
  · obtain ⟨z, hz, rfl⟩ := Option.map_eq_some_iff.1 h
    exact .foldConstants hz
  · cases h

theorem fires_of_multiply (h : multiply arith a b = some r) : Fires arith .mul a b r := by
  obtain h | ⟨hzero, h⟩ := Option.or_eq_some_iff.1 h
  · obtain ⟨hor, ⟨⟩⟩ := Option.ite_none_right_eq_some.1 h
    exact .multiplyZero (by simpa using hor)
  obtain h | ⟨-, h⟩ := Option.or_eq_some_iff.1 h
  · unfold multiplyOne at h
    split at h
    · rename_i ha
      obtain rfl := Option.some.inj h
      exact .multiplyOneLeft ha
    · obtain ⟨hb, ⟨⟩⟩ := Option.ite_none_right_eq_some.1 h
      exact .multiplyOneRight hb
  obtain h | ⟨hfold, h⟩ := Option.or_eq_some_iff.1 h
  · exact fires_of_foldConstants h
  · obtain ⟨heq, ⟨⟩⟩ := Option.ite_none_right_eq_some.1 h
    -- the rule for zero factors comes first, so neither factor is zero here
    have ha : a.isZero = false := by
      cases ha : a.isZero with
      | false => rfl
      | true => simp [multiplyZero, ha] at hzero
    exact .squareEqualFactors ha heq hfold

theorem fires_of_add (h : add arith a b = some r) : Fires arith .add a b r := by
  obtain h | ⟨-, h⟩ := Option.or_eq_some_iff.1 h
  · unfold addZero at h
    split at h
    · rename_i ha
      obtain rfl := Option.some.inj h
      exact .addZeroLeft ha
    · obtain ⟨hb, ⟨⟩⟩ := Option.ite_none_right_eq_some.1 h
      exact .addZeroRight hb
  · exact fires_of_foldConstants h

theorem fires_of_subtractFromZero (h : subtractFromZero arith a b = some r) :
    Fires arith .sub a b r := by
  obtain ⟨ha, h⟩ := Option.ite_none_right_eq_some.1 h
  dsimp only at h
  cases hproduct : multiply arith (.number (-1)) b with
  | none =>
    rw [hproduct] at h
    obtain rfl := Option.some.inj h
    exact .subtractFromZero ha hproduct
  | some product =>
    rw [hproduct] at h
    obtain rfl := Option.some.inj h
    exact .subtractFromZeroProduct ha (fires_of_multiply hproduct)

theorem fires_of_subtract (h : subtract arith a b = some r) : Fires arith .sub a b r := by
  obtain h | ⟨-, h⟩ := Option.or_eq_some_iff.1 h
  · exact fires_of_subtractFromZero h
  obtain h | ⟨-, h⟩ := Option.or_eq_some_iff.1 h
  · obtain ⟨hb, ⟨⟩⟩ := Option.ite_none_right_eq_some.1 h
    exact .subtractZero hb
  · exact fires_of_foldConstants h

theorem fires_of_power (h : power arith a b = some r) : Fires arith .pow a b r := by
  obtain h | ⟨-, h⟩ := Option.or_eq_some_iff.1 h
  · obtain ⟨hb, ⟨⟩⟩ := Option.ite_none_right_eq_some.1 h
    exact .powerZero hb
  obtain h | ⟨-, h⟩ := Option.or_eq_some_iff.1 h
  · obtain ⟨hb, ⟨⟩⟩ := Option.ite_none_right_eq_some.1 h
    exact .powerOne hb
  · exact fires_of_foldConstants h

/-- A quotient is refused for its denominator alone. -/
theorem divide_error {error : Error} :
    divide arith a b = .error error ↔
      b.isZero = true ∧ error = ⟨.divisionByZero (Expr.binary .div a b).text, []⟩ := by
  unfold divide checkDenominator
  split
  · rename_i hb
    simp [Except.map, hb, eq_comm]
  · rename_i hb
    simp [Except.map, hb]

theorem fires_of_divide (h : divide arith a b = .ok (some r)) : Fires arith .div a b r := by
  unfold divide checkDenominator at h
  split at h
  · cases h
  rename_i hzero
  -- the denominator is checked before any rule is tried
  have hb : b.isZero = false := by simpa using hzero
  replace h := Except.ok.inj h
  obtain h | ⟨-, h⟩ := Option.or_eq_some_iff.1 h
  · obtain ⟨hone, ⟨⟩⟩ := Option.ite_none_right_eq_some.1 h
    exact .divideOne hone
  obtain h | ⟨-, h⟩ := Option.or_eq_some_iff.1 h
  · exact fires_of_foldConstants h
  · obtain ⟨heq, ⟨⟩⟩ := Option.ite_none_right_eq_some.1 h
    exact .divideEqual hb heq

/-- **The rules offer nothing else.** -/
theorem fires_of_ofOp (h : ofOp arith op a b = .ok (some r)) : Fires arith op a b r := by
  cases op with
  | add => exact fires_of_add (Except.ok.inj h)
  | sub => exact fires_of_subtract (Except.ok.inj h)
  | mul => exact fires_of_multiply (Except.ok.inj h)
  | div => exact fires_of_divide h
  | pow => exact fires_of_power (Except.ok.inj h)
  | _ => cases h

/-- Only quotients are refused. -/
theorem ofOp_error {error : Error} :
    ofOp arith op a b = .error error ↔ op = .div ∧ b.isZero = true ∧
      error = ⟨.divisionByZero (Expr.binary .div a b).text, []⟩ := by
  cases op <;> simp [ofOp, divide_error]

end

/-! ### The rules at a root -/

@[simp] theorem apply_binary (op : Op) (a b : Expr) :
    apply arith (.binary op a b) = ofOp arith op a b := by
  simp [apply, Expr.binary]

/-- **Rules fire at a binary application only.** -/
theorem apply_some {e : Expr} {r : Rewrite} (h : apply arith e = .ok (some r)) :
    ∃ op a b, e = .binary op a b ∧ Fires arith op a b r := by
  unfold apply at h
  split at h
  · rename_i head a b
    split at h
    · rename_i op hop
      exact ⟨op, a, b, by rw [Expr.eq_symbol_of_op? hop]; rfl, fires_of_ofOp h⟩
    · cases h
  · cases h

/-- **Rules fail at a quotient with the denominator zero only.** -/
theorem apply_error {e : Expr} {error : Error} :
    apply arith e = .error error ↔ ∃ a b, e = .binary .div a b ∧ b.isZero = true ∧
      error = ⟨.divisionByZero (Expr.binary .div a b).text, []⟩ := by
  constructor
  · intro h
    unfold apply at h
    split at h
    · rename_i head a b
      split at h
      · rename_i op hop
        obtain ⟨rfl, hb, rfl⟩ := ofOp_error.1 h
        exact ⟨a, b, by rw [Expr.eq_symbol_of_op? hop]; rfl, hb, rfl⟩
      · cases h
    · cases h
  · rintro ⟨a, b, rfl, hb, rfl⟩
    rw [apply_binary]
    exact ofOp_error.2 ⟨rfl, hb, rfl⟩

end Rules

end FormalCalculus
