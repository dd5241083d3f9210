import FormalCalculus.Proofs.Expr.Value
import FormalCalculus.Proofs.Simplify.NormalForm

/-!
# Simplification preserves meaning

Every rule is an identity of fields, if numbers stand for what they look like and powers are powers
where the exponent is 0, 1 or 2 (`Interpretation.Standard`). Two rules need more than that:

* `a / a = 1` holds where the denominator is not zero. So the values of expressions are preserved
  together with the fact that no denominator vanishes (`Expr.Defined`);
* folding puts a rounded number in the place of the exact one. So it preserves the value where no
  rounding takes place, and that has to be known of the folds that are performed, and of no others.

The record of steps names the operator of every fold, and not its numbers. `Expr.folds` recovers
them: it lists the folds of a run in order, and their operators are those in the record
(`Expr.map_op_folds`).

Main statement: `Expr.simplify_preserves_value`, from what one rule preserves
(`Rules.Fires.value_eq`, `Rules.Fires.defined`, `Rules.Fires.wellFormed`) by induction on the
expression.
-/

namespace FormalCalculus

/-! ### The folds of a run -/

/-- A fold: an operator on two numbers, and the number that takes their place. -/
structure Fold where
  op : Op
  left : Float
  right : Float
  value : Float
deriving DecidableEq

/-- The operator of a step that folds constants. -/
def Step.foldedOp? : Step → Option Op
  | foldConstants op => some op
  | _ => none

/-- **The folds behind a rewrite** of an application to `a` and `b`. The operands themselves are
folded, or else `-1` and `b`, if a difference from zero has become a product first. -/
def Rewrite.folds (r : Rewrite) (a b : Expr) : List Fold :=
  match r.steps, a, b, r.result with
  | [.foldConstants op], .number x, .number y, .number z => [⟨op, x, y, z⟩]
  | [.subtractFromZero, .foldConstants op], _, .number y, .number z => [⟨op, -1, y, z⟩]
  | _, _, _, _ => []

/-- The folds that come after an outcome; after a failure there are none. -/
def Traced.following {α : Type} (x : Traced α) (folds : α → List Fold) : List Fold :=
  match x.outcome with
  | .ok a => folds a
  | .error _ => []

variable {arith : Arithmetic}

namespace Expr

/-- The folds at the root of a list of simplified items. -/
def rootFolds (arith : Arithmetic) : List Expr → List Fold
  | [head, a, b] =>
    match Rules.apply arith (list [head, a, b]) with
    | .ok (some r) => r.folds a b
    | _ => []
  | _ => []

mutual

/-- **The folds of a run**, in the order in which they are performed. -/
def folds (arith : Arithmetic) : Expr → List Fold
  | number _ => []
  | symbol _ => []
  | list es => foldsItems arith es ++ (simplifyItems arith es).following (rootFolds arith)

/-- The folds in items, from left to right. -/
def foldsItems (arith : Arithmetic) : List Expr → List Fold
  | [] => []
  | e :: es => folds arith e ++ (simplify arith e).following fun _ => foldsItems arith es

end

end Expr

/-! ### The folds are those in the record -/

namespace Rules

/-- Behind a difference from zero, the folds are those of the product. -/
theorem Fires.folds_subtractFromZero {a b : Expr} {r : Rewrite}
    (h : Fires arith .mul (.number (-1)) b r) :
    (⟨r.result, .subtractFromZero :: r.steps⟩ : Rewrite).folds a b = r.folds (.number (-1)) b := by
  cases h <;> rfl

/-- A rewrite folds the operators that its steps name. -/
theorem Fires.map_op_folds {op : Op} {a b : Expr} {r : Rewrite} (h : Fires arith op a b r) :
    (r.folds a b).map Fold.op = r.steps.filterMap Step.foldedOp? := by
  induction h with
  | subtractFromZeroProduct _ hproduct ih =>
    rw [hproduct.folds_subtractFromZero, ih]
    rfl
  | _ => rfl

end Rules

namespace Traced

variable {α β : Type}

theorem steps_bind (x : Traced α) (f : α → Traced β) :
    (x.bind f).steps = x.steps ++
      match x.outcome with
      | .ok a => (f a).steps
      | .error _ => [] := by
  unfold bind
  cases x.outcome with
  | ok a => rfl
  | error error => exact (List.append_nil _).symm

/-- The folds that come after an outcome are in the record, if those of the continuation are. -/
theorem map_op_following {x : Traced α} {f : α → Traced β} {folds : α → List Fold}
    (h : ∀ a, (folds a).map Fold.op = (f a).steps.filterMap Step.foldedOp?) :
    x.steps.filterMap Step.foldedOp? ++ (x.following folds).map Fold.op =
      (x.bind f).steps.filterMap Step.foldedOp? := by
  rw [steps_bind, List.filterMap_append, following]
  cases x.outcome with
  | ok a => rw [h a]
  | error error => rfl

end Traced

namespace Expr

theorem map_op_rootFolds (es : List Expr) :
    (rootFolds arith es).map Fold.op =
      (simplifyRoot arith (list es)).steps.filterMap Step.foldedOp? := by
  unfold simplifyRoot
  cases happly : Rules.apply arith (list es) with
  | error error =>
    obtain ⟨a, b, heq, -⟩ := Rules.apply_error.1 happly
    obtain rfl : es = [symbol Op.div.symbol, a, b] := list.inj heq
    simp [rootFolds, happly]
  | ok offer =>
    cases offer with
    | none =>
      unfold rootFolds
      split
      · rw [happly]
        rfl
      · rfl
    | some r =>
      obtain ⟨op, a, b, heq, hfires⟩ := Rules.apply_some happly
      obtain rfl : es = [symbol op.symbol, a, b] := list.inj heq
      simp only [rootFolds, happly]
      exact hfires.map_op_folds

theorem map_op_foldsItems {es : List Expr}
    (h : ∀ e ∈ es, (e.folds arith).map Fold.op =
      (e.simplify arith).steps.filterMap Step.foldedOp?) :
    (foldsItems arith es).map Fold.op =
      (simplifyItems arith es).steps.filterMap Step.foldedOp? := by
  induction es with
  | nil => rfl
  | cons e es ih =>
    have hitems := ih fun e' he' => h e' (List.mem_cons_of_mem _ he')
    rw [foldsItems, List.map_append, h e List.mem_cons_self, simplifyItems]
    refine Traced.map_op_following fun e' => ?_
    rw [hitems, Traced.steps_bind, List.filterMap_append]
    -- putting the items together again takes no step
    cases (simplifyItems arith es).outcome <;> simp [Traced.pure]

/-- **The folds of a run are those in its record**: in order, and with the operators it names. -/
theorem map_op_folds (e : Expr) :
    (e.folds arith).map Fold.op = (e.simplify arith).steps.filterMap Step.foldedOp? := by
  induction e using Expr.induction with
  | number x => rfl
  | symbol name => rfl
  | list es ih =>
    rw [folds, List.map_append, map_op_foldsItems ih, simplify]
    exact Traced.map_op_following map_op_rootFolds

/-- Where all items are simplified, the folds are theirs and then those at the root. -/
theorem folds_list {es es' : List Expr} (h : List.Forall₂ (SimplifiesTo arith) es es') :
    (list es).folds arith = es.flatMap (folds arith) ++ rootFolds arith es' := by
  have hitems : foldsItems arith es = es.flatMap (folds arith) := by
    induction h with
    | nil => rfl
    | @cons e e' es es' he hes ih =>
      have he' : (e.simplify arith).outcome = .ok e' := he
      rw [foldsItems, Traced.following, he', List.flatMap_cons, ← ih]
  have houtcome : (simplifyItems arith es).outcome = .ok es' := simplifyItems_eq_ok.2 h
  rw [folds, hitems, Traced.following, houtcome]

end Expr

/-! ### What one rule preserves -/

variable {K : Type*} [Field K] {I : Interpretation K}

/-- **Standard interpretations.** Both zeros are zero, the numbers that rules look for or put in
stand for themselves, and powers with the exponents 0, 1 and 2 are what they should be. -/
structure Interpretation.Standard (I : Interpretation K) : Prop extends I.StandardLiterals where
  minusZero : I.literal (-0) = 0
  power_zero : ∀ x, I.power x 0 = 1
  power_one : ∀ x, I.power x 1 = x
  power_two : ∀ x, I.power x 2 = x * x

/-- A fold is exact if no rounding takes place. -/
def Interpretation.Exact (I : Interpretation K) (fold : Fold) : Prop :=
  I.literal fold.value = I.applyBinary fold.op (I.literal fold.left) (I.literal fold.right)

namespace Interpretation.Standard

theorem zeros (hI : I.Standard) : I.literal (-0) = I.literal 0 := hI.minusZero.trans hI.zero.symm

/-- What compares equal to a number has its value. -/
theorem value_of_isNumber (hI : I.Standard) {a : Expr} {x : Float} (h : a.isNumber x = true) :
    a.value I = I.literal x := by
  cases a with
  | number y =>
    exact Expr.literal_eq_of_beq hI.zeros (show (y == x) = true from h)
  | symbol name => cases h
  | list es => cases h

theorem value_of_isZero (hI : I.Standard) {a : Expr} (h : a.isZero = true) : a.value I = 0 :=
  (hI.value_of_isNumber h).trans hI.zero

theorem value_of_isOne (hI : I.Standard) {a : Expr} (h : a.isOne = true) : a.value I = 1 :=
  (hI.value_of_isNumber h).trans hI.one

end Interpretation.Standard

namespace Rules

/-- **A rule preserves the value**, if its folds are exact and it does not divide by zero. -/
theorem Fires.value_eq (hI : I.Standard) {op : Op} {a b : Expr} {r : Rewrite}
    (h : Fires arith op a b r) (hexact : ∀ fold ∈ r.folds a b, I.Exact fold)
    (hdiv : op = .div → b.value I ≠ 0) :
    r.result.value I = (Expr.binary op a b).value I := by
  rw [Expr.value_binary]
  induction h with
  | @addZeroLeft a b ha =>
    show b.value I = a.value I + b.value I
    rw [hI.value_of_isZero ha, zero_add]
  | @addZeroRight a b hb =>
    show a.value I = a.value I + b.value I
    rw [hI.value_of_isZero hb, add_zero]
  | @subtractFromZero a b ha _ =>
    show (Expr.binary .mul (.number (-1)) b).value I = a.value I - b.value I
    rw [hI.value_of_isZero ha, zero_sub, Expr.value_binary, Expr.value_number, hI.minusOne]
    exact neg_one_mul _
  | @subtractFromZeroProduct a b r ha hproduct ih =>
    -- the product with `-1` keeps its own value, by the rule that has taken it
    rw [hproduct.folds_subtractFromZero] at hexact
    have hvalue := ih hexact (by simp)
    rw [Expr.value_number, hI.minusOne] at hvalue
    show r.result.value I = a.value I - b.value I
    rw [hvalue, hI.value_of_isZero ha, zero_sub]
    exact neg_one_mul _
  | @subtractZero a b hb =>
    show a.value I = a.value I - b.value I
    rw [hI.value_of_isZero hb, sub_zero]
  | @multiplyZero a b hzero =>
    show (Expr.number 0).value I = a.value I * b.value I
    rw [Expr.value_number, hI.zero]
    obtain ha | hb := hzero
    · rw [hI.value_of_isZero ha, zero_mul]
    · rw [hI.value_of_isZero hb, mul_zero]
  | @multiplyOneLeft a b ha =>
    show b.value I = a.value I * b.value I
    rw [hI.value_of_isOne ha, one_mul]
  | @multiplyOneRight a b hb =>
    show a.value I = a.value I * b.value I
    rw [hI.value_of_isOne hb, mul_one]
  | @squareEqualFactors a b _ heq _ =>
    show (Expr.binary .pow a (.number 2)).value I = a.value I * b.value I
    rw [← Expr.value_eq_of_equal hI.zeros heq, Expr.value_binary, Expr.value_number, hI.two]
    exact hI.power_two _
  | @divideOne a b hb =>
    show a.value I = a.value I / b.value I
    rw [hI.value_of_isOne hb, div_one]
  | @divideEqual a b _ heq =>
    show (Expr.number 1).value I = a.value I / b.value I
    rw [Expr.value_number, hI.one, Expr.value_eq_of_equal hI.zeros heq, div_self (hdiv rfl)]
  | @powerZero a b hb =>
    show (Expr.number 1).value I = I.power (a.value I) (b.value I)
    rw [Expr.value_number, hI.one, hI.value_of_isZero hb, hI.power_zero]
  | @powerOne a b hb =>
    show a.value I = I.power (a.value I) (b.value I)
    rw [hI.value_of_isOne hb, hI.power_one]
  | @foldConstants op x y z hfold =>
    have hfold : I.Exact ⟨op, x, y, z⟩ := hexact _ (List.mem_singleton.2 rfl)
    rw [Expr.value_number, Expr.value_number]
    exact hfold

/-- **A rule puts in no denominator that vanishes.** -/
theorem Fires.defined {op : Op} {a b : Expr} {r : Rewrite} (h : Fires arith op a b r)
    (ha : a.Defined I) (hb : b.Defined I) : r.result.Defined I := by
  refine h.preserves (fun x _ => Expr.defined_number x) (fun b hb => ?_) (fun a ha => ?_) ha hb
  · simpa using hb
  · simpa using ha

/-- **A rule offers a well-formed expression** on well-formed operands. -/
theorem Fires.wellFormed {op : Op} {a b : Expr} {r : Rewrite} (h : Fires arith op a b r)
    (ha : a.WellFormed) (hb : b.WellFormed) : r.result.WellFormed := by
  refine h.preserves (fun x _ => Expr.wellFormed_number x) (fun b hb => ?_) (fun a ha => ?_) ha hb
  · simpa [Op.arity] using hb
  · simpa [Op.arity] using ha

end Rules

namespace Expr

/-! ### Whole expressions -/

/-- Well-formed expressions are simplified to well-formed ones. -/
theorem SimplifiesTo.wellFormed {e s : Expr} (he : e.WellFormed) (h : e.SimplifiesTo arith s) :
    s.WellFormed := by
  refine WellFormed.induction (motive := fun e => ∀ s, e.SimplifiesTo arith s → s.WellFormed)
    ?number ?symbol ?unary ?binary he s h
  case number =>
    intro x s h
    obtain rfl := simplifiesTo_number.1 h
    exact wellFormed_number x
  case symbol =>
    intro name s h
    obtain rfl := simplifiesTo_symbol.1 h
    exact wellFormed_symbol name
  case unary =>
    intro op a harity _ iha s h
    obtain ⟨a', ha, rfl⟩ := simplifiesTo_unary.1 h
    exact wellFormed_unary.2 ⟨harity, iha a' ha⟩
  case binary =>
    intro op a b harity _ _ iha ihb s h
    obtain ⟨a', b', ha, hb, ⟨-, rfl⟩ | ⟨r, hr, rfl⟩⟩ := simplifiesTo_binary.1 h
    · exact wellFormed_binary.2 ⟨harity, iha a' ha, ihb b' hb⟩
    · exact (Rules.fires_of_ofOp hr).wellFormed (iha a' ha) (ihb b' hb)

/-- The folds in the operand of a function. -/
theorem folds_unary {op : Op} {a a' : Expr} (ha : a.SimplifiesTo arith a') :
    (unary op a).folds arith = a.folds arith := by
  rw [unary, folds_list (forall₂_unary.2 ⟨a', ha, rfl⟩)]
  simp [folds, rootFolds]

/-- The folds in the operands of an operator, and then those of the rule that rewrites it. -/
theorem folds_binary {op : Op} {a b a' b' : Expr} (ha : a.SimplifiesTo arith a')
    (hb : b.SimplifiesTo arith b') :
    (binary op a b).folds arith =
      a.folds arith ++ b.folds arith ++ rootFolds arith [symbol op.symbol, a', b'] := by
  rw [binary, folds_list (forall₂_binary.2 ⟨a', b', ha, hb, rfl⟩)]
  simp [folds]

theorem rootFolds_of_ofOp {op : Op} {a b : Expr} {r : Rewrite}
    (h : Rules.ofOp arith op a b = .ok (some r)) :
    rootFolds arith [symbol op.symbol, a, b] = r.folds a b := by
  have happly : Rules.apply arith (binary op a b) = .ok (some r) :=
    (Rules.apply_binary op a b).trans h
  rw [rootFolds, ← binary, happly]

/-- **A run with exact folds preserves the value**, and no denominator vanishes on the way. -/
theorem SimplifiesTo.value_eq (hI : I.Standard) {e s : Expr} (he : e.WellFormed)
    (h : e.SimplifiesTo arith s) (hdefined : e.Defined I)
    (hexact : ∀ fold ∈ e.folds arith, I.Exact fold) : s.value I = e.value I ∧ s.Defined I := by
  refine WellFormed.induction
    (motive := fun e => ∀ s, e.SimplifiesTo arith s → e.Defined I →
      (∀ fold ∈ e.folds arith, I.Exact fold) → s.value I = e.value I ∧ s.Defined I)
    ?number ?symbol ?unary ?binary he s h hdefined hexact
  case number =>
    intro x s h hdefined _
    obtain rfl := simplifiesTo_number.1 h
    exact ⟨rfl, hdefined⟩
  case symbol =>
    intro name s h hdefined _
    obtain rfl := simplifiesTo_symbol.1 h
    exact ⟨rfl, hdefined⟩
  case unary =>
    intro op a _ _ iha s h hdefined hexact
    obtain ⟨a', ha, rfl⟩ := simplifiesTo_unary.1 h
    rw [folds_unary ha] at hexact
    obtain ⟨hvalue, hdefined'⟩ := iha a' ha (defined_unary.1 hdefined) hexact
    exact ⟨by rw [value_unary, value_unary, hvalue], defined_unary.2 hdefined'⟩
  case binary =>
    intro op a b _ _ _ iha ihb s h hdefined hexact
    obtain ⟨a', b', ha, hb, hroot⟩ := simplifiesTo_binary.1 h
    obtain ⟨hdiv, hda, hdb⟩ := defined_binary.1 hdefined
    rw [folds_binary ha hb] at hexact
    obtain ⟨hva, hda'⟩ := iha a' ha hda fun fold hfold => hexact fold (by simp [hfold])
    obtain ⟨hvb, hdb'⟩ := ihb b' hb hdb fun fold hfold => hexact fold (by simp [hfold])
    -- the operands keep their values, so the denominator is still not zero
    have hvalue : (binary op a' b').value I = (binary op a b).value I := by
      rw [value_binary, value_binary, hva, hvb]
    rw [← hvb] at hdiv
    obtain ⟨-, rfl⟩ | ⟨r, hr, rfl⟩ := hroot
    · exact ⟨hvalue, defined_binary.2 ⟨hdiv, hda', hdb'⟩⟩
    · rw [rootFolds_of_ofOp hr] at hexact
      have hfires := Rules.fires_of_ofOp hr
      have hrule := hfires.value_eq hI (fun fold hfold => hexact fold (by simp [hfold])) hdiv
      exact ⟨hrule.trans hvalue, hfires.defined hda' hdb'⟩

/-- **Simplification preserves meaning.** Where no denominator of a well-formed expression vanishes
and every fold of the run is exact, the result is well-formed, has the same value, and has no
denominator that vanishes. -/
theorem simplify_preserves_value (arith : Arithmetic) (I : Interpretation K) (hI : I.Standard)
    (e s : Expr) (he : e.WellFormed) (hdefined : e.Defined I)
    (h : (e.simplify arith).outcome = .ok s) (hexact : ∀ fold ∈ e.folds arith, I.Exact fold) :
    s.WellFormed ∧ s.value I = e.value I ∧ s.Defined I :=
  ⟨SimplifiesTo.wellFormed he h, SimplifiesTo.value_eq hI he h hdefined hexact⟩

end Expr

/-! ### The real numbers -/

/-- **The real interpretation**: numbers are what they are, and functions the real ones. -/
noncomputable def Interpretation.real (symbol : String → ℝ) : Interpretation ℝ where
  literal x := Numeral.toRat x
  symbol := symbol
  power := Real.rpow
  sin := Real.sin
  cos := Real.cos
  tan := Real.tan
  exp := Real.exp
  ln := Real.log

theorem Interpretation.real_standard (symbol : String → ℝ) :
    (Interpretation.real symbol).Standard where
  toStandardLiterals := standardLiterals_of_toRat fun _ => rfl
  minusZero := by
    simpa using literal_of_toRat (I := Interpretation.real symbol) (fun _ => rfl)
      (show Numeral.toRat (-0) = (0 : ℤ) by decide +kernel)
  power_zero := Real.rpow_zero
  power_one := Real.rpow_one
  power_two x := (Real.rpow_two x).trans (sq x)

namespace Expr

/-- A sum of a square and a quotient, over the real numbers and with `π` for `x`. The numerator is
folded in two steps, of which one belongs to a difference from zero. -/
theorem simplify_preserves_value_of_sum :
    let I := Interpretation.real fun _ => Real.pi
    let x := symbol "x"
    let e := binary .add (binary .mul (unary .sin x) (unary .sin x))
      (binary .div (binary .sub (number 0) (binary .mul (number 2) (number 3)))
        (binary .mul x (number 1)))
    let s := binary .add (binary .pow (unary .sin x) (number 2)) (binary .div (number (-6)) x)
    I.Standard ∧ e.WellFormed ∧ e.Defined I ∧ (e.simplify .platform).outcome = .ok s ∧
      (∀ fold ∈ e.folds .platform, I.Exact fold) ∧
      s.WellFormed ∧ s.value I = e.value I ∧ s.Defined I := by
  intro I x e s
  have hI : I.Standard := Interpretation.real_standard _
  have hwell : e.WellFormed := by decide +kernel
  have houtcome : (e.simplify .platform).outcome = .ok s := by decide +kernel
  have hfolds : e.folds .platform = [⟨.mul, 2, 3, 6⟩, ⟨.mul, -1, 6, -6⟩] := by decide +kernel
  have hdefined : e.Defined I := by
    have hpi : x.value I = Real.pi := value_symbol _
    have hdenominator : (binary .mul x (number 1)).value I ≠ 0 := by
      rw [value_binary, value_number, hI.one, hpi]
      exact mul_ne_zero Real.pi_ne_zero one_ne_zero
    simpa [e, x] using hdenominator
  have hexact : ∀ fold ∈ e.folds .platform, I.Exact fold := by
    have hthree : I.literal 3 = (3 : ℤ) :=
      Interpretation.literal_of_toRat (fun _ => rfl) (by decide +kernel)
    have hsix : I.literal 6 = (6 : ℤ) :=
      Interpretation.literal_of_toRat (fun _ => rfl) (by decide +kernel)
    have hminusSix : I.literal (-6) = (-6 : ℤ) :=
      Interpretation.literal_of_toRat (fun _ => rfl) (by decide +kernel)
    rw [hfolds]
    simp [Interpretation.Exact, Interpretation.applyBinary, hI.two, hI.minusOne, hthree, hsix,
      hminusSix]
    norm_num
  exact ⟨hI, hwell, hdefined, houtcome, hexact,
    simplify_preserves_value .platform I hI e s hwell hdefined houtcome hexact⟩

end Expr

end FormalCalculus
