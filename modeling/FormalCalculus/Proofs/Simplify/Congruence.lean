import FormalCalculus.Proofs.Numeral.Zero
import FormalCalculus.Proofs.Simplify.NormalForm

/-!
# Simplification respects equality

Expressions that compare equal need not be identical: a zero of one may have the other sign in the
other. Yet the rules treat them alike. They ask whether a number is zero or one, whether operands
are equal, and whether a value is finite, and the answers are the same; so are the steps, and what is
put in the place of an application is equal again.

* `Rewrite.Matches`, `OutcomesMatch` — two rewrites take the same steps to equal expressions; two
  outcomes are related values or are both a division by zero. The quotients that the errors show may
  differ in the sign of the denominator;
* `Rules.offersMatch_apply` — the rules make offers that match on lists of equal items;
* `Traced.Matches` — two runs take the same steps to outcomes that match, and they still do when
  both go on (`Traced.Matches.bind`).

Sums, differences, products and quotients of equal numbers agree (`Numeral.Agree`), as far as they
are folded. That powers do is asked of the arithmetic at hand (`Arithmetic.PowersAgree`). Main
statement: `Expr.simplify_respects_equality`.
-/

namespace FormalCalculus

/-- Powers of equal numbers agree. -/
def Arithmetic.PowersAgree (arith : Arithmetic) : Prop :=
  ∀ x x' y y' : Float, (x == x') = true → (y == y') = true →
    Numeral.Agree (arith.pow x y) (arith.pow x' y')

theorem Arithmetic.squaring_powersAgree : squaring.PowersAgree :=
  fun _ _ _ _ hx _ => Numeral.agree_mul hx hx

/-- **Rewrites that match** take the same steps to equal expressions. -/
structure Rewrite.Matches (r r' : Rewrite) : Prop where
  steps_eq : r.steps = r'.steps
  result_equal : r.result.equal r'.result = true

theorem Rewrite.Matches.single (step : Step) {a a' : Expr} (h : a.equal a' = true) :
    (Rewrite.single step a).Matches (Rewrite.single step a') :=
  ⟨rfl, h⟩

/-! ### The rules on equal operands -/

namespace Rules

variable {arith : Arithmetic} {a a' b b' : Expr} {op : Op}

/-- What one of two rules offers, the first being preferred. -/
theorem rel_or {o o' p p' : Option Rewrite} (ho : Option.Rel Rewrite.Matches o o')
    (hp : Option.Rel Rewrite.Matches p p') : Option.Rel Rewrite.Matches (o.or p) (o'.or p') := by
  cases ho with
  | none => exact hp
  | some h => exact .some h

/-- What a rule offers on a condition. -/
theorem rel_ite {c c' : Bool} {r r' : Rewrite} {o o' : Option Rewrite} (hc : c = c')
    (hr : r.Matches r') (ho : Option.Rel Rewrite.Matches o o') :
    Option.Rel Rewrite.Matches (if c then some r else o) (if c' then some r' else o') := by
  subst hc
  cases c with
  | true => exact .some hr
  | false => exact ho

/-- The value of an operator on equal numbers, if it is folded. -/
theorem rel_fold? (harith : arith.PowersAgree) {x x' y y' : Float} (hx : (x == x') = true)
    (hy : (y == y') = true) (hdiv : op = .div → (y == 0) = false) :
    Option.Rel (fun z z' => (z == z') = true) (arith.fold? op x y) (arith.fold? op x' y') := by
  have hfilter {z z' : Float} (h : Numeral.Agree z z') :
      Option.Rel (fun z z' => (z == z') = true)
        ((some z).filter Float.isFinite) ((some z').filter Float.isFinite) := by
    cases hz : z.isFinite with
    | true =>
      rw [Option.filter_some_pos hz, Option.filter_some_pos (h.isFinite_eq ▸ hz)]
      exact .some (h.beq_of_isFinite hz)
    | false =>
      rw [Option.filter_some_neg hz, Option.filter_some_neg (h.isFinite_eq ▸ hz)]
      exact .none
  cases op with
  | add => exact hfilter (Numeral.agree_add hx hy)
  | sub => exact hfilter (Numeral.agree_sub hx hy)
  | mul => exact hfilter (Numeral.agree_mul hx hy)
  | div => exact hfilter (Numeral.agree_div hx hy (hdiv rfl))
  | pow => exact hfilter (harith x x' y y' hx hy)
  | sin | cos | tan | exp | ln => exact .none

/-- **Constants fold alike**, where no quotient by zero is asked for. -/
theorem rel_foldConstants (harith : arith.PowersAgree) (ha : a.equal a' = true)
    (hb : b.equal b' = true) (hdiv : op = .div → b.isZero = false) :
    Option.Rel Rewrite.Matches (foldConstants arith op a b) (foldConstants arith op a' b') := by
  refine Expr.equal_induction (motive := fun a a' => Option.Rel Rewrite.Matches
    (foldConstants arith op a b) (foldConstants arith op a' b')) ?number ?symbol ?list ha
  case symbol => exact fun _ => .none
  case list => exact fun _ _ _ => .none
  case number =>
    intro x x' hx
    refine Expr.equal_induction (motive := fun b b' => (op = .div → b.isZero = false) →
      Option.Rel Rewrite.Matches (foldConstants arith op (.number x) b)
        (foldConstants arith op (.number x') b')) ?number ?symbol ?list hb hdiv
    case symbol => exact fun _ _ => .none
    case list => exact fun _ _ _ _ => .none
    case number =>
      intro y y' hy hdiv
      have hvalue := rel_fold? harith hx hy hdiv
      rw [foldConstants, foldConstants]
      generalize arith.fold? op x y = v, arith.fold? op x' y' = v' at hvalue ⊢
      cases hvalue with
      | none => exact .none
      | some h => exact .some (.single _ h)

theorem rel_multiply (harith : arith.PowersAgree) (ha : a.equal a' = true)
    (hb : b.equal b' = true) :
    Option.Rel Rewrite.Matches (multiply arith a b) (multiply arith a' b') := by
  have hzero := congrArg₂ (· || ·) (Expr.isNumber_congr ha 0) (Expr.isNumber_congr hb 0)
  refine rel_or ?zero (rel_or ?one (rel_or ?fold ?square))
  case zero => exact rel_ite hzero (.single _ rfl) .none
  case one =>
    exact rel_ite (Expr.isNumber_congr ha 1) (.single _ hb)
      (rel_ite (Expr.isNumber_congr hb 1) (.single _ ha) .none)
  case fold => exact rel_foldConstants harith ha hb nofun
  case square =>
    exact rel_ite (Expr.equal_congr ha hb) (.single _ (Expr.equal_binary _ ha rfl)) .none

theorem rel_add (harith : arith.PowersAgree) (ha : a.equal a' = true) (hb : b.equal b' = true) :
    Option.Rel Rewrite.Matches (add arith a b) (add arith a' b') := by
  refine rel_or ?zero (rel_foldConstants harith ha hb nofun)
  case zero =>
    exact rel_ite (Expr.isNumber_congr ha 0) (.single _ hb)
      (rel_ite (Expr.isNumber_congr hb 0) (.single _ ha) .none)

theorem rel_subtractFromZero (harith : arith.PowersAgree) (ha : a.equal a' = true)
    (hb : b.equal b' = true) :
    Option.Rel Rewrite.Matches (subtractFromZero arith a b) (subtractFromZero arith a' b') := by
  have hminusOne : (Expr.number (-1)).equal (.number (-1)) = true := rfl
  have hzero : a.isZero = a'.isZero := Expr.isNumber_congr ha 0
  unfold subtractFromZero
  rw [hzero]
  cases a'.isZero with
  | false => exact .none
  | true =>
    -- the rules for products are tried on the product with `-1`
    have hproduct := rel_multiply harith hminusOne hb
    rw [if_pos rfl, if_pos rfl]
    dsimp only
    generalize multiply arith (.number (-1)) b = o, multiply arith (.number (-1)) b' = o'
      at hproduct ⊢
    cases hproduct with
    | none => exact .some (.single _ (Expr.equal_binary _ hminusOne hb))
    | some h => exact .some ⟨congrArg (_ :: ·) h.steps_eq, h.result_equal⟩

theorem rel_subtract (harith : arith.PowersAgree) (ha : a.equal a' = true)
    (hb : b.equal b' = true) :
    Option.Rel Rewrite.Matches (subtract arith a b) (subtract arith a' b') := by
  refine rel_or (rel_subtractFromZero harith ha hb)
    (rel_or ?zero (rel_foldConstants harith ha hb nofun))
  case zero => exact rel_ite (Expr.isNumber_congr hb 0) (.single _ ha) .none

theorem rel_power (harith : arith.PowersAgree) (ha : a.equal a' = true) (hb : b.equal b' = true) :
    Option.Rel Rewrite.Matches (power arith a b) (power arith a' b') := by
  refine rel_or ?zero (rel_or ?one (rel_foldConstants harith ha hb nofun))
  case zero => exact rel_ite (Expr.isNumber_congr hb 0) (.single _ rfl) .none
  case one => exact rel_ite (Expr.isNumber_congr hb 1) (.single _ ha) .none

end Rules

/-- **Outcomes that match**: two values that are related, or two divisions by zero. -/
inductive OutcomesMatch {α : Type} (R : α → α → Prop) : Except Error α → Except Error α → Prop
  | ok {a a' : α} (h : R a a') : OutcomesMatch R (.ok a) (.ok a')
  | error (quotient quotient' : String) :
      OutcomesMatch R (.error ⟨.divisionByZero quotient, []⟩)
        (.error ⟨.divisionByZero quotient', []⟩)

namespace Rules

variable {arith : Arithmetic} {a a' b b' : Expr} {op : Op}

/-- **Quotients by equal denominators** are refused alike, and only if they are not refused are they
folded. -/
theorem offersMatch_divide (harith : arith.PowersAgree) (ha : a.equal a' = true)
    (hb : b.equal b' = true) :
    OutcomesMatch (Option.Rel Rewrite.Matches) (divide arith a b) (divide arith a' b') := by
  have hzero : b.isZero = b'.isZero := Expr.isNumber_congr hb 0
  unfold divide checkDenominator
  rw [← hzero]
  by_cases hb0 : b.isZero = true
  · rw [if_pos hb0, if_pos hb0]
    exact .error _ _
  · rw [if_neg hb0, if_neg hb0]
    refine .ok (rel_or ?one (rel_or ?fold ?equal))
    case one => exact rel_ite (Expr.isNumber_congr hb 1) (.single _ ha) .none
    case fold => exact rel_foldConstants harith ha hb fun _ => eq_false_of_ne_true hb0
    case equal => exact rel_ite (Expr.equal_congr ha hb) (.single _ rfl) .none

theorem offersMatch_ofOp (harith : arith.PowersAgree) (op : Op) (ha : a.equal a' = true)
    (hb : b.equal b' = true) :
    OutcomesMatch (Option.Rel Rewrite.Matches) (ofOp arith op a b) (ofOp arith op a' b') := by
  cases op with
  | add => exact .ok (rel_add harith ha hb)
  | sub => exact .ok (rel_subtract harith ha hb)
  | mul => exact .ok (rel_multiply harith ha hb)
  | div => exact offersMatch_divide harith ha hb
  | pow => exact .ok (rel_power harith ha hb)
  | sin | cos | tan | exp | ln => exact .ok .none

/-- **The rules make offers that match** on lists of equal items. Equal heads name the same
operator, and lists of equal items are equally long. -/
theorem offersMatch_apply (harith : arith.PowersAgree) {es es' : List Expr}
    (h : List.Forall₂ (fun e e' => e.equal e' = true) es es') :
    OutcomesMatch (Option.Rel Rewrite.Matches) (apply arith (.list es)) (apply arith (.list es')) := by
  obtain _ | ⟨hhead, _ | ⟨ha, _ | ⟨hb, _ | _⟩⟩⟩ := h
  case cons.cons.cons.nil =>
    rw [apply, apply, Expr.op?_eq_of_equal hhead]
    split
    · exact offersMatch_ofOp harith _ ha hb
    · exact .ok .none
  all_goals exact .ok .none

end Rules

/-! ### Runs -/

/-- **Runs that match** take the same steps to outcomes that match. -/
structure Traced.Matches {α : Type} (R : α → α → Prop) (x y : Traced α) : Prop where
  steps_eq : x.steps = y.steps
  outcomes : OutcomesMatch R x.outcome y.outcome

namespace Traced.Matches

variable {α β : Type} {R : α → α → Prop} {S : β → β → Prop}

theorem pure {a a' : α} (h : R a a') : Traced.Matches R (.pure a) (.pure a') :=
  ⟨rfl, .ok h⟩

/-- Runs that match still do when they go on, if they do so alike on related values. -/
theorem bind {x y : Traced α} {f g : α → Traced β} (h : Traced.Matches R x y)
    (hfg : ∀ a a', R a a' → Traced.Matches S (f a) (g a')) :
    Traced.Matches S (x.bind f) (y.bind g) := by
  obtain ⟨steps, outcome⟩ := x
  obtain ⟨steps', outcome'⟩ := y
  obtain ⟨rfl, houtcomes⟩ := h
  cases houtcomes with
  | ok ha => exact ⟨congrArg (steps ++ ·) (hfg _ _ ha).steps_eq, (hfg _ _ ha).outcomes⟩
  | error quotient quotient' => exact ⟨rfl, .error quotient quotient'⟩

end Traced.Matches

namespace Expr

variable {arith : Arithmetic}

/-- The rules at the root of lists of equal items. -/
theorem matches_simplifyRoot (harith : arith.PowersAgree) {es es' : List Expr}
    (h : List.Forall₂ (fun e e' => e.equal e' = true) es es') :
    Traced.Matches (fun s t => s.equal t = true)
      (simplifyRoot arith (list es)) (simplifyRoot arith (list es')) := by
  have hoffers := Rules.offersMatch_apply harith h
  unfold simplifyRoot
  generalize Rules.apply arith (list es) = o, Rules.apply arith (list es') = o' at hoffers ⊢
  cases hoffers with
  | error quotient quotient' => exact ⟨rfl, .error quotient quotient'⟩
  | ok hoffer =>
    cases hoffer with
    | none => exact .pure (equalList_eq_true_iff.2 h)
    | some hrewrite => exact ⟨hrewrite.steps_eq, .ok hrewrite.result_equal⟩

/-- Items whose simplifications match. -/
theorem matches_simplifyItems {es es' : List Expr}
    (h : List.Forall₂ (fun e e' => Traced.Matches (fun s t => s.equal t = true)
      (simplify arith e) (simplify arith e')) es es') :
    Traced.Matches (List.Forall₂ fun s t => s.equal t = true)
      (simplifyItems arith es) (simplifyItems arith es') := by
  induction h with
  | nil => exact .pure .nil
  | cons hitem _ ih =>
    exact hitem.bind fun s t hst => ih.bind fun ss ts hrest => .pure (.cons hst hrest)

/-- **The simplifications of equal expressions match.** -/
theorem matches_simplify (harith : arith.PowersAgree) {a b : Expr} (h : a.equal b = true) :
    Traced.Matches (fun s t => s.equal t = true) (simplify arith a) (simplify arith b) := by
  refine equal_induction
    (motive := fun a b => Traced.Matches (fun s t => s.equal t = true)
      (simplify arith a) (simplify arith b)) ?number ?symbol ?list h
  case number => exact fun x y hxy => .pure hxy
  case symbol => exact fun name => .pure (beq_self_eq_true name)
  case list =>
    intro as bs hitems
    exact (matches_simplifyItems (hitems.imp fun _ _ hab => hab.2)).bind fun ss ts hst =>
      matches_simplifyRoot harith hst

/-- **Simplification respects equality.** On expressions that compare equal the same steps are
taken, and the results compare equal, or both runs end in a division by zero. -/
theorem simplify_respects_equality (arith : Arithmetic) (harith : arith.PowersAgree) (a b : Expr)
    (h : a.equal b = true) :
    (a.simplify arith).steps = (b.simplify arith).steps ∧
      ((∃ s t, (a.simplify arith).outcome = .ok s ∧ (b.simplify arith).outcome = .ok t ∧
          s.equal t = true) ∨
        ∃ quotient quotient',
          (a.simplify arith).outcome = .error ⟨.divisionByZero quotient, []⟩ ∧
            (b.simplify arith).outcome = .error ⟨.divisionByZero quotient', []⟩) := by
  have hmatches := matches_simplify harith h
  refine ⟨hmatches.steps_eq, ?_⟩
  have houtcomes := hmatches.outcomes
  generalize (a.simplify arith).outcome = o, (b.simplify arith).outcome = o' at houtcomes ⊢
  cases houtcomes with
  | ok hst => exact .inl ⟨_, _, rfl, rfl, hst⟩
  | error quotient quotient' => exact .inr ⟨quotient, quotient', rfl, rfl⟩

/-- Two zeros of different sign keep their signs here, one on each side, but the factors are equal on
both sides and make a square, and each power is one. -/
theorem simplify_respects_equality_of_signed_zeros :
    let e := fun zero : Float => binary .add (binary .pow (symbol "x") (number zero))
      (binary .mul (unary .sin (number zero)) (unary .sin (number 0)))
    Arithmetic.squaring.PowersAgree ∧ (e (-0)).equal (e 0) = true ∧ e (-0) ≠ e 0 ∧
      ((e 0).simplify .squaring).steps = [.powerZero, .squareEqualFactors] ∧
      ((e (-0)).simplify .squaring).steps = ((e 0).simplify .squaring).steps ∧
      ((∃ s t, ((e (-0)).simplify .squaring).outcome = .ok s ∧
          ((e 0).simplify .squaring).outcome = .ok t ∧ s.equal t = true) ∨
        ∃ quotient quotient',
          ((e (-0)).simplify .squaring).outcome = .error ⟨.divisionByZero quotient, []⟩ ∧
            ((e 0).simplify .squaring).outcome = .error ⟨.divisionByZero quotient', []⟩) := by
  intro e
  have h : (e (-0)).equal (e 0) = true := by decide +kernel
  have hne : e (-0) ≠ e 0 := by decide +kernel
  have hsteps : ((e 0).simplify .squaring).steps = [.powerZero, .squareEqualFactors] := by
    decide +kernel
  exact ⟨Arithmetic.squaring_powersAgree, h, hne, hsteps,
    simplify_respects_equality .squaring Arithmetic.squaring_powersAgree _ _ h⟩

end Expr

end FormalCalculus
