import FormalCalculus.Proofs.Simplify.NormalForm
import FormalCalculus.Proofs.Simplify.Record

/-!
# Every rewriting lowers a weight

No rule undoes what another one does. Most identities put an operand or a number in the place of an
application, and make the expression smaller. Two of them do not: `0 - a` becomes the product
`-1 * a`, which has as many symbols, and `a * a` becomes the square `a ^ 2`, which has as many
symbols if `a` is a leaf. So the operators are given weights of their own (`Op.weight`): a
difference weighs more than a product, and a product more than a power. With these, every identity
lowers the weight of an expression (`Step.Identity.weight_lt`), wherever in it the identity is used
(`Expr.RewritesBy.weight_lt`).

A chain of rewritings therefore has no more steps than the weight it takes off
(`Expr.RewriteChain.weight_add_length_le`), and one that comes back to where it started has none.
Since the record of a run leads to its result (`Expr.chain_simplify`), the record is empty exactly
where the run changes nothing.

Main statement: `Expr.record_empty_iff_unchanged`.
-/

namespace FormalCalculus

/-- **The weight of an operator.** A difference may turn into a product, and a product into a
power, so they weigh less in this order. -/
def Op.weight : Op → Nat
  | sub => 3
  | mul => 2
  | add | div | pow | sin | cos | tan | exp | ln => 1

theorem Op.weight_pos (op : Op) : 0 < op.weight := by
  cases op <;> decide

namespace Expr

mutual

/-- **The weight of an expression**: one for every number, every list, and every symbol that names
no operator, and for every other symbol the weight of the operator. -/
def weight : Expr → Nat
  | number _ => 1
  | symbol name => (Op.ofSymbol? name).elim 1 Op.weight
  | list es => weightList es + 1

/-- The weight of some expressions. -/
def weightList : List Expr → Nat
  | [] => 0
  | e :: es => e.weight + weightList es

end

@[simp] theorem weight_number (x : Float) : (number x).weight = 1 := by
  rw [weight]

@[simp] theorem weight_symbol (op : Op) : (symbol op.symbol).weight = op.weight := by
  rw [weight, Op.ofSymbol?_symbol, Option.elim_some]

@[simp] theorem weight_binary (op : Op) (a b : Expr) :
    (binary op a b).weight = op.weight + a.weight + b.weight + 1 := by
  rw [binary, weight, weightList, weightList, weightList, weightList, weight_symbol]
  omega

theorem weightList_append (es es' : List Expr) :
    weightList (es ++ es') = weightList es + weightList es' := by
  induction es with
  | nil => rw [List.nil_append, weightList, Nat.zero_add]
  | cons e es ih => rw [List.cons_append, weightList, weightList, ih, Nat.add_assoc]

theorem weight_pos (e : Expr) : 0 < e.weight := by
  cases e with
  | number x => rw [weight_number]; exact Nat.one_pos
  | symbol name =>
    rw [weight]
    cases Op.ofSymbol? name with
    | none => exact Nat.one_pos
    | some op => exact op.weight_pos
  | list es => rw [weight]; exact Nat.succ_pos _

/-- An application is heavier than a number. -/
theorem weight_number_lt_weight_binary (x : Float) (op : Op) (a b : Expr) :
    (number x).weight < (binary op a b).weight := by
  have ha := a.weight_pos
  rw [weight_number, weight_binary]
  omega

end Expr

variable {arith : Arithmetic}

/-- **Every identity lowers the weight.** In the place of an application there is an operand, a
number, or an application of a lighter operator. -/
theorem Step.Identity.weight_lt {step : Step} {a b : Expr} (h : step.Identity arith a b) :
    b.weight < a.weight := by
  cases h with
  | addZeroLeft _ | addZeroRight _ | subtractZero _ | multiplyOneLeft _ | multiplyOneRight _
  | divideOne _ | powerOne _ =>
    rw [Expr.weight_binary]
    omega
  | multiplyZero _ | divideEqual _ | powerZero _ | foldConstants _ _ =>
    exact Expr.weight_number_lt_weight_binary _ _ _ _
  | @subtractFromZero a b _ =>
    -- the zero is as heavy as the `-1` that takes its place, and only the operator is lighter
    have ha := a.weight_pos
    have hsub : Op.mul.weight < Op.sub.weight := by decide
    rw [Expr.weight_binary, Expr.weight_binary, Expr.weight_number]
    omega
  | @squareEqualFactors a b _ =>
    -- the second factor may be as light as the exponent `2`
    have hb := b.weight_pos
    have hmul : Op.pow.weight < Op.mul.weight := by decide
    rw [Expr.weight_binary, Expr.weight_binary, Expr.weight_number]
    omega

namespace Expr

/-- **Every rewriting lowers the weight**, at the root or in an item. -/
theorem RewritesBy.weight_lt {step : Step} {a b : Expr} (h : RewritesBy arith step a b) :
    b.weight < a.weight := by
  induction h with
  | root h => exact h.weight_lt
  | item before after _ ih =>
    rw [weight, weight, weightList_append, weightList_append, weightList, weightList]
    omega

namespace RewriteChain

variable {steps : List Step} {a b : Expr}

/-- **A chain takes off at least one for every step.** -/
theorem weight_add_length_le (h : RewriteChain arith steps a b) :
    b.weight + steps.length ≤ a.weight := by
  induction h with
  | nil e => exact Nat.le_refl _
  | cons hstep _ ih =>
    have hlt := hstep.weight_lt
    rw [List.length_cons]
    omega

/-- A chain that comes back to where it started has no step. -/
theorem eq_nil_of_cycle (h : RewriteChain arith steps a a) : steps = [] := by
  have hle := h.weight_add_length_le
  exact List.eq_nil_of_length_eq_zero (by omega)

/-- A chain without a step stays where it is. -/
theorem eq_of_nil (h : RewriteChain arith [] a b) : b = a := by
  cases h
  rfl

end RewriteChain

/-- **A step is recorded if and only if something changes.** The record of a run that succeeds is
empty exactly if its result is the expression itself, down to the bits of every number. No list of
steps, other than the empty one, can be a record that leads from an expression back to it. -/
theorem record_empty_iff_unchanged (arith : Arithmetic) (e s : Expr)
    (h : (e.simplify arith).outcome = .ok s) :
    ((e.simplify arith).steps = [] ↔ s = e) ∧
      ∀ t steps, RewriteChain arith steps t t → steps = [] := by
  have hchain : RewriteChain arith (e.simplify arith).steps e s := by
    obtain ⟨s', hchain, hend⟩ := chain_simplify arith e
    rw [h] at hend
    obtain rfl : s = s' := hend
    exact hchain
  refine ⟨⟨fun hsteps => ?_, fun hs => ?_⟩, fun t steps hcycle => hcycle.eq_nil_of_cycle⟩
  · rw [hsteps] at hchain
    exact hchain.eq_of_nil
  · rw [hs] at hchain
    exact hchain.eq_nil_of_cycle

/-- A difference from zero is replaced by a product with as many symbols, and this is a change. -/
theorem record_empty_iff_unchanged_of_difference :
    let e := binary .sub (number 0) (symbol "x")
    let s := binary .mul (number (-1)) (symbol "x")
    (e.simplify .squaring).outcome = .ok s ∧
      ((e.simplify .squaring).steps = [] ↔ s = e) ∧
      ∀ t steps, RewriteChain .squaring steps t t → steps = [] := by
  intro e s
  have h : (e.simplify .squaring).outcome = .ok s := by decide +kernel
  exact ⟨h, record_empty_iff_unchanged .squaring e s h⟩

end Expr

end FormalCalculus
