import FormalCalculus.Proofs.Expr.Equality
import FormalCalculus.Proofs.Simplify.Rules
import FormalCalculus.Simplify.Basic
import Mathlib.Data.List.Forall2

/-!
# Outcomes of simplification

Simplification threads a record of steps through the tree. For what comes out of it the record does
not matter, and it is read here as two statements about an expression:

* `e.SimplifiesTo arith s` — `e` is simplified to `s`. A list is simplified item by item, and the
  rules are tried on what results (`Expr.simplifiesTo_list`);
* `e.FailsToSimplify arith` — the work on `e` ends in a failure: that of an item, or that of the
  rules at the root (`Expr.failsToSimplify_list`). The failure is always a division by zero
  (`Expr.cause_of_simplify_error`).

An expression does one or the other (`Expr.simplifiesTo_or_fails`). For the applications of
operators, whose heads are symbols and simplify to themselves, the two statements are spelled out
operand by operand.
-/

namespace FormalCalculus

variable {arith : Arithmetic}

namespace Traced

variable {α β : Type}

theorem bind_of_ok {x : Traced α} {a : α} (h : x.outcome = .ok a) (f : α → Traced β) :
    x.bind f = ⟨x.steps ++ (f a).steps, (f a).outcome⟩ := by
  rw [bind, h]

theorem bind_of_error {x : Traced α} {error : Error} (h : x.outcome = .error error)
    (f : α → Traced β) : x.bind f = ⟨x.steps, .error error⟩ := by
  rw [bind, h]

/-- Going on without a step changes the outcome only. -/
theorem bind_pure (x : Traced α) (f : α → β) :
    (x.bind fun a => pure (f a)) = ⟨x.steps, x.outcome.map f⟩ := by
  cases h : x.outcome with
  | ok a =>
    rw [bind_of_ok h]
    exact congrArg (Traced.mk · _) (List.append_nil _)
  | error error => rw [bind_of_error h]; rfl

/-- A computation goes on with a value or stops at an error. -/
theorem outcome_bind (x : Traced α) (f : α → Traced β) :
    (x.bind f).outcome = x.outcome.bind fun a => (f a).outcome := by
  cases h : x.outcome with
  | ok a => rw [bind_of_ok h]; rfl
  | error error => rw [bind_of_error h]; rfl

theorem outcome_bind_eq_ok {x : Traced α} {f : α → Traced β} {b : β} :
    (x.bind f).outcome = .ok b ↔ ∃ a, x.outcome = .ok a ∧ (f a).outcome = .ok b := by
  rw [outcome_bind]
  cases x.outcome <;> simp [Except.bind]

theorem outcome_bind_eq_error {x : Traced α} {f : α → Traced β} {error : Error} :
    (x.bind f).outcome = .error error ↔
      x.outcome = .error error ∨ ∃ a, x.outcome = .ok a ∧ (f a).outcome = .error error := by
  rw [outcome_bind]
  cases x.outcome <;> simp [Except.bind]

end Traced

namespace Expr

/-- An expression is simplified to another. -/
def SimplifiesTo (arith : Arithmetic) (e s : Expr) : Prop := (e.simplify arith).outcome = .ok s

/-- The simplification of an expression ends in a failure. -/
def FailsToSimplify (arith : Arithmetic) (e : Expr) : Prop :=
  ∃ error, (e.simplify arith).outcome = .error error

theorem SimplifiesTo.unique : Relator.RightUnique (SimplifiesTo arith) :=
  fun _ _ _ h h' => Except.ok.inj (h.symm.trans h')

theorem SimplifiesTo.not_fails {e s : Expr} (h : e.SimplifiesTo arith s) :
    ¬ e.FailsToSimplify arith := by
  rintro ⟨error, herror⟩
  rw [show (e.simplify arith).outcome = .ok s from h] at herror
  cases herror

theorem simplifiesTo_or_fails (arith : Arithmetic) (e : Expr) :
    (∃ s, e.SimplifiesTo arith s) ∨ e.FailsToSimplify arith := by
  unfold SimplifiesTo FailsToSimplify
  cases (e.simplify arith).outcome with
  | ok s => exact Or.inl ⟨s, rfl⟩
  | error error => exact Or.inr ⟨error, rfl⟩

/-! ### Leaves -/

@[simp] theorem simplifiesTo_number {x : Float} {s : Expr} :
    (number x).SimplifiesTo arith s ↔ s = number x := by
  simp [SimplifiesTo, simplify, Traced.pure, eq_comm]

@[simp] theorem simplifiesTo_symbol {name : String} {s : Expr} :
    (symbol name).SimplifiesTo arith s ↔ s = symbol name := by
  simp [SimplifiesTo, simplify, Traced.pure, eq_comm]

@[simp] theorem not_failsToSimplify_number {x : Float} :
    ¬ (number x).FailsToSimplify arith :=
  SimplifiesTo.not_fails (simplifiesTo_number.2 rfl)

@[simp] theorem not_failsToSimplify_symbol {name : String} :
    ¬ (symbol name).FailsToSimplify arith :=
  SimplifiesTo.not_fails (simplifiesTo_symbol.2 rfl)

/-! ### Lists -/

/-- Items are simplified one by one. -/
theorem simplifyItems_eq_ok {es es' : List Expr} :
    (simplifyItems arith es).outcome = .ok es' ↔ List.Forall₂ (SimplifiesTo arith) es es' := by
  induction es generalizing es' with
  | nil => simp [simplifyItems, Traced.pure, eq_comm]
  | cons e es ih =>
    simp only [simplifyItems, Traced.outcome_bind_eq_ok, ih, List.forall₂_cons_left_iff]
    simp only [Traced.pure, Except.ok.injEq, SimplifiesTo, eq_comm]
    grind

theorem simplifyItems_eq_error {es : List Expr} {error : Error}
    (h : (simplifyItems arith es).outcome = .error error) :
    ∃ e ∈ es, (e.simplify arith).outcome = .error error := by
  induction es with
  | nil => cases h
  | cons e es ih =>
    rw [simplifyItems, Traced.outcome_bind_eq_error] at h
    obtain h | ⟨e', -, h⟩ := h
    · exact ⟨e, List.mem_cons_self, h⟩
    · obtain h | ⟨es', -, h⟩ := Traced.outcome_bind_eq_error.1 h
      · obtain ⟨e, he, h⟩ := ih h
        exact ⟨e, List.mem_cons_of_mem _ he, h⟩
      · cases h

/-- The rules at the root give what they offer, or the expression itself. -/
theorem simplifyRoot_eq_ok {e s : Expr} :
    (simplifyRoot arith e).outcome = .ok s ↔ Rules.apply arith e = .ok none ∧ s = e ∨
      ∃ r, Rules.apply arith e = .ok (some r) ∧ s = r.result := by
  unfold simplifyRoot
  cases Rules.apply arith e with
  | error error => simp
  | ok offer => cases offer <;> simp [Traced.pure, eq_comm]

theorem simplifyRoot_eq_error {e : Expr} {error : Error} :
    (simplifyRoot arith e).outcome = .error error ↔ Rules.apply arith e = .error error := by
  unfold simplifyRoot
  cases Rules.apply arith e with
  | error error => simp
  | ok offer => cases offer <;> simp [Traced.pure]

/-- **Simplifying a list**: its items first, then what the rules offer on the outcome. -/
theorem simplifiesTo_list {es : List Expr} {s : Expr} :
    (list es).SimplifiesTo arith s ↔ ∃ es', List.Forall₂ (SimplifiesTo arith) es es' ∧
      (Rules.apply arith (list es') = .ok none ∧ s = list es' ∨
        ∃ r, Rules.apply arith (list es') = .ok (some r) ∧ s = r.result) := by
  simp only [SimplifiesTo, simplify, Traced.outcome_bind_eq_ok, simplifyItems_eq_ok,
    simplifyRoot_eq_ok]

/-- **Induction on a simplification.** A leaf stays as it is; a list is proved from its items and
what these are simplified to, both where it is kept and where a rule rewrites it. -/
theorem SimplifiesTo.induction {motive : Expr → Expr → Prop}
    (number : ∀ x, motive (number x) (number x))
    (symbol : ∀ name, motive (symbol name) (symbol name))
    (kept : ∀ es es', List.Forall₂ motive es es' → Rules.apply arith (list es') = .ok none →
      motive (list es) (list es'))
    (rewritten : ∀ es op a b r, List.Forall₂ motive es [Expr.symbol op.symbol, a, b] →
      Rules.Fires arith op a b r → motive (list es) r.result)
    {e s : Expr} (h : e.SimplifiesTo arith s) : motive e s := by
  induction e using Expr.induction generalizing s with
  | number x =>
    obtain rfl := simplifiesTo_number.1 h
    exact number x
  | symbol name =>
    obtain rfl := simplifiesTo_symbol.1 h
    exact symbol name
  | list es ih =>
    obtain ⟨es', hes, hroot⟩ := simplifiesTo_list.1 h
    -- item by item, what is simplified is also what the motive holds of
    have hitems : List.Forall₂ motive es es' :=
      ((List.forall₂_and_left (p := fun e => ∀ s, e.SimplifiesTo arith s → motive e s) es es').2
        ⟨fun e he s hs => ih e he hs, hes⟩).imp fun e s h => h.1 s h.2
    obtain ⟨hnone, rfl⟩ | ⟨r, hsome, rfl⟩ := hroot
    · exact kept es es' hitems hnone
    · obtain ⟨op, a, b, heq, hfires⟩ := Rules.apply_some hsome
      obtain rfl : es' = [Expr.symbol op.symbol, a, b] := list.inj heq
      exact rewritten es op a b r hitems hfires

theorem simplify_list_eq_error {es : List Expr} {error : Error}
    (h : ((list es).simplify arith).outcome = .error error) :
    (∃ e ∈ es, (e.simplify arith).outcome = .error error) ∨
      ∃ es', List.Forall₂ (SimplifiesTo arith) es es' ∧
        Rules.apply arith (list es') = .error error := by
  rw [simplify, Traced.outcome_bind_eq_error] at h
  obtain h | ⟨es', hes, h⟩ := h
  · exact Or.inl (simplifyItems_eq_error h)
  · exact Or.inr ⟨es', simplifyItems_eq_ok.1 hes, simplifyRoot_eq_error.1 h⟩

/-- **Failing on a list**: on one of its items, or at the root. -/
theorem failsToSimplify_list {es : List Expr} :
    (list es).FailsToSimplify arith ↔ (∃ e ∈ es, e.FailsToSimplify arith) ∨
      ∃ es', List.Forall₂ (SimplifiesTo arith) es es' ∧
        ∃ error, Rules.apply arith (list es') = .error error := by
  constructor
  · rintro ⟨error, h⟩
    obtain ⟨e, he, h⟩ | ⟨es', hes, h⟩ := simplify_list_eq_error h
    · exact Or.inl ⟨e, he, error, h⟩
    · exact Or.inr ⟨es', hes, error, h⟩
  · intro h
    -- were the list simplified, all its items would be, and the rules would not fail
    refine (simplifiesTo_or_fails arith (list es)).resolve_left ?_
    rintro ⟨s, hs⟩
    obtain ⟨es', hes, hroot⟩ := simplifiesTo_list.1 hs
    obtain ⟨e, he, hfails⟩ | ⟨es'', hes', error, herror⟩ := h
    · obtain ⟨s, -, hs⟩ := exists_partner hes he
      exact hs.not_fails hfails
    · obtain rfl := List.right_unique_forall₂' SimplifiesTo.unique hes hes'
      rw [herror] at hroot
      simp at hroot

/-- **Every failure is a division by zero.** -/
theorem cause_of_simplify_error {e : Expr} {error : Error}
    (h : (e.simplify arith).outcome = .error error) :
    ∃ quotient, error = ⟨.divisionByZero quotient, []⟩ := by
  induction e using Expr.induction with
  | number x => cases h
  | symbol name => cases h
  | list es ih =>
    obtain ⟨e, he, h⟩ | ⟨es', -, h⟩ := simplify_list_eq_error h
    · exact ih e he h
    · -- at the root, only a denominator is ever refused
      obtain ⟨a, b, -, -, rfl⟩ := Rules.apply_error.1 h
      exact ⟨_, rfl⟩

/-! ### Applications of operators -/

theorem forall₂_unary {op : Op} {a : Expr} {es' : List Expr} :
    List.Forall₂ (SimplifiesTo arith) [symbol op.symbol, a] es' ↔
      ∃ a', a.SimplifiesTo arith a' ∧ es' = [symbol op.symbol, a'] := by
  simp [List.forall₂_cons_left_iff]

theorem forall₂_binary {op : Op} {a b : Expr} {es' : List Expr} :
    List.Forall₂ (SimplifiesTo arith) [symbol op.symbol, a, b] es' ↔
      ∃ a' b', a.SimplifiesTo arith a' ∧ b.SimplifiesTo arith b' ∧
        es' = [symbol op.symbol, a', b'] := by
  simp [List.forall₂_cons_left_iff]
  grind

/-- No rule is about a unary application. -/
theorem simplifiesTo_unary {op : Op} {a s : Expr} :
    (unary op a).SimplifiesTo arith s ↔ ∃ a', a.SimplifiesTo arith a' ∧ s = unary op a' := by
  rw [unary, simplifiesTo_list]
  simp only [forall₂_unary]
  constructor
  · rintro ⟨es', ⟨a', ha, rfl⟩, ⟨-, rfl⟩ | ⟨r, hr, -⟩⟩
    · exact ⟨a', ha, rfl⟩
    · cases hr
  · rintro ⟨a', ha, rfl⟩
    exact ⟨_, ⟨a', ha, rfl⟩, Or.inl ⟨rfl, rfl⟩⟩

theorem simplifiesTo_binary {op : Op} {a b s : Expr} :
    (binary op a b).SimplifiesTo arith s ↔
      ∃ a' b', a.SimplifiesTo arith a' ∧ b.SimplifiesTo arith b' ∧
        (Rules.ofOp arith op a' b' = .ok none ∧ s = binary op a' b' ∨
          ∃ r, Rules.ofOp arith op a' b' = .ok (some r) ∧ s = r.result) := by
  rw [binary, simplifiesTo_list]
  simp only [forall₂_binary, ← Rules.apply_binary]
  constructor
  · rintro ⟨es', ⟨a', b', ha, hb, rfl⟩, hroot⟩
    exact ⟨a', b', ha, hb, hroot⟩
  · rintro ⟨a', b', ha, hb, hroot⟩
    exact ⟨_, ⟨a', b', ha, hb, rfl⟩, hroot⟩

theorem failsToSimplify_unary {op : Op} {a : Expr} :
    (unary op a).FailsToSimplify arith ↔ a.FailsToSimplify arith := by
  rw [unary, failsToSimplify_list]
  simp only [forall₂_unary]
  constructor
  · rintro (⟨e, he, hfails⟩ | ⟨es', ⟨a', ha, rfl⟩, error, herror⟩)
    · simp only [List.mem_cons, List.not_mem_nil, or_false] at he
      obtain rfl | rfl := he
      · exact absurd hfails not_failsToSimplify_symbol
      · exact hfails
    · cases herror
  · intro hfails
    exact Or.inl ⟨a, by simp, hfails⟩

/-- A binary application fails with an operand, or as a quotient whose denominator is simplified to
zero. -/
theorem failsToSimplify_binary {op : Op} {a b : Expr} :
    (binary op a b).FailsToSimplify arith ↔
      a.FailsToSimplify arith ∨ b.FailsToSimplify arith ∨
        op = .div ∧ ∃ b', b.SimplifiesTo arith b' ∧ b'.isZero = true := by
  rw [binary, failsToSimplify_list]
  simp only [forall₂_binary]
  constructor
  · rintro (⟨e, he, hfails⟩ | ⟨es', ⟨a', b', ha, hb, rfl⟩, error, herror⟩)
    · simp only [List.mem_cons, List.not_mem_nil, or_false] at he
      obtain rfl | rfl | rfl := he
      · exact absurd hfails not_failsToSimplify_symbol
      · exact Or.inl hfails
      · exact Or.inr (Or.inl hfails)
    · rw [← binary, Rules.apply_binary] at herror
      obtain ⟨rfl, hzero, -⟩ := Rules.ofOp_error.1 herror
      exact Or.inr (Or.inr ⟨rfl, b', hb, hzero⟩)
  · rintro (hfails | hfails | ⟨rfl, b', hb, hzero⟩)
    · exact Or.inl ⟨a, by simp, hfails⟩
    · exact Or.inl ⟨b, by simp, hfails⟩
    · -- the numerator is looked at first, and may fail before the denominator does
      obtain ⟨a', ha⟩ | hfails := simplifiesTo_or_fails arith a
      · refine Or.inr ⟨_, ⟨a', b', ha, hb, rfl⟩, ⟨.divisionByZero (binary .div a' b').text, []⟩, ?_⟩
        exact (Rules.apply_binary ..).trans (Rules.ofOp_error.2 ⟨rfl, hzero, rfl⟩)
      · exact Or.inl ⟨a, by simp, hfails⟩

end Expr

end FormalCalculus
