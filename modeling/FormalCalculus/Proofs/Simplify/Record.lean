import FormalCalculus.Proofs.Simplify.Outcome

/-!
# The record of a run is a derivation

A run of simplification leaves a record of the identities it has used, and nothing about where it
has used them. Here the record is taken at its word, without looking at the functions that made it:

* `Step.Identity` — the identity that a step names, as a relation between two expressions;
* `Expr.RewritesBy` — one subterm is rewritten by the identity of a step, the rest is as before;
* `Expr.RewriteChain` — a list of steps, one such rewriting after the other.

A record leads from the expression to the outcome of the run in this sense. No step is recorded
for a rule that declines, none is missing where a rule fires inside another, and none is out of
order: items are rewritten from left to right, each in a list whose earlier items are simplified
and whose later items are still as they were. So the record of a run that fails makes sense, too. It
leads to an expression that contains the quotient by zero that the error shows.

Main statement: `Expr.record_leads_to_outcome`, from what the rules record at a root
(`Rules.Fires.chain`, `Expr.chain_simplifyRoot`) and what is recorded in the items of a list
(`Expr.chain_simplifyItems`).
-/

namespace FormalCalculus

/-- **The identities of the steps.** Zeros and ones are recognised as arithmetic compares, and so
are equal operands. A value of constants is a finite number. -/
inductive Step.Identity (arith : Arithmetic) : Step → Expr → Expr → Prop
  | addZeroLeft {a b : Expr} (ha : a.isZero = true) : Identity arith .addZero (.binary .add a b) b
  | addZeroRight {a b : Expr} (hb : b.isZero = true) : Identity arith .addZero (.binary .add a b) a
  | subtractZero {a b : Expr} (hb : b.isZero = true) :
      Identity arith .subtractZero (.binary .sub a b) a
  | subtractFromZero {a b : Expr} (ha : a.isZero = true) :
      Identity arith .subtractFromZero (.binary .sub a b) (.binary .mul (.number (-1)) b)
  | multiplyZero {a b : Expr} (h : a.isZero = true ∨ b.isZero = true) :
      Identity arith .multiplyZero (.binary .mul a b) (.number 0)
  | multiplyOneLeft {a b : Expr} (ha : a.isOne = true) :
      Identity arith .multiplyOne (.binary .mul a b) b
  | multiplyOneRight {a b : Expr} (hb : b.isOne = true) :
      Identity arith .multiplyOne (.binary .mul a b) a
  | squareEqualFactors {a b : Expr} (heq : a.equal b = true) :
      Identity arith .squareEqualFactors (.binary .mul a b) (.binary .pow a (.number 2))
  | divideOne {a b : Expr} (hb : b.isOne = true) : Identity arith .divideOne (.binary .div a b) a
  | divideEqual {a b : Expr} (heq : a.equal b = true) :
      Identity arith .divideEqual (.binary .div a b) (.number 1)
  | powerZero {a b : Expr} (hb : b.isZero = true) :
      Identity arith .powerZero (.binary .pow a b) (.number 1)
  | powerOne {a b : Expr} (hb : b.isOne = true) : Identity arith .powerOne (.binary .pow a b) a
  | foldConstants {op : Op} {x y z : Float} (hvalue : arith.apply op x y = some z)
      (hfinite : z.isFinite = true) :
      Identity arith (.foldConstants op) (.binary op (.number x) (.number y)) (.number z)

namespace Expr

/-- **One subterm is rewritten** by the identity of a step, at the root or in an item. -/
inductive RewritesBy (arith : Arithmetic) (step : Step) : Expr → Expr → Prop
  | root {a b : Expr} (h : step.Identity arith a b) : RewritesBy arith step a b
  | item (before after : List Expr) {a b : Expr} (h : RewritesBy arith step a b) :
      RewritesBy arith step (list (before ++ a :: after)) (list (before ++ b :: after))

/-- **A chain of rewritings**, one for every step of a list, in order. -/
inductive RewriteChain (arith : Arithmetic) : List Step → Expr → Expr → Prop
  | nil (e : Expr) : RewriteChain arith [] e e
  | cons {step : Step} {steps : List Step} {a b c : Expr} (h : RewritesBy arith step a b)
      (hrest : RewriteChain arith steps b c) : RewriteChain arith (step :: steps) a c

variable {arith : Arithmetic}

namespace RewriteChain

theorem single {step : Step} {a b : Expr} (h : step.Identity arith a b) :
    RewriteChain arith [step] a b :=
  .cons (.root h) (.nil b)

theorem append {steps steps' : List Step} {a b c : Expr} (h : RewriteChain arith steps a b)
    (h' : RewriteChain arith steps' b c) : RewriteChain arith (steps ++ steps') a c := by
  induction h with
  | nil e => exact h'
  | cons hstep _ ih => exact .cons hstep (ih h')

/-- A chain inside of an item is a chain in the whole list. -/
theorem item {steps : List Step} {a b : Expr} (h : RewriteChain arith steps a b)
    (before after : List Expr) :
    RewriteChain arith steps (list (before ++ a :: after)) (list (before ++ b :: after)) := by
  induction h with
  | nil e => exact .nil _
  | cons hstep _ ih => exact .cons (.item before after hstep) ih

end RewriteChain

end Expr

variable {arith : Arithmetic}

/-- **The steps of a rule lead to what it offers.** A difference from zero is first turned into a
product, and what the rules for products do with it follows. -/
theorem Rules.Fires.chain {op : Op} {a b : Expr} {r : Rewrite} (h : Fires arith op a b r) :
    Expr.RewriteChain arith r.steps (.binary op a b) r.result := by
  induction h with
  | addZeroLeft ha => exact .single (.addZeroLeft ha)
  | addZeroRight hb => exact .single (.addZeroRight hb)
  | subtractFromZero ha _ => exact .single (.subtractFromZero ha)
  | subtractFromZeroProduct ha _ ih => exact .cons (.root (.subtractFromZero ha)) ih
  | subtractZero hb => exact .single (.subtractZero hb)
  | multiplyZero h => exact .single (.multiplyZero h)
  | multiplyOneLeft ha => exact .single (.multiplyOneLeft ha)
  | multiplyOneRight hb => exact .single (.multiplyOneRight hb)
  | squareEqualFactors _ heq _ => exact .single (.squareEqualFactors heq)
  | divideOne hb => exact .single (.divideOne hb)
  | divideEqual _ heq => exact .single (.divideEqual heq)
  | powerZero hb => exact .single (.powerZero hb)
  | powerOne hb => exact .single (.powerOne hb)
  | foldConstants hfold =>
    obtain ⟨hvalue, hfinite⟩ := Option.filter_eq_some_iff.1 hfold
    exact .single (.foldConstants hvalue hfinite)

namespace Expr

/-- The error is about a quotient by zero that is a subterm. -/
def ShowsError (s : Expr) (error : Error) : Prop :=
  ∃ a b, binary .div a b ∈ s.subterms ∧ b.isZero = true ∧
    error = ⟨.divisionByZero (binary .div a b).text, []⟩

theorem ShowsError.of_item {s : Expr} {es : List Expr} {error : Error} (h : s.ShowsError error)
    (hs : s ∈ es) : (list es).ShowsError error := by
  obtain ⟨a, b, hmem, hb, herror⟩ := h
  exact ⟨a, b, mem_subterms_list.2 (Or.inr ⟨s, hs, hmem⟩), hb, herror⟩

/-- **What a run ends with**, if its record leads to `s`: with `s`, or with an error about it. -/
def EndsWith (s : Expr) : Except Error Expr → Prop
  | .ok s' => s' = s
  | .error error => s.ShowsError error

/-- The same of items: a run ends with all of them, or with an error about one. -/
def ItemsEndWith (ss : List Expr) : Except Error (List Expr) → Prop
  | .ok ss' => ss' = ss
  | .error error => ∃ s ∈ ss, s.ShowsError error

/-- What is recorded at a root leads to what the rules offer there. -/
theorem chain_simplifyRoot (arith : Arithmetic) (e : Expr) :
    ∃ s, RewriteChain arith (simplifyRoot arith e).steps e s ∧
      s.EndsWith (simplifyRoot arith e).outcome := by
  unfold simplifyRoot
  cases hrules : Rules.apply arith e with
  | error error =>
    -- nothing is recorded, and the quotient is the expression itself
    obtain ⟨a, b, rfl, hb, rfl⟩ := Rules.apply_error.1 hrules
    exact ⟨_, .nil _, a, b, mem_subterms_self _, hb, rfl⟩
  | ok offer =>
    cases offer with
    | none => exact ⟨e, .nil e, rfl⟩
    | some r =>
      obtain ⟨op, a, b, rfl, hfires⟩ := Rules.apply_some hrules
      exact ⟨r.result, hfires.chain, rfl⟩

/-- **What is recorded in the items of a list**, behind items that are done already, leads to a list
of items that are simplified up to the one that fails, if any does. -/
theorem chain_simplifyItems {es : List Expr}
    (h : ∀ e ∈ es, ∃ s, RewriteChain arith (e.simplify arith).steps e s ∧
      s.EndsWith (e.simplify arith).outcome) (before : List Expr) :
    ∃ ss, RewriteChain arith (simplifyItems arith es).steps (list (before ++ es))
        (list (before ++ ss)) ∧ ItemsEndWith ss (simplifyItems arith es).outcome := by
  induction es generalizing before with
  | nil => exact ⟨[], .nil _, rfl⟩
  | cons e es ih =>
    obtain ⟨s, hchain, hend⟩ := h e List.mem_cons_self
    have hitem := hchain.item before es
    rw [simplifyItems]
    cases he : (e.simplify arith).outcome with
    | error error =>
      -- the later items are left as they are
      rw [he] at hend
      rw [Traced.bind_of_error he]
      exact ⟨s :: es, hitem, s, List.mem_cons_self, hend⟩
    | ok e' =>
      rw [he] at hend
      obtain rfl : e' = s := hend
      -- the later items stand behind one more that is done
      obtain ⟨ss, hrest, hends⟩ := ih (fun e he => h e (List.mem_cons_of_mem _ he)) (before ++ [e'])
      rw [List.append_assoc, List.append_assoc] at hrest
      rw [Traced.bind_of_ok he, Traced.bind_pure]
      refine ⟨e' :: ss, hitem.append hrest, ?_⟩
      cases hes : (simplifyItems arith es).outcome with
      | ok es' =>
        rw [hes] at hends
        exact congrArg (e' :: ·) hends
      | error error =>
        rw [hes] at hends
        obtain ⟨s, hs, hshows⟩ := hends
        exact ⟨s, List.mem_cons_of_mem _ hs, hshows⟩

/-- **The record of a run leads to its end**, by induction on the expression: the records of the
items come first, and then that of the root. -/
theorem chain_simplify (arith : Arithmetic) (e : Expr) :
    ∃ s, RewriteChain arith (e.simplify arith).steps e s ∧
      s.EndsWith (e.simplify arith).outcome := by
  induction e using Expr.induction with
  | number x => exact ⟨_, .nil _, rfl⟩
  | symbol name => exact ⟨_, .nil _, rfl⟩
  | list es ih =>
    obtain ⟨ss, hchain, hends⟩ := chain_simplifyItems ih []
    rw [simplify]
    cases hes : (simplifyItems arith es).outcome with
    | error error =>
      rw [hes] at hends
      obtain ⟨s, hs, hshows⟩ := hends
      rw [Traced.bind_of_error hes]
      exact ⟨list ss, hchain, hshows.of_item hs⟩
    | ok es' =>
      rw [hes] at hends
      obtain rfl : es' = ss := hends
      obtain ⟨s, hroot, hend⟩ := chain_simplifyRoot arith (list es')
      rw [Traced.bind_of_ok hes]
      exact ⟨s, hchain.append hroot, hend⟩

/-- **The record is a derivation of the outcome.** There is a chain of rewritings that starts with
the expression and uses the recorded identities in order, each for one subterm. It ends with the
result of the run; and if the run fails, it ends with an expression in which the quotient by zero
stands that the error shows. -/
theorem record_leads_to_outcome (arith : Arithmetic) (e : Expr) :
    ∃ s, RewriteChain arith (e.simplify arith).steps e s ∧
      (∀ result, (e.simplify arith).outcome = .ok result → result = s) ∧
      ∀ error, (e.simplify arith).outcome = .error error →
        ∃ a b, binary .div a b ∈ s.subterms ∧ b.isZero = true ∧
          error = ⟨.divisionByZero (binary .div a b).text, []⟩ := by
  obtain ⟨s, hchain, hend⟩ := chain_simplify arith e
  refine ⟨s, hchain, fun result hresult => ?_, fun error herror => ?_⟩
  · rw [hresult] at hend
    exact hend
  · rw [herror] at hend
    exact hend

end Expr

end FormalCalculus
