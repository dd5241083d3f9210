import FormalCalculus.Proofs.Simplify.Outcome

/-!
# The first denominator that is zero

A run of simplification comes by the subterms of an expression in post-order
(`Expr.postorder`): the items of a list from left to right, its head included, and then the list
itself. At every list the rules are tried once, on the simplified items. There they record steps, or
the run ends, because the list has become a quotient by zero (`Expr.DividesByZero`).

So a run *follows* its row of subterms (`Traced.Follows`). Either no list on the row divides by zero,
and the record is what the rules record at one subterm after the other; or it is this up to the
first list that does, and the error shows the quotient. Rows are put together as runs are
(`Traced.Follows.bind`), the row of a list from those of its items and from the list itself
(`Expr.follows_simplifyItems`, `Expr.follows_simplifyRoot`).

Main statement: `Expr.simplify_reports_first_zero_denominator`.
-/

namespace FormalCalculus

/-- The steps that the rules record when they are tried on an expression; none if they decline or
fail. -/
def Rules.recorded (arith : Arithmetic) (e : Expr) : List Step :=
  match apply arith e with
  | .ok (some r) => r.steps
  | _ => []

namespace Expr

/-! ### Subterms in post-order -/

mutual

/-- **The subterms in post-order**: those of the items of a list, from left to right, and then the
list. -/
def postorder : Expr → List Expr
  | number x => [number x]
  | symbol name => [symbol name]
  | list es => postorderList es ++ [list es]

/-- The subterms of some expressions, those of the first one first. -/
def postorderList : List Expr → List Expr
  | [] => []
  | e :: es => e.postorder ++ postorderList es

end

theorem postorderList_perm {es : List Expr} (h : ∀ e ∈ es, e.postorder.Perm e.subterms) :
    (postorderList es).Perm (subtermsList es) := by
  induction es with
  | nil => exact .refl _
  | cons e es ih =>
    obtain ⟨he, hes⟩ := List.forall_mem_cons.1 h
    exact he.append (ih hes)

/-- **The post-order is an order of the subterms.** -/
theorem postorder_perm (e : Expr) : e.postorder.Perm e.subterms := by
  induction e using Expr.induction with
  | number x => exact .refl _
  | symbol name => exact .refl _
  | list es ih =>
    rw [postorder, subterms]
    exact (List.perm_append_singleton _ _).trans ((postorderList_perm ih).cons _)

/-! ### What is met at a subterm -/

/-- **A list divides by zero** if it has three items, and these are simplified to `/`, to a
numerator and to a denominator that is zero. -/
inductive DividesByZero (arith : Arithmetic) : Expr → Expr → Expr → Prop
  | intro {head num den a b : Expr} (hhead : head.SimplifiesTo arith (symbol "/"))
      (hnum : num.SimplifiesTo arith a) (hden : den.SimplifiesTo arith b)
      (hzero : b.isZero = true) : DividesByZero arith (list [head, num, den]) a b

/-- **What is recorded at a subterm**: at a list, what the rules record for its simplified items. -/
inductive RecordsAt (arith : Arithmetic) : Expr → List Step → Prop
  | number (x : Float) : RecordsAt arith (number x) []
  | symbol (name : String) : RecordsAt arith (symbol name) []
  | list {es es' : List Expr} (h : List.Forall₂ (SimplifiesTo arith) es es') :
      RecordsAt arith (list es) (Rules.recorded arith (list es'))

variable {arith : Arithmetic}

/-- A list divides by zero if what its items are simplified to is a quotient by zero. -/
theorem dividesByZero_list {es es' : List Expr} {a b : Expr}
    (h : List.Forall₂ (SimplifiesTo arith) es es') :
    DividesByZero arith (list es) a b ↔ list es' = binary .div a b ∧ b.isZero = true := by
  constructor
  · intro hzero
    cases hzero with
    | intro hhead hnum hden hb =>
      have hes' : List.Forall₂ (SimplifiesTo arith) _ [symbol "/", a, b] :=
        .cons hhead (.cons hnum (.cons hden .nil))
      rw [List.right_unique_forall₂' SimplifiesTo.unique h hes']
      exact ⟨rfl, hb⟩
  · rintro ⟨heq, hb⟩
    obtain rfl : es' = [symbol "/", a, b] := list.inj heq
    obtain _ | ⟨hhead, _ | ⟨hnum, _ | ⟨hden, _ | _⟩⟩⟩ := h
    exact .intro hhead hnum hden hb

end Expr

/-! ### Runs that follow a row of subterms -/

namespace Traced

open FormalCalculus.Expr (DividesByZero RecordsAt)

variable {arith : Arithmetic} {α β : Type}

/-- **A run follows a row of subterms.** -/
inductive Follows (arith : Arithmetic) : List Expr → Traced α → Prop
  /-- It comes to the end of the row, where no list divides by zero. -/
  | done {ts : List Expr} {records : List (List Step)} {steps : List Step} {a : α}
      (hclear : ∀ t ∈ ts, ∀ a b, ¬ DividesByZero arith t a b)
      (hrecords : List.Forall₂ (RecordsAt arith) ts records) (hsteps : steps = records.flatten) :
      Follows arith ts ⟨steps, .ok a⟩
  /-- It ends at the first list that divides by zero. -/
  | stopped {ts before after : List Expr} {t a b : Expr} {records : List (List Step)}
      {steps : List Step} (hrow : ts = before ++ t :: after)
      (hclear : ∀ t ∈ before, ∀ a b, ¬ DividesByZero arith t a b)
      (hrecords : List.Forall₂ (RecordsAt arith) before records) (hsteps : steps = records.flatten)
      (hzero : DividesByZero arith t a b) :
      Follows arith ts ⟨steps, .error ⟨.divisionByZero (Expr.binary .div a b).text, []⟩⟩

namespace Follows

theorem pure (a : α) : Follows arith [] (Traced.pure a) :=
  .done (by simp) .nil rfl

/-- **Runs one after the other follow one row after the other.** If the first run ends early, the
second row is not entered. -/
theorem bind {ts us : List Expr} {x : Traced α} {f : α → Traced β} (hx : Follows arith ts x)
    (hf : ∀ a, x.outcome = .ok a → Follows arith us (f a)) :
    Follows arith (ts ++ us) (x.bind f) := by
  cases hx with
  | @done records steps a hclear hrecords hsteps =>
    have hfa : Follows arith us (f a) := hf a rfl
    rw [bind_of_ok rfl]
    generalize f a = y at hfa
    cases hfa with
    | done hclear' hrecords' hsteps' =>
      refine .done (fun t ht => ?_) (List.rel_append hrecords hrecords') ?_
      · exact (List.mem_append.1 ht).elim (hclear t) (hclear' t)
      · rw [hsteps, hsteps', List.flatten_append]
    | @stopped before after t a b records' steps' hrow hclear' hrecords' hsteps' hzero =>
      have hrow' : ts ++ us = (ts ++ before) ++ t :: after := by rw [hrow, List.append_assoc]
      refine .stopped hrow' (fun t ht => ?_) (List.rel_append hrecords hrecords') ?_ hzero
      · exact (List.mem_append.1 ht).elim (hclear t) (hclear' t)
      · rw [hsteps, hsteps', List.flatten_append]
  | @stopped before after t a b records steps hrow hclear hrecords hsteps hzero =>
    have hrow' : ts ++ us = before ++ t :: (after ++ us) := by
      rw [hrow, List.append_assoc, List.cons_append]
    rw [bind_of_error rfl]
    exact .stopped hrow' hclear hrecords hsteps hzero

end Follows

end Traced

namespace Expr

variable {arith : Arithmetic}

open Traced (Follows)

/-- **The items of a list are simplified in post-order**, if each of them is. -/
theorem follows_simplifyItems {es : List Expr}
    (h : ∀ e ∈ es, Follows arith e.postorder (e.simplify arith)) :
    Follows arith (postorderList es) (simplifyItems arith es) := by
  induction es with
  | nil => exact .pure []
  | cons e es ih =>
    obtain ⟨he, hes⟩ := List.forall_mem_cons.1 h
    rw [postorderList, simplifyItems]
    refine he.bind fun e' _ => ?_
    rw [← List.append_nil (postorderList es)]
    exact (ih hes).bind fun es' _ => .pure _

/-- **At the root the rules are tried on the simplified items.** They fail if the list divides by
zero, and else what they record is what is recorded there. -/
theorem follows_simplifyRoot {es es' : List Expr}
    (h : List.Forall₂ (SimplifiesTo arith) es es') :
    Follows arith [list es] (simplifyRoot arith (list es')) := by
  have hrecord : RecordsAt arith (list es) (Rules.recorded arith (list es')) := .list h
  have hclear (hok : ∀ error, Rules.apply arith (list es') ≠ .error error) :
      ∀ t ∈ [list es], ∀ a b, ¬ DividesByZero arith t a b := by
    intro t ht a b hzero
    obtain rfl := List.mem_singleton.1 ht
    obtain ⟨heq, hb⟩ := (dividesByZero_list h).1 hzero
    exact hok _ (Rules.apply_error.2 ⟨a, b, heq, hb, rfl⟩)
  unfold Rules.recorded at hrecord
  unfold simplifyRoot
  cases hrules : Rules.apply arith (list es') with
  | error error =>
    obtain ⟨a, b, heq, hb, rfl⟩ := Rules.apply_error.1 hrules
    have hzero : DividesByZero arith (list es) a b := (dividesByZero_list h).2 ⟨heq, hb⟩
    exact .stopped (show [list es] = [] ++ list es :: [] from rfl) (by simp) .nil rfl hzero
  | ok offer =>
    rw [hrules] at hclear hrecord
    cases offer with
    | none => exact .done (hclear (by simp)) (.cons hrecord .nil) rfl
    | some r => exact .done (hclear (by simp)) (.cons hrecord .nil) List.flatten_singleton.symm

/-- **Simplification follows the post-order of the subterms**, by induction on the expression. -/
theorem follows_simplify (arith : Arithmetic) (e : Expr) :
    Follows arith e.postorder (e.simplify arith) := by
  induction e using Expr.induction with
  | number x =>
    -- nothing is recorded at a leaf, and a leaf is no list
    exact .done (List.forall_mem_singleton.2 fun _ _ => nofun) (.cons (.number x) .nil) rfl
  | symbol name =>
    exact .done (List.forall_mem_singleton.2 fun _ _ => nofun) (.cons (.symbol name) .nil) rfl
  | list es ih =>
    rw [postorder, simplify]
    refine (follows_simplifyItems ih).bind fun es' hes' => ?_
    exact follows_simplifyRoot (simplifyItems_eq_ok.1 hes')

/-- **Simplification fails exactly at a denominator that is simplified to zero, and reports the
first one.** It fails if and only if a subterm is a list of three items that are simplified to `/`,
to a numerator and to a zero. The error shows the quotient that the first of these lists, in
post-order, has become, and it has no span. The record is put together from what the rules have
recorded at the subterms before this list, one after the other. -/
theorem simplify_reports_first_zero_denominator (arith : Arithmetic) (e : Expr) :
    ((∃ error, (e.simplify arith).outcome = .error error) ↔
        ∃ t ∈ e.subterms, ∃ a b, DividesByZero arith t a b) ∧
      (∀ error, (e.simplify arith).outcome = .error error →
        ∃ before t after a b records, e.postorder = before ++ t :: after ∧
          (∀ u ∈ before, ∀ a b, ¬ DividesByZero arith u a b) ∧ DividesByZero arith t a b ∧
          error = ⟨.divisionByZero (binary .div a b).text, []⟩ ∧
          List.Forall₂ (RecordsAt arith) before records ∧
          (e.simplify arith).steps = records.flatten) ∧
      e.postorder.Perm e.subterms := by
  have hfollows := follows_simplify arith e
  have hmem (t : Expr) : t ∈ e.subterms ↔ t ∈ e.postorder := (postorder_perm e).mem_iff.symm
  refine ⟨?fails, ?reports, postorder_perm e⟩
  case fails =>
    simp only [hmem]
    generalize e.postorder = ts, e.simplify arith = x at hfollows
    cases hfollows with
    | done hclear _ _ =>
      constructor
      · rintro ⟨error, herror⟩
        cases herror
      · rintro ⟨t, ht, a, b, hzero⟩
        exact absurd hzero (hclear t ht a b)
    | @stopped before after t a b _ _ hrow _ _ _ hzero =>
      have ht : t ∈ ts := hrow ▸ List.mem_append_right _ List.mem_cons_self
      exact ⟨fun _ => ⟨t, ht, a, b, hzero⟩, fun _ => ⟨_, rfl⟩⟩
  case reports =>
    intro error herror
    generalize e.postorder = ts, e.simplify arith = x at hfollows herror
    cases hfollows with
    | done _ _ _ => cases herror
    | @stopped before after t a b records _ hrow hclear hrecords hsteps hzero =>
      obtain rfl := Except.error.inj herror
      exact ⟨before, t, after, a, b, records, hrow, hclear, hzero, rfl, hrecords, hsteps⟩

/-- What is recorded before a failure is kept, and what comes later is not looked at. -/
example :
    let e := list [symbol "f", binary .add (number 0) (symbol "x"),
      binary .div (binary .mul (number 1) (symbol "x")) (binary .sub (number 2) (number 2)),
      binary .div (symbol "y") (number 0)]
    (e.simplify .platform).steps = [.addZero, .multiplyOne, .foldConstants .sub] ∧
      (e.simplify .platform).outcome = .error ⟨.divisionByZero "(/ x 0)", []⟩ := by
  decide +kernel

end Expr

end FormalCalculus
