import FormalCalculus.Proofs.Expr.Height

/-!
# The order of a traversal

`Expr.depth` takes up the pending expressions in one particular order: the first one first, and its
items before everything that is pending already. Nothing depends on this. A `Traversal` is the state
of the same loop with the order left open: a turn takes up *any* of the pending expressions
(`Traversal.Turn`), and puts its items, one level further down, *anywhere* among the others.

Two numbers can be read off a state:

* `Traversal.outlook` — how deep the traversal will have got in the end: as deep as it is already,
  or as the pending expressions reach. A turn keeps it.
* `Traversal.remaining` — the number of nodes that are still to be taken up. A turn takes one off.

When nothing remains, the outlook is the level reached. So all orders come to the same end, after
the same number of turns. Main statement: `Expr.depth_in_any_order`.
-/

namespace FormalCalculus

open FormalCalculus.Expr

/-! ### What the pending expressions come to -/

namespace Expr

/-- A list is one higher than its highest item. -/
theorem height_list_eq_max {es : List Expr} (h : es ≠ []) :
    (list es).height = 1 + (es.map height).max (by simpa using h) := by
  have hmax : heightList es = (es.map height).max (by simpa using h) := by
    apply Nat.le_antisymm
    · refine heightList_le.2 fun e he => ?_
      exact (List.max_le_iff _).1 (Nat.le_refl _) e.height (List.mem_map_of_mem he)
    · refine (List.max_le_iff _).2 (List.forall_mem_map.2 fun e he => ?_)
      exact heightList_le.1 (Nat.le_refl _) e he
  rw [height, hmax, Nat.add_comm]

theorem nodeCount_pos (e : Expr) : 0 < e.nodeCount := by
  rw [nodeCount_eq_items]
  exact Nat.succ_pos _

theorem pendingCount_cons (e : Expr) (level : Nat) (ps : List (Expr × Nat)) :
    pendingCount ((e, level) :: ps) = e.nodeCount + pendingCount ps := by
  rw [pendingCount, List.map_cons, nodeCountList, pendingCount]

theorem pendingCount_append (ps qs : List (Expr × Nat)) :
    pendingCount (ps ++ qs) = pendingCount ps + pendingCount qs := by
  rw [pendingCount, List.map_append, nodeCountList_append, pendingCount, pendingCount]

theorem nodeCountList_perm {as bs : List Expr} (h : as.Perm bs) :
    nodeCountList as = nodeCountList bs := by
  induction h with
  | nil => rfl
  | cons a _ ih => rw [nodeCountList, nodeCountList, ih]
  | swap a b as =>
    simp only [nodeCountList]
    omega
  | trans _ _ ih₁ ih₂ => exact ih₁.trans ih₂

/-! Neither how many nodes are pending nor how deep they reach depends on the order. -/

theorem pendingCount_perm {ps qs : List (Expr × Nat)} (h : ps.Perm qs) :
    pendingCount ps = pendingCount qs :=
  nodeCountList_perm (h.map Prod.fst)

theorem reach_perm {ps qs : List (Expr × Nat)} (h : ps.Perm qs) : reach ps = reach qs := by
  induction h with
  | nil => rfl
  | cons p _ ih => rw [reach, reach, ih]
  | swap p q ps =>
    simp only [reach]
    omega
  | trans _ _ ih₁ ih₂ => exact ih₁.trans ih₂

end Expr

/-! ### Traversals -/

/-- The state of a traversal. -/
structure Traversal where
  /-- The deepest level at which an expression was taken up. -/
  reached : Nat
  /-- The expressions still to be taken up, each with the level at which it stands. -/
  pending : List (Expr × Nat)

namespace Traversal

/-- The beginning of a traversal: only the expression itself is pending. -/
def start (e : Expr) : Traversal := ⟨0, [(e, 1)]⟩

/-- The items of an expression as they become pending, one level further down. -/
def below (e : Expr) (level : Nat) : List (Expr × Nat) := e.items.map fun item => (item, level + 1)

theorem pendingCount_below (e : Expr) (level : Nat) :
    pendingCount (below e level) = nodeCountList e.items := by
  rw [pendingCount, below, List.map_map]
  exact congrArg nodeCountList (List.map_id e.items)

/-- **A turn.** Some pending expression is taken up, wherever it stands: its level counts, and its
items join what else is pending, in any order. -/
inductive Turn : Traversal → Traversal → Prop
  | takeUp (reached level : Nat) (e : Expr) (before after pending : List (Expr × Nat))
      (hpending : pending.Perm (below e level ++ (before ++ after))) :
      Turn ⟨reached, before ++ (e, level) :: after⟩ ⟨max reached level, pending⟩

/-- **Several turns**, with their number. -/
inductive Turns : Nat → Traversal → Traversal → Prop
  | none (t : Traversal) : Turns 0 t t
  | more {n : Nat} {s t u : Traversal} (hturn : Turn s t) (hturns : Turns n t u) : Turns (n + 1) s u

/-! Two orders deserve a name: new items may go in front of the pending ones, to be taken up at
once, or behind them, the last pending expression being taken up first. -/

theorem Turn.first (reached level : Nat) (e : Expr) (pending : List (Expr × Nat)) :
    Turn ⟨reached, (e, level) :: pending⟩ ⟨max reached level, below e level ++ pending⟩ :=
  .takeUp reached level e [] pending _ (.refl _)

theorem Turn.last (reached level : Nat) (e : Expr) (pending : List (Expr × Nat)) :
    Turn ⟨reached, pending ++ [(e, level)]⟩ ⟨max reached level, pending ++ below e level⟩ := by
  refine .takeUp reached level e pending [] _ ?_
  rw [List.append_nil]
  exact List.perm_append_comm

/-- **A traversal does not get stuck**: there is a turn as long as something is pending. -/
theorem exists_turn {t : Traversal} (h : t.pending ≠ []) : ∃ u, Turn t u := by
  obtain ⟨reached, pending⟩ := t
  obtain ⟨⟨e, level⟩, others, rfl⟩ := List.exists_cons_of_ne_nil h
  exact ⟨_, .first reached level e others⟩

/-! ### What a turn keeps, and what it uses up -/

/-- How deep a traversal will have got in the end. -/
def outlook (t : Traversal) : Nat := max t.reached (reach t.pending)

/-- The number of nodes that a traversal has still to take up. -/
def remaining (t : Traversal) : Nat := pendingCount t.pending

theorem outlook_start (e : Expr) : (start e).outlook = e.height := by simp [start, outlook, reach]

theorem remaining_start (e : Expr) : (start e).remaining = e.nodeCount := by
  rw [remaining, start, pendingCount_cons]
  rfl

theorem remaining_eq_zero {t : Traversal} : t.remaining = 0 ↔ t.pending = [] := by
  obtain ⟨reached, pending⟩ := t
  cases pending with
  | nil => exact iff_of_true rfl rfl
  | cons p pending =>
    have hpos := nodeCount_pos p.1
    have hcount : remaining ⟨reached, p :: pending⟩ = p.1.nodeCount + pendingCount pending :=
      pendingCount_cons p.1 p.2 pending
    refine iff_of_false ?_ (List.cons_ne_nil p pending)
    omega

/-- **A turn keeps the outlook**: an expression reaches as deep as its level and its items do. -/
theorem Turn.outlook_eq {s t : Traversal} (h : Turn s t) : t.outlook = s.outlook := by
  cases h with
  | takeUp reached level e before after pending hpending =>
    calc max (max reached level) (reach pending)
        = max (max reached level) (max (reach (below e level)) (reach (before ++ after))) := by
          rw [reach_perm hpending, reach_append]
      _ = max reached (max (max level (reach (below e level))) (reach (before ++ after))) := by
          omega
      _ = max reached (max (e.height + level - 1) (reach (before ++ after))) := by
          -- level and items are all that `e` contributed while it was pending
          rw [below, max_reach_items]
      _ = max reached (reach (before ++ (e, level) :: after)) := by
          rw [reach_append, reach_append, reach]
          omega

/-- **A turn takes up one node**: what becomes pending for it are all its other nodes. -/
theorem Turn.remaining_eq {s t : Traversal} (h : Turn s t) : s.remaining = t.remaining + 1 := by
  cases h with
  | takeUp reached level e before after pending hpending =>
    calc pendingCount (before ++ (e, level) :: after)
        = e.nodeCount + pendingCount (before ++ after) := by
          rw [pendingCount_append, pendingCount_append, pendingCount_cons]
          omega
      _ = pendingCount (below e level) + 1 + pendingCount (before ++ after) := by
          rw [nodeCount_eq_items, pendingCount_below]
      _ = pendingCount pending + 1 := by
          rw [pendingCount_perm hpending, pendingCount_append (below e level), Nat.add_right_comm]

/-- **What any number of turns keep and use up.** -/
theorem Turns.invariant {n : Nat} {s t : Traversal} (h : Turns n s t) :
    t.outlook = s.outlook ∧ s.remaining = t.remaining + n := by
  induction h with
  | none t => exact ⟨rfl, rfl⟩
  | more hturn _ ih =>
    have hremaining := hturn.remaining_eq
    exact ⟨ih.1.trans hturn.outlook_eq, by omega⟩

/-! ### The order of `Expr.depth` -/

/-- The loop of `Expr.depth` is a traversal that goes on until nothing is pending. -/
theorem turns_deepestLevel (reached : Nat) (pending : List (Expr × Nat)) :
    Turns (pendingCount pending) ⟨reached, pending⟩ ⟨deepestLevel reached pending, []⟩ := by
  induction reached, pending using deepestLevel.induct with
  | case1 reached =>
    rw [deepestLevel]
    exact .none _
  | case2 reached e level pending ih =>
    have hturn := Turn.first reached level e pending
    have hcount : pendingCount ((e, level) :: pending) =
        pendingCount (below e level ++ pending) + 1 := hturn.remaining_eq
    rw [deepestLevel, hcount]
    exact .more hturn ih

end Traversal

/-! ### Every order -/

namespace Expr

open Traversal

/-- **The depth in any order.** Whichever pending expression is taken up next, and wherever its
items are put, a traversal of `e` goes on as long as something is pending, ends after as many turns
as `e` has nodes and not before, and has then reached the depth of `e`. The order of `Expr.depth` is
one of them. The depth is one for a number, a symbol and an empty list; for any other list it is one
more than the largest depth of the items, the head included. -/
theorem depth_in_any_order (e : Expr) :
    (∀ n t, Turns n (start e) t →
      n ≤ e.nodeCount ∧ (t.pending = [] ↔ n = e.nodeCount) ∧ (t.pending ≠ [] → ∃ u, Turn t u) ∧
        (t.pending = [] → t.reached = e.depth)) ∧
    Turns e.nodeCount (start e) ⟨e.depth, []⟩ ∧
    e.depth =
      match e with
      | .list (a :: as) => 1 + ((a :: as).map depth).max (by simp)
      | .list [] | .number _ | .symbol _ => 1 := by
  refine ⟨fun n t hturns => ?_, ?_, ?_⟩
  · obtain ⟨houtlook, hremaining⟩ := hturns.invariant
    rw [outlook_start] at houtlook
    rw [remaining_start] at hremaining
    refine ⟨by omega, ?_, exists_turn, fun hdone => ?_⟩
    · rw [← remaining_eq_zero]
      omega
    · -- nothing is pending, so the outlook is the level reached
      rw [depth_eq_height, ← houtlook, outlook, hdone, reach, Nat.max_zero]
  · rw [← remaining_start]
    exact turns_deepestLevel 0 [(e, 1)]
  · have hdepth : depth = height := funext depth_eq_height
    rw [hdepth]
    split
    · exact height_list_eq_max (List.cons_ne_nil _ _)
    all_goals rfl

/-- The sine of a logarithm, the last pending expression being taken up first: five nodes, five
turns, depth three. -/
theorem depth_in_any_order_of_sine :
    let a := unary .ln (symbol "x")
    let e := unary .sin a
    Turns 5 (start e) ⟨3, []⟩ ∧ e.nodeCount = 5 ∧ e.depth = 3 := by
  intro a e
  have hturns : Turns 5 (start e) ⟨3, []⟩ :=
    .more (.last 0 1 e []) <| .more (.last 1 2 a [(symbol "sin", 2)]) <|
      .more (.last 2 3 (symbol "x") [(symbol "sin", 2), (symbol "ln", 3)]) <|
        .more (.last 3 3 (symbol "ln") [(symbol "sin", 2)]) <|
          .more (.last 3 2 (symbol "sin") []) (.none _)
  obtain ⟨-, hnodes, -, hreached⟩ := (depth_in_any_order e).1 5 _ hturns
  exact ⟨hturns, (hnodes.1 rfl).symm, (hreached rfl).symm⟩

end Expr

end FormalCalculus
