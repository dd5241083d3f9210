import FormalCalculus.Expr.Depth
import FormalCalculus.Proofs.Expr.Subterm

/-!
# Depth and height

`Expr.depth` works through a list of pending expressions, `Expr.height` recurses. Both are the same
number (`Expr.depth_eq_height`): what the pending expressions still contribute is the largest of
their heights, each counted from the level at which the expression stands, and taking one up
replaces its contribution by those of its items.

The height of a list is bounded by bounding the heights of its items (`Expr.height_list_le`), and
that is the only way heights are bounded from here on.
-/

namespace FormalCalculus

namespace Expr

/-! ### Bounds on heights -/

theorem heightList_le {es : List Expr} {n : Nat} :
    heightList es ≤ n ↔ ∀ e ∈ es, e.height ≤ n := by
  induction es with
  | nil => simp [heightList]
  | cons e es ih => rw [heightList, Nat.max_le, ih, List.forall_mem_cons]

/-- A list is at most one higher than a bound on its items. -/
theorem height_list_le {es : List Expr} {n : Nat} :
    (list es).height ≤ n + 1 ↔ ∀ e ∈ es, e.height ≤ n := by
  rw [height, Nat.add_le_add_iff_right, heightList_le]

theorem height_pos (e : Expr) : 0 < e.height := by
  cases e <;> simp [height]

theorem height_lt_of_mem {e : Expr} {es : List Expr} (h : e ∈ es) :
    e.height < (list es).height :=
  Nat.lt_succ_of_le (heightList_le.1 (Nat.le_refl _) e h)

@[simp] theorem height_number (x : Float) : (number x).height = 1 := by rw [height]

@[simp] theorem height_symbol (name : String) : (symbol name).height = 1 := by rw [height]

@[simp] theorem height_unary (op : Op) (a : Expr) : (unary op a).height = a.height + 1 := by
  have := height_pos a
  simp only [unary, height, heightList]
  omega

@[simp] theorem height_binary (op : Op) (a b : Expr) :
    (binary op a b).height = max a.height b.height + 1 := by
  have := height_pos a
  simp only [binary, height, heightList]
  omega

/-! ### The two computations agree -/

/-- How deep the pending expressions reach, each counted from its own level. -/
def reach : List (Expr × Nat) → Nat
  | [] => 0
  | (e, level) :: pending => max (e.height + level - 1) (reach pending)

theorem reach_append (ps qs : List (Expr × Nat)) :
    reach (ps ++ qs) = max (reach ps) (reach qs) := by
  induction ps with
  | nil => simp [reach]
  | cons p ps ih =>
    obtain ⟨e, level⟩ := p
    simp only [List.cons_append, reach, ih]
    omega

theorem reach_map_succ (es : List Expr) (level : Nat) :
    reach (es.map fun e => (e, level + 1)) = if es = [] then 0 else heightList es + level := by
  induction es with
  | nil => rfl
  | cons e es ih =>
    have := height_pos e
    rw [List.map_cons, reach, ih]
    cases es with
    | nil => simp only [heightList, reduceCtorEq, if_true, if_false]; omega
    | cons e' es => simp only [heightList, reduceCtorEq, if_false]; omega

/-- An expression that stands at a level reaches as far as that level and its items do. -/
theorem max_reach_items (e : Expr) (level : Nat) :
    max level (reach (e.items.map fun item => (item, level + 1))) = e.height + level - 1 := by
  rw [reach_map_succ]
  cases e with
  | number x => simp [items]
  | symbol name => simp [items]
  | list es =>
    rw [items, height]
    -- an empty list has no items to reach further than itself
    cases es with
    | nil => simp [heightList]
    | cons e es =>
      rw [if_neg (by simp)]
      omega

/-- **The loop ends at the deepest level**: the one reached already, or the reach of what is
pending. -/
theorem deepestLevel_eq (reached : Nat) (pending : List (Expr × Nat)) :
    deepestLevel reached pending = max reached (reach pending) := by
  induction reached, pending using deepestLevel.induct with
  | case1 reached => simp [deepestLevel, reach]
  | case2 reached e level pending ih =>
    -- the items of `e`, one level down, reach as far as `e` did
    have hitems := max_reach_items e level
    rw [deepestLevel, ih, reach_append, reach]
    omega

/-- **The depth of an expression is its height.** -/
theorem depth_eq_height (e : Expr) : e.depth = e.height := by
  simp [depth, deepestLevel_eq, reach]

end Expr

end FormalCalculus
