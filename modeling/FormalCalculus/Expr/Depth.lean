import FormalCalculus.Expr.Basic

/-!
# How deep an expression is

The depth of a number, a symbol or an empty list is one; any other list is one deeper than its
deepest item, the head included.

* `Expr.height` says so by recursion on the expression;
* `Expr.depth` finds the same number with a list of pending expressions, each with the level at
  which it stands, so that no expression is too deep for it.

The pending expressions shrink: `Expr.nodeCount`, summed over them, goes down with every one that
is taken up.
-/

namespace FormalCalculus

namespace Expr

mutual

/-- The depth of an expression, by recursion. -/
def height : Expr → Nat
  | number _ => 1
  | symbol _ => 1
  | list es => heightList es + 1

/-- The largest depth among expressions; zero if there are none. -/
def heightList : List Expr → Nat
  | [] => 0
  | e :: es => max e.height (heightList es)

end

mutual

/-- The number of nodes of an expression. -/
def nodeCount : Expr → Nat
  | number _ => 1
  | symbol _ => 1
  | list es => nodeCountList es + 1

/-- The number of nodes of some expressions together. -/
def nodeCountList : List Expr → Nat
  | [] => 0
  | e :: es => e.nodeCount + nodeCountList es

end

/-- The number of nodes of pending expressions. -/
def pendingCount (pending : List (Expr × Nat)) : Nat := nodeCountList (pending.map Prod.fst)

theorem nodeCountList_append (as bs : List Expr) :
    nodeCountList (as ++ bs) = nodeCountList as + nodeCountList bs := by
  induction as with
  | nil => simp [nodeCountList]
  | cons a as ih => simp [nodeCountList, ih, Nat.add_assoc]

/-- An expression has one node more than its items. -/
theorem nodeCount_eq_items (e : Expr) : e.nodeCount = nodeCountList e.items + 1 := by
  cases e <;> simp [nodeCount, nodeCountList, items]

/-- **Taking up a pending expression.** Its items become pending one level further down, and the
level it stands at counts towards the result. -/
def deepestLevel (reached : Nat) : List (Expr × Nat) → Nat
  | [] => reached
  | (e, level) :: pending =>
    deepestLevel (max reached level) (e.items.map (fun item => (item, level + 1)) ++ pending)
termination_by pending => pendingCount pending
decreasing_by
  simp only [pendingCount, List.map_append, List.map_map, List.map_cons, nodeCountList,
    nodeCountList_append, nodeCount_eq_items e]
  have : (e.items.map (Prod.fst ∘ fun item => (item, level + 1))) =
      e.items := List.map_id e.items
  rw [this]
  omega

/-- **The depth of an expression**, found with a list of pending expressions. -/
def depth (e : Expr) : Nat := deepestLevel 0 [(e, 1)]

end Expr

end FormalCalculus
