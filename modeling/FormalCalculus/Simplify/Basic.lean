import FormalCalculus.Simplify.Rules

/-!
# Simplification

`Expr.simplify` works from the leaves to the root: the items of a list, its head included, are
simplified from left to right, and then the rules are tried once on the list that results. The
steps taken are recorded in order, and the record is kept when a division by zero ends the work
early: a `Traced` value holds both the outcome and the steps that led to it.
-/

namespace FormalCalculus

/-- An outcome together with the steps taken on the way to it, also to a failure. -/
structure Traced (α : Type) where
  steps : List Step
  outcome : Except Error α

namespace Traced

variable {α β : Type}

/-- A value that took no step. -/
def pure (a : α) : Traced α := ⟨[], .ok a⟩

/-- Goes on with a value; after a failure there is nothing to go on with. -/
def bind (x : Traced α) (f : α → Traced β) : Traced β :=
  match x.outcome with
  | .ok a => ⟨x.steps ++ (f a).steps, (f a).outcome⟩
  | .error error => ⟨x.steps, .error error⟩

@[simp] theorem pure_bind (a : α) (f : α → Traced β) : (pure a).bind f = f a := rfl

end Traced

namespace Expr

/-- The rules at the root: the offered rewrite, or the expression as it is. -/
def simplifyRoot (arith : Arithmetic) (e : Expr) : Traced Expr :=
  match Rules.apply arith e with
  | .error error => ⟨[], .error error⟩
  | .ok none => .pure e
  | .ok (some rewrite) => ⟨rewrite.steps, .ok rewrite.result⟩

mutual

/-- **Simplification**, from the leaves to the root. -/
def simplify (arith : Arithmetic) : Expr → Traced Expr
  | number x => .pure (number x)
  | symbol name => .pure (symbol name)
  | list es => (simplifyItems arith es).bind fun es' => simplifyRoot arith (list es')

/-- Simplification of items, from left to right. -/
def simplifyItems (arith : Arithmetic) : List Expr → Traced (List Expr)
  | [] => .pure []
  | e :: es =>
    (simplify arith e).bind fun e' => (simplifyItems arith es).bind fun es' => .pure (e' :: es')

end

end Expr

end FormalCalculus
