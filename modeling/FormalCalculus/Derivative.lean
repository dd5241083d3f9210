import FormalCalculus.Error
import FormalCalculus.Expr.Printer

/-!
# Derivatives

`Expr.derivative` differentiates an expression with respect to a `Variable`: one symbol, or every
symbol at once. Each operator has a rule that says what the derivative is in terms of the operands
and their derivatives; nothing is simplified here. A power is differentiated as one with a constant
exponent, so its exponent is never looked into.

A list that applies no operator, or an operator to the wrong number of operands, has no derivative.
The error is the one met first: a list is looked at before its operands, and operands are looked at
from left to right, except that a product starts with its second factor.
-/

namespace FormalCalculus

/-- What to differentiate with respect to. -/
inductive Variable where
  /-- Every symbol is the variable. -/
  | any
  /-- The symbol of this name is the variable; all others are constants. -/
  | named (name : String)
deriving DecidableEq, Repr

/-- Whether a symbol is the variable. -/
def Variable.matches : Variable → String → Bool
  | any, _ => true
  | named name, other => name == other

namespace Expr

/-! ### The rules

Operands are `a` and `b`, their derivatives `da` and `db`. -/

/-- The derivative of a product: `a * db + da * b`. -/
def productRule (a b da db : Expr) : Expr :=
  binary .add (binary .mul a db) (binary .mul da b)

/-- The derivative of a quotient: `(da * b - a * db) / b ^ 2`. -/
def quotientRule (a b da db : Expr) : Expr :=
  binary .div (binary .sub (binary .mul da b) (binary .mul a db)) (binary .pow b (number 2))

/-- The derivative of a power with a constant exponent: `(b * a ^ (b - 1)) * da`. -/
def powerRule (a b da : Expr) : Expr :=
  binary .mul (binary .mul b (binary .pow a (binary .sub b (number 1)))) da

/-- The derivative of a sine: `da * cos a`. -/
def sinRule (a da : Expr) : Expr := binary .mul da (unary .cos a)

/-- The derivative of a cosine: `da * (-1 * sin a)`. -/
def cosRule (a da : Expr) : Expr :=
  binary .mul da (binary .mul (number (-1)) (unary .sin a))

/-- The derivative of a tangent: `da / cos a ^ 2`. -/
def tanRule (a da : Expr) : Expr := binary .div da (binary .pow (unary .cos a) (number 2))

/-- The derivative of an exponential: `da * exp a`. -/
def expRule (a da : Expr) : Expr := binary .mul da (unary .exp a)

/-- The derivative of a logarithm: `da / a`. -/
def lnRule (a da : Expr) : Expr := binary .div da a

/-! ### Faults -/

/-- The error for a list that applies something that is called `name` and no operator. -/
def invalidOperator (name : String) : Error := ⟨.invalidOperator name (Op.suggestions name), []⟩

/-- What the head of a list is called: a symbol by its name, anything else as it is printed. -/
def calledName : Expr → String
  | symbol name => name
  | e => e.text

/-! ### Differentiation -/

/-- **The derivative of an expression.** -/
def derivative (v : Variable) : Expr → Except Error Expr
  | number _ => .ok (number 0)
  | symbol name => .ok (number (if v.matches name then 1 else 0))
  | list [] => .error (invalidOperator (list []).text)
  | list (head :: operands) =>
    match head.op? with
    | none => .error (invalidOperator head.calledName)
    | some op =>
      match op, operands with
      | .add, [a, b] => do
        let da ← derivative v a
        let db ← derivative v b
        return binary .add da db
      | .sub, [a, b] => do
        let da ← derivative v a
        let db ← derivative v b
        return binary .sub da db
      | .mul, [a, b] => do
        let db ← derivative v b
        let da ← derivative v a
        return productRule a b da db
      | .div, [a, b] => do
        let da ← derivative v a
        let db ← derivative v b
        return quotientRule a b da db
      | .pow, [a, b] => do
        let da ← derivative v a
        return powerRule a b da
      | .sin, [a] => do
        let da ← derivative v a
        return sinRule a da
      | .cos, [a] => do
        let da ← derivative v a
        return cosRule a da
      | .tan, [a] => do
        let da ← derivative v a
        return tanRule a da
      | .exp, [a] => do
        let da ← derivative v a
        return expRule a da
      | .ln, [a] => do
        let da ← derivative v a
        return lnRule a da
      | op, operands => .error ⟨.arityMismatch op op.arity operands.length, []⟩

end Expr

end FormalCalculus
