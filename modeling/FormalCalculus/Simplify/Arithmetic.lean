import FormalCalculus.Operator

/-!
# Arithmetic on constants

Two numbers under an arithmetic operator can be replaced by their value. Sums, differences,
products and quotients are exactly determined by the floating-point format. Powers are not: their
last bit depends on the library at hand. The power function is therefore a parameter, and nothing
but its use here depends on it; `Arithmetic.platform` takes the one of the machine.
-/

namespace FormalCalculus

/-- The arithmetic in which constants are folded. -/
structure Arithmetic where
  /-- The power function. -/
  pow : Float → Float → Float

namespace Arithmetic

/-- The arithmetic of the machine. -/
def platform : Arithmetic where
  pow := Float.pow

/-- The value of an operator on two numbers; a function of one operand has none. -/
def apply (arith : Arithmetic) : Op → Float → Float → Option Float
  | .add, x, y => some (x + y)
  | .sub, x, y => some (x - y)
  | .mul, x, y => some (x * y)
  | .div, x, y => some (x / y)
  | .pow, x, y => some (arith.pow x y)
  | .sin, _, _ | .cos, _, _ | .tan, _, _ | .exp, _, _ | .ln, _, _ => none

/-- **The value of an operator on two numbers, if it is finite.** An overflow or an undefined
result is no constant to put in the place of an expression. -/
def fold? (arith : Arithmetic) (op : Op) (x y : Float) : Option Float :=
  (arith.apply op x y).filter Float.isFinite

end Arithmetic

end FormalCalculus
