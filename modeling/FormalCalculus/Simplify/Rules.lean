import FormalCalculus.Error
import FormalCalculus.Expr.Printer
import FormalCalculus.Simplify.Arithmetic

/-!
# The simplification rules

A rule looks at the two operands of an arithmetic operator and either declines or offers a
`Rewrite`: what to put in the place of the application, and the steps that justify it. The rules of
an operator are tried in a fixed order and the first that does not decline is taken.

Zero and one are recognised as arithmetic compares, so negative zero is a zero, and equal operands
are recognised by `Expr.equal`. A quotient whose denominator is zero is an error, whatever the
other rules would say of it.
-/

namespace FormalCalculus

/-- The identities that a simplification can use. -/
inductive Step where
  /-- `0 + a` and `a + 0` are `a`. -/
  | addZero
  /-- `a - 0` is `a`. -/
  | subtractZero
  /-- `0 - a` is `-1 * a`. -/
  | subtractFromZero
  /-- `0 * a` and `a * 0` are `0`. -/
  | multiplyZero
  /-- `1 * a` and `a * 1` are `a`. -/
  | multiplyOne
  /-- `a * a` is `a ^ 2`. -/
  | squareEqualFactors
  /-- `a / 1` is `a`. -/
  | divideOne
  /-- `a / a` is `1`. -/
  | divideEqual
  /-- `a ^ 0` is `1`. -/
  | powerZero
  /-- `a ^ 1` is `a`. -/
  | powerOne
  /-- An operator on two numbers is its value. -/
  | foldConstants (op : Op)
deriving DecidableEq, Repr

/-- What a rule offers: the new expression, and the steps that lead to it. -/
structure Rewrite where
  result : Expr
  steps : List Step
deriving DecidableEq

/-- A rewrite by a single step. -/
def Rewrite.single (step : Step) (result : Expr) : Rewrite := ⟨result, [step]⟩

namespace Rules

/-! ### Constants -/

/-- Two numbers under an operator are its value, if that is finite. -/
def foldConstants (arith : Arithmetic) (op : Op) (a b : Expr) : Option Rewrite :=
  match a, b with
  | .number x, .number y =>
    (arith.fold? op x y).map fun z => .single (.foldConstants op) (.number z)
  | _, _ => none

/-! ### Products -/

/-- A product with a factor zero is zero. -/
def multiplyZero (a b : Expr) : Option Rewrite :=
  if a.isZero || b.isZero then some (.single .multiplyZero (.number 0)) else none

/-- A product with a factor one is the other factor. -/
def multiplyOne (a b : Expr) : Option Rewrite :=
  if a.isOne then some (.single .multiplyOne b)
  else if b.isOne then some (.single .multiplyOne a)
  else none

/-- A product of equal factors is a square. -/
def squareEqualFactors (a b : Expr) : Option Rewrite :=
  if a.equal b then some (.single .squareEqualFactors (.binary .pow a (.number 2))) else none

/-- The rules for products. -/
def multiply (arith : Arithmetic) (a b : Expr) : Option Rewrite :=
  (multiplyZero a b).or <| (multiplyOne a b).or <|
    (foldConstants arith .mul a b).or <| squareEqualFactors a b

/-! ### Sums and differences -/

/-- A sum with a term zero is the other term. -/
def addZero (a b : Expr) : Option Rewrite :=
  if a.isZero then some (.single .addZero b)
  else if b.isZero then some (.single .addZero a)
  else none

/-- The rules for sums. -/
def add (arith : Arithmetic) (a b : Expr) : Option Rewrite :=
  (addZero a b).or <| foldConstants arith .add a b

/-- A difference from zero is the product with `-1`, on which the rules for products are tried at
once. -/
def subtractFromZero (arith : Arithmetic) (a b : Expr) : Option Rewrite :=
  if a.isZero then
    let minusOne := Expr.number (-1)
    match multiply arith minusOne b with
    | some product => some ⟨product.result, .subtractFromZero :: product.steps⟩
    | none => some (.single .subtractFromZero (.binary .mul minusOne b))
  else none

/-- A difference with zero is its first term. -/
def subtractZero (a b : Expr) : Option Rewrite :=
  if b.isZero then some (.single .subtractZero a) else none

/-- The rules for differences. -/
def subtract (arith : Arithmetic) (a b : Expr) : Option Rewrite :=
  (subtractFromZero arith a b).or <| (subtractZero a b).or <| foldConstants arith .sub a b

/-! ### Quotients -/

/-- A quotient must not have the denominator zero. -/
def checkDenominator (a b : Expr) : Except Error Unit :=
  if b.isZero then .error ⟨.divisionByZero (Expr.binary .div a b).text, []⟩ else .ok ()

/-- A quotient by one is its numerator. -/
def divideOne (a b : Expr) : Option Rewrite :=
  if b.isOne then some (.single .divideOne a) else none

/-- A quotient of equals is one. -/
def divideEqual (a b : Expr) : Option Rewrite :=
  if a.equal b then some (.single .divideEqual (.number 1)) else none

/-- The rules for quotients. -/
def divide (arith : Arithmetic) (a b : Expr) : Except Error (Option Rewrite) :=
  (checkDenominator a b).map fun _ =>
    (divideOne a b).or <| (foldConstants arith .div a b).or <| divideEqual a b

/-! ### Powers -/

/-- A power with the exponent zero is one. -/
def powerZero (_ b : Expr) : Option Rewrite :=
  if b.isZero then some (.single .powerZero (.number 1)) else none

/-- A power with the exponent one is its base. -/
def powerOne (a b : Expr) : Option Rewrite :=
  if b.isOne then some (.single .powerOne a) else none

/-- The rules for powers. -/
def power (arith : Arithmetic) (a b : Expr) : Option Rewrite :=
  (powerZero a b).or <| (powerOne a b).or <| foldConstants arith .pow a b

/-! ### All rules -/

/-- The rules of an operator on two operands. -/
def ofOp (arith : Arithmetic) (op : Op) (a b : Expr) : Except Error (Option Rewrite) :=
  match op with
  | .add => .ok (add arith a b)
  | .sub => .ok (subtract arith a b)
  | .mul => .ok (multiply arith a b)
  | .div => divide arith a b
  | .pow => .ok (power arith a b)
  | .sin | .cos | .tan | .exp | .ln => .ok none

/-- **The rules at the root of an expression**, its operands being taken as they are. Only an
operator with two operands has any. -/
def apply (arith : Arithmetic) : Expr → Except Error (Option Rewrite)
  | .list [head, a, b] =>
    match head.op? with
    | some op => ofOp arith op a b
    | none => .ok none
  | _ => .ok none

end Rules

end FormalCalculus
