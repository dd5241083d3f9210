import FormalCalculus.Derivative
import FormalCalculus.Parser.Automaton
import FormalCalculus.Simplify.Basic

/-!
# From a text to its derivative

The whole way of an expression: it is read from a text, differentiated, and simplified; the result
is printed. `Options` choose the variable and the nesting limit of the text.
-/

namespace FormalCalculus

/-- The choices of a user. -/
structure Options where
  /-- What to differentiate with respect to. -/
  respectTo : Variable := .any
  /-- How deep the lists of the text may be nested. -/
  maxDepth : Nat := 256
deriving DecidableEq, Repr

namespace Options

/-- The same options with one symbol as the variable. -/
def withVariable (o : Options) (name : String) : Options := { o with respectTo := .named name }

/-- The same options with another nesting limit. -/
def withMaxDepth (o : Options) (limit : Nat) : Options := { o with maxDepth := limit }

end Options

/-- **The simplified derivative** of the expression that a text is. -/
def differentiate (arith : Arithmetic) (options : Options) (text : String) :
    Except Error Expr := do
  let e ← Expr.ofText options.maxDepth text
  let derivative ← e.derivative options.respectTo
  (derivative.simplify arith).outcome

/-- **The simplified derivative in print.** -/
def differentiateText (arith : Arithmetic) (options : Options) (text : String) :
    Except Error String :=
  (differentiate arith options text).map Expr.text

end FormalCalculus
