import FormalCalculus.Numeral.Reader
import FormalCalculus.Numeral.Printer
import FormalCalculus.Error
import FormalCalculus.Token.Basic
import FormalCalculus.Expr.Depth
import FormalCalculus.Parser.Automaton
import FormalCalculus.Derivative
import FormalCalculus.Simplify.Basic
import FormalCalculus.Differentiate
import FormalCalculus.Main
import FormalCalculus.Proofs.Simplify.NormalForm
import FormalCalculus.Proofs.Differentiate.Depth
import FormalCalculus.Proofs.Differentiate.RoundTrip
import FormalCalculus.Proofs.Differentiate.DivisionByZero
import FormalCalculus.Proofs.Expr.Value
import FormalCalculus.Proofs.Simplify.Meaning
import FormalCalculus.Proofs.Derivative.Calculus
import FormalCalculus.Proofs.Parser.Fault
import FormalCalculus.Proofs.Parser.Grammar
import FormalCalculus.Proofs.Parser.Inverse
import FormalCalculus.Proofs.Differentiate.ZeroDenominator
import FormalCalculus.Proofs.Differentiate.Transformation
import FormalCalculus.Proofs.Simplify.Record
import FormalCalculus.Proofs.Token.LongestMatch
import FormalCalculus.Proofs.Derivative.FirstFault
import FormalCalculus.Proofs.Parser.Unplaced
import FormalCalculus.Proofs.Differentiate.Layout
import FormalCalculus.Proofs.Parser.Calls
import FormalCalculus.Proofs.Simplify.PostOrder
import FormalCalculus.Proofs.Simplify.Part
import FormalCalculus.Proofs.Simplify.Weight
import FormalCalculus.Proofs.Simplify.Congruence
import FormalCalculus.Proofs.Derivative.Variable
import FormalCalculus.Proofs.Differentiate.Constant
import FormalCalculus.Proofs.Parser.Budget
import FormalCalculus.Proofs.Derivative.Suggestion
import FormalCalculus.Proofs.Expr.Spacing
import FormalCalculus.Proofs.Expr.Traversal
import FormalCalculus.Proofs.CommandLine.OneLine
