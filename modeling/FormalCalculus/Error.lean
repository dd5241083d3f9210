import FormalCalculus.Operator
import FormalCalculus.Text.Span

/-!
# What can go wrong

A `Cause` says what went wrong, an `Error` also where: parse errors point into the text, errors of
differentiation and simplification concern a tree and have no span. The wording is in one function
for each part of a diagnosis:

* `Cause.message` — what happened;
* `Cause.label` — what to say at the place it happened;
* `Cause.help` — how to mend it, where that can be said.
-/

namespace FormalCalculus

open Text (Span)

/-- What went wrong. -/
inductive Cause where
  /-- The text holds no token at all. -/
  | emptyInput
  /-- An expression was wanted where the text ends. -/
  | unexpectedEnd
  /-- Something follows a complete expression. -/
  | expectedEnd
  /-- A parenthesis without its partner; `opening` tells which of the two it is. -/
  | unclosedParenthesis (opening : Bool)
  /-- A pair of parentheses with nothing in between. -/
  | emptyParenthesis
  /-- A list stands deeper than the nesting limit. -/
  | tooDeeplyNested (limit : Nat)
  /-- The head of a list is no operator; `suggestions` are the operators of a similar name. -/
  | invalidOperator (name : String) (suggestions : List Op)
  /-- An operator has the wrong number of operands. -/
  | arityMismatch (op : Op) (expected found : Nat)
  /-- The denominator of a quotient, here in print, is zero. -/
  | divisionByZero (quotient : String)
deriving DecidableEq, Repr

namespace Cause

/-- A name in backquotes. -/
def quoted (name : String) : String := "`" ++ name ++ "`"

/-- What happened. -/
def message : Cause → String
  | emptyInput => "missing expression"
  | unexpectedEnd => "unexpected end of input"
  | expectedEnd => "expected end of input"
  | unclosedParenthesis _ => "unclosed parenthesis"
  | emptyParenthesis => "missing expression inside parenthesis"
  | tooDeeplyNested limit => "expression is nested more than " ++ limit.repr ++ " levels deep"
  | invalidOperator name _ => "unknown operator " ++ quoted name
  | arityMismatch op expected found =>
    quoted op.symbol ++ " expects " ++ expected.repr
      ++ (if expected = 1 then " operand, but " else " operands, but ")
      ++ found.repr ++ (if found = 1 then " was given" else " were given")
  | divisionByZero _ => "division by zero"

/-- What to say at the place it happened. -/
def label : Cause → String
  | emptyInput => "there is nothing to parse here"
  | unexpectedEnd => "you might need to add another expression here"
  | expectedEnd => "I could not understand the remaining input here"
  | unclosedParenthesis _ => "this parenthesis is not closed"
  | emptyParenthesis => "add an operator and its operands here"
  | tooDeeplyNested _ => "this list exceeds the nesting limit"
  | invalidOperator _ _ => "this expression applies an operator that cannot be differentiated"
  | arityMismatch _ _ _ => "this expression has the wrong number of operands"
  | divisionByZero _ => "this expression divides by zero once simplified"

/-- How to mend it, where that can be said. -/
def help : Cause → Option String
  | emptyInput => some "write an expression in prefix notation, such as (* x x)"
  | unexpectedEnd => none
  | expectedEnd => some "only one expression can be differentiated at a time"
  | unclosedParenthesis true => some "add a closing parenthesis `)` somewhere after this"
  | unclosedParenthesis false =>
    some "add an opening parenthesis `(` somewhere before this, or remove this one"
  | emptyParenthesis => none
  | tooDeeplyNested _ => none
  | invalidOperator _ [] =>
    some ("the supported operators are: "
      ++ String.intercalate ", " (Op.all.map fun op => quoted op.symbol))
  | invalidOperator _ (op :: ops) =>
    some ("did you mean "
      ++ String.intercalate " or " ((op :: ops).map fun op => quoted op.symbol) ++ "?")
  | arityMismatch op expected _ =>
    some ("write it as (" ++ op.symbol ++ (if expected = 1 then " a)" else " a b)"))
  | divisionByZero quotient => some ("the denominator of " ++ quotient ++ " is zero")

end Cause

/-- **An error**: its cause and the places in the text that it concerns. -/
structure Error where
  /-- What went wrong. -/
  cause : Cause
  /-- Where; the first span is the one that is pointed at. -/
  spans : List Span := []
deriving DecidableEq, Repr

namespace Error

/-- The message of an error, with the byte offset of its first span if it has one. -/
def message (e : Error) : String :=
  match e.spans with
  | [] => e.cause.message
  | span :: _ => e.cause.message ++ " (at byte " ++ span.start.repr ++ ")"

/-- The offset that an error points at; the beginning of the text if it has no span. -/
def offset (e : Error) : Nat :=
  match e.spans with
  | [] => 0
  | span :: _ => span.start

end Error

end FormalCalculus
