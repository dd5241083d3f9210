import FormalCalculus.Differentiate
import FormalCalculus.Report

/-!
# The command line

The command differentiates one expression with respect to every symbol. The expression is made up
of the arguments, with a space between each two, or read from the standard input if there are none.
The derivative goes to the standard output as one line; a failure leaves the output empty and is
reported on the standard error.

`CommandLine.run` is the whole command as a function of what it is given.
-/

namespace FormalCalculus.CommandLine

/-- What a run of the command leaves behind. -/
structure Outcome where
  /-- The exit status, zero on success. -/
  status : UInt32
  /-- All of the standard output. -/
  output : String
  /-- The lines of the standard error. -/
  diagnostics : List String
deriving DecidableEq, Repr

/-- The first line of the standard error. -/
def Outcome.title? (outcome : Outcome) : Option String := outcome.diagnostics.head?

/-- The outcome of a failure. -/
def Outcome.failed (status : UInt32) (diagnostics : List String) : Outcome :=
  ⟨status, "", diagnostics⟩

/-- **The input of the command**: the arguments if there are any, else the standard input, which
has to be valid UTF-8. -/
def input? (args : List String) (stdin : ByteArray) : Option String :=
  if args.isEmpty then String.fromUTF8? stdin else some (String.intercalate " " args)

/-- The outcome for an error in a text. A report needs a line of the text to show: one on the empty
text breaks off after its title, and the status tells so. -/
def Outcome.ofError (text : String) (e : Error) : Outcome :=
  if text.isEmpty then failed 101 [e.cause.title]
  else failed 1 (e.report "input" text).lines

/-- **A run of the command.** -/
def run (arith : Arithmetic) (args : List String) (stdin : ByteArray) : Outcome :=
  match input? args stdin with
  | none =>
    .failed 1 ["error: failed to read input: stream did not contain valid UTF-8"]
  | some text =>
    match differentiateText arith {} text with
    | .ok result => ⟨0, result ++ "\n", []⟩
    | .error e => .ofError text e

end FormalCalculus.CommandLine
