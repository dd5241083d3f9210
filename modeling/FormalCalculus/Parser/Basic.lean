import FormalCalculus.Error
import FormalCalculus.Token.Basic

/-!
# The state of a parser

A parser holds the tokens of a text and those of them that are still to be read, how many lists it
is inside of, and how many it may be inside of. Every operation returns the parser as it stands
afterwards, *also when it fails*: a failed parser can be asked to go on from where it stopped.

* `Parser.next` — takes one token;
* `Parser.nested` — runs an operation one level further inside, if the limit allows it.
-/

namespace FormalCalculus

open Text (Span)

/-- A parser between two operations. -/
structure Parser where
  /-- All tokens of the text. -/
  tokens : List Token
  /-- The tokens not yet read, a final part of `tokens`. -/
  rest : List Token
  /-- The length of the text in bytes. -/
  sourceLength : Nat
  /-- The number of lists that are open around the next token. -/
  depth : Nat := 0
  /-- The number of lists that may be open at once. -/
  maxDepth : Nat := 256
deriving DecidableEq, Repr

namespace Parser

/-- The result of an operation: what came of it, and the parser afterwards. -/
abbrev Result (α : Type) := Except Error α × Parser

/-- A parser at the beginning of a text. -/
def ofText (text : String) : Parser where
  tokens := Token.ofText text
  rest := Token.ofText text
  sourceLength := text.utf8ByteSize

/-- The same parser under another nesting limit. -/
def withMaxDepth (p : Parser) (limit : Nat) : Parser := { p with maxDepth := limit }

/-- The number of tokens already read. -/
def cursor (p : Parser) : Nat := p.tokens.length - p.rest.length

/-- The next token, if there is one. -/
def current? (p : Parser) : Option Token := p.rest.head?

/-- The place where the tokens end: an empty span behind the last one. -/
def endSpan (p : Parser) : Span :=
  match p.tokens.getLast? with
  | some token => ⟨token.span.stop, token.span.stop⟩
  | none => ⟨0, 0⟩

/-- The span of the next token, or the end. -/
def span (p : Parser) : Span :=
  match p.rest with
  | token :: _ => token.span
  | [] => p.endSpan

/-- An error at the next token. -/
def error (p : Parser) (cause : Cause) : Error := ⟨cause, [p.span]⟩

/-- Takes the next token. -/
def next (p : Parser) : Result Token :=
  match p.rest with
  | token :: rest => (.ok token, { p with rest })
  | [] => (.error (p.error .unexpectedEnd), p)

/-- **One level further inside.** Runs an operation with one more list open, opened at a given
place; refuses to, and leaves the parser as it is, if as many are open as the limit allows. -/
def nested {α : Type} (opening : Span) (body : Parser → Result α) (p : Parser) : Result α :=
  if p.maxDepth ≤ p.depth then (.error ⟨.tooDeeplyNested p.maxDepth, [opening]⟩, p)
  else
    let (result, p') := body { p with depth := p.depth + 1 }
    (result, { p' with depth := p'.depth - 1 })

/-- Several levels further inside, each opened at the token that is next by then. -/
def nestedTimes {α : Type} (body : Parser → Result α) : Nat → Parser → Result α
  | 0, p => body p
  | k + 1, p => p.nested p.span (nestedTimes body k)

end Parser

end FormalCalculus
