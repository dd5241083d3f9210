import FormalCalculus.Expr.Basic
import FormalCalculus.Parser.Basic

/-!
# Parsing expressions

Tokens are read one at a time with a stack of the lists that are open, innermost first. One token
either opens a list, or completes an expression — which is the result if no list is open, and an
item of the innermost open list otherwise — or is a fault. So one pass over the tokens decides, and
the fault that is reported is the first one met:

* `Frame.step` — what one token does to the stack;
* `Frame.run` — the pass over the tokens;
* `Parser.parse` — one expression from the next token on;
* `Parser.parseAll` — one expression and nothing behind it.
-/

namespace FormalCalculus

open Text (Span)

/-- A list that is open: where it was opened, and its items so far, the latest first. -/
structure Frame where
  opening : Span
  items : List Expr

/-- What a token leads to. -/
inductive Progress where
  /-- The expression is complete. -/
  | done (e : Expr)
  /-- More tokens are needed; these lists are open. -/
  | more (stack : List Frame)
  /-- The token is at fault. -/
  | fault (error : Error)

namespace Frame

/-- A completed expression becomes an item of the innermost open list, or the result. -/
def supply (e : Expr) : List Frame → Progress
  | [] => .done e
  | frame :: stack => .more ({ frame with items := e :: frame.items } :: stack)

/-- **What one token does**, with `depth` lists open around the stack and at most `maxDepth` in
all. -/
def step (maxDepth depth : Nat) (stack : List Frame) (token : Token) : Progress :=
  match token.kind with
  | .number value => supply (.number value) stack
  | .symbol => supply (.symbol token.lexeme) stack
  | .openParen =>
    if maxDepth ≤ depth + stack.length then .fault ⟨.tooDeeplyNested maxDepth, [token.span]⟩
    else .more (⟨token.span, []⟩ :: stack)
  | .closeParen =>
    match stack with
    | [] => .fault ⟨.unclosedParenthesis false, [token.span]⟩
    | ⟨opening, []⟩ :: _ => .fault ⟨.emptyParenthesis, [⟨opening.start, token.span.stop⟩]⟩
    | ⟨_, e :: es⟩ :: stack => supply (.list (e :: es).reverse) stack

/-- The error of tokens that end too early: the innermost open list, if any, is to blame. -/
def endError (endSpan : Span) : List Frame → Error
  | [] => ⟨.unexpectedEnd, [endSpan]⟩
  | frame :: _ => ⟨.unclosedParenthesis true, [frame.opening]⟩

/-- **The pass over the tokens**, which ends with the token that decides; the tokens behind it are
returned unread. -/
def run (maxDepth depth : Nat) (endSpan : Span) :
    List Frame → List Token → Except Error Expr × List Token
  | stack, [] => (.error (endError endSpan stack), [])
  | stack, token :: rest =>
    match step maxDepth depth stack token with
    | .done e => (.ok e, rest)
    | .more stack' => run maxDepth depth endSpan stack' rest
    | .fault error => (.error error, rest)

end Frame

namespace Parser

/-- **Parses one expression** from the next token on. -/
def parse (p : Parser) : Result Expr :=
  let (result, rest) := Frame.run p.maxDepth p.depth p.endSpan [] p.rest
  (result, { p with rest })

/-- **Parses one expression and nothing else.** A text without tokens has a fault of its own, and
so has a closing parenthesis behind the expression. -/
def parseAll (p : Parser) : Result Expr :=
  if p.tokens.isEmpty then (.error ⟨.emptyInput, [⟨0, p.sourceLength⟩]⟩, p)
  else
    match p.parse with
    | (.error error, p') => (.error error, p')
    | (.ok e, p') =>
      match p'.rest with
      | [] => (.ok e, p')
      | token :: _ =>
        if token.kind = .closeParen then (.error (p'.error (.unclosedParenthesis false)), p')
        else (.error ⟨.expectedEnd, [⟨token.span.start, p'.endSpan.stop⟩]⟩, p')

end Parser

/-- **The expression that a text is**, under a limit on the nesting of its lists. -/
def Expr.ofText (maxDepth : Nat) (text : String) : Except Error Expr :=
  ((Parser.ofText text).withMaxDepth maxDepth).parseAll.1

end FormalCalculus
