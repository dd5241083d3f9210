import FormalCalculus.Parser.Automaton

/-!
# Parsing without places

A parser hands the spans of its tokens on to the errors it reports, and it decides nothing by them.
So it does not matter when the spans are taken away: before parsing, from the tokens, or afterwards,
from the error (`Parser.parseAll_unplaced`).

`unplaced` puts the empty span at the beginning of the text in the place of every span: in a token
(`Token.unplaced`), in an error (`Error.unplaced`), and in what a parser keeps in between. One step
of the pass over the tokens commutes with it (`Frame.step_unplaced`), hence the pass does
(`Frame.run_unplaced`). The span of an empty pair of parentheses is made of those of two tokens; it
is empty if they are.
-/

namespace FormalCalculus

open Text (Span)

/-! ### Taking spans away -/

/-- The token, wherever it stands. -/
def Token.unplaced (token : Token) : Token := { token with span := ⟨0, 0⟩ }

/-- The error, wherever it is. -/
def Error.unplaced (error : Error) : Error :=
  { error with spans := error.spans.map fun _ => ⟨0, 0⟩ }

/-- The open list, wherever it was opened. -/
def Frame.unplaced (frame : Frame) : Frame := { frame with opening := ⟨0, 0⟩ }

/-- What a token leads to, wherever it stands. -/
def Progress.unplaced : Progress → Progress
  | .done e => .done e
  | .more stack => .more (stack.map Frame.unplaced)
  | .fault error => .fault error.unplaced

/-- A parser of the same tokens, wherever they stand. -/
def Parser.unplaced (p : Parser) : Parser where
  tokens := p.tokens.map Token.unplaced
  rest := p.rest.map Token.unplaced
  sourceLength := 0
  depth := p.depth
  maxDepth := p.maxDepth

namespace Frame

/-! ### The pass over the tokens -/

theorem supply_unplaced (e : Expr) (stack : List Frame) :
    supply e (stack.map unplaced) = (supply e stack).unplaced := by
  cases stack <;> rfl

/-- **One token** leads to the same, wherever it stands. -/
theorem step_unplaced (maxDepth depth : Nat) (stack : List Frame) (token : Token) :
    step maxDepth depth (stack.map unplaced) token.unplaced =
      (step maxDepth depth stack token).unplaced := by
  obtain ⟨kind, span, lexeme⟩ := token
  cases kind with
  | number value => exact supply_unplaced _ stack
  | symbol => exact supply_unplaced _ stack
  | openParen =>
    simp only [step, Token.unplaced, List.length_map]
    split <;> rfl
  | closeParen =>
    cases stack with
    | nil => rfl
    | cons frame stack =>
      obtain ⟨opening, items⟩ := frame
      cases items with
      | nil => rfl
      | cons e es => exact supply_unplaced _ stack

theorem endError_unplaced (endSpan : Span) (stack : List Frame) :
    endError ⟨0, 0⟩ (stack.map unplaced) = (endError endSpan stack).unplaced := by
  cases stack <;> rfl

/-- **A pass over tokens** has the same result, wherever they stand. -/
theorem run_unplaced (maxDepth depth : Nat) (endSpan : Span) (stack : List Frame)
    (tokens : List Token) :
    run maxDepth depth ⟨0, 0⟩ (stack.map unplaced) (tokens.map Token.unplaced) =
      ((run maxDepth depth endSpan stack tokens).1.mapError Error.unplaced,
        (run maxDepth depth endSpan stack tokens).2.map Token.unplaced) := by
  induction tokens generalizing stack with
  | nil =>
    rw [List.map_nil, run, run, endError_unplaced endSpan]
    rfl
  | cons token tokens ih =>
    rw [List.map_cons, run, run, step_unplaced]
    cases step maxDepth depth stack token with
    | done e => rfl
    | more stack' => exact ih stack'
    | fault error => rfl

end Frame

namespace Parser

/-! ### Whole texts -/

@[simp] theorem endSpan_unplaced (p : Parser) : p.unplaced.endSpan = ⟨0, 0⟩ := by
  unfold endSpan unplaced
  rw [List.getLast?_map]
  cases p.tokens.getLast? <;> rfl

theorem parse_unplaced (p : Parser) :
    p.unplaced.parse = (p.parse.1.mapError Error.unplaced, p.parse.2.unplaced) := by
  have hrun : Frame.run p.unplaced.maxDepth p.unplaced.depth p.unplaced.endSpan [] p.unplaced.rest =
      ((Frame.run p.maxDepth p.depth p.endSpan [] p.rest).1.mapError Error.unplaced,
        (Frame.run p.maxDepth p.depth p.endSpan [] p.rest).2.map Token.unplaced) := by
    rw [endSpan_unplaced]
    exact Frame.run_unplaced p.maxDepth p.depth p.endSpan [] p.rest
  rw [parse, hrun]
  rfl

/-- **Parsing takes no notice of places.** -/
theorem parseAll_unplaced (p : Parser) :
    p.unplaced.parseAll = (p.parseAll.1.mapError Error.unplaced, p.parseAll.2.unplaced) := by
  have htokens : p.unplaced.tokens.isEmpty = p.tokens.isEmpty := List.isEmpty_map
  rw [parseAll, parseAll, htokens, parse_unplaced]
  split
  · rfl
  · cases hparse : p.parse with
    | mk result p' =>
      cases result with
      | error error => rfl
      | ok e =>
        have hok : (Except.ok e).mapError Error.unplaced = .ok e := rfl
        cases hrest : p'.rest with
        | nil =>
          have hnil : p'.unplaced.rest = [] := by rw [unplaced, hrest, List.map_nil]
          simp only [hok, hnil, hrest]
        | cons token rest =>
          -- the token behind the expression is of the same kind
          have hcons : p'.unplaced.rest = token.unplaced :: rest.map Token.unplaced := by
            rw [unplaced, hrest, List.map_cons]
          have hkind : token.unplaced.kind = token.kind := rfl
          simp only [hok, hcons, hrest, hkind, endSpan_unplaced]
          by_cases hclose : token.kind = .closeParen
          · simp only [hclose, if_true, Parser.error, span, hcons, hrest]
            rfl
          · simp only [hclose, if_false]
            rfl

end Parser

end FormalCalculus
