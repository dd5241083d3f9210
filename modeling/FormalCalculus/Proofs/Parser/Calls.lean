import FormalCalculus.Proofs.Parser.Place

/-!
# Calls on a parser

A parser can be called many times, also after a call that failed: it goes on from where it stopped,
which may be in the middle of a list, several levels deep. Yet it is always between two expressions
as far as it is concerned. Whatever was called before (`Parser.Call`, `Parser.after`), no list is
open, the tokens are those of the text, and those that are read are the first of them
(`Parser.Consistent`).

One call preserves this, since all that it does is to go on, and to set the limit
(`Parser.Call.orderly_apply`); hence a series of calls does (`Parser.ahead_after`). Of a call of
`parse`, more is known: it takes a token if there is one, and if it succeeds, the tokens that it has
taken are the yield of the expression.

Main statement: `Parser.consistent_after_calls`.
-/

namespace FormalCalculus

namespace Parser

/-! ### Calls -/

/-- A call on a parser. -/
inductive Call where
  /-- Take the next token. -/
  | next
  /-- Parse an expression. -/
  | parse
  /-- Parse an expression and nothing else. -/
  | parseAll
  /-- Parse an expression `k` levels further inside. -/
  | nested (k : Nat)
  /-- Set the limit on the nesting of lists. -/
  | setMaxDepth (limit : Nat)
deriving DecidableEq, Repr

/-- What a call returns. -/
inductive Answer where
  | token (token : Token)
  | expr (e : Expr)
  | none

/-- The result of an operation, as an answer. -/
def Result.answer {α : Type} (f : α → Answer) (result : Result α) : Result Answer :=
  (result.1.map f, result.2)

namespace Call

/-- **What a call does.** -/
def apply : Call → Parser → Result Answer
  | next, p => Result.answer .token p.next
  | parse, p => Result.answer .expr p.parse
  | parseAll, p => Result.answer .expr p.parseAll
  | nested k, p => Result.answer .expr (p.nestedTimes Parser.parse k)
  | setMaxDepth limit, p => (.ok .none, p.withMaxDepth limit)

/-- The limit that a call sets. -/
def limit? : Call → Option Nat
  | setMaxDepth limit => some limit
  | _ => none

end Call

/-- **A series of calls** on a parser of a text. -/
def after (text : String) (calls : List Call) : Parser :=
  calls.foldl (fun p call => (call.apply p).2) (ofText text)

/-- The limit that was set last, or the one that a parser begins with. -/
def lastLimit (calls : List Call) : Nat := (calls.filterMap Call.limit?).getLast?.getD 256

/-- **A parser between two calls**, under this limit. -/
structure Consistent (text : String) (limit : Nat) (p : Parser) : Prop where
  /-- No list is open. -/
  depth_eq : p.depth = 0
  /-- The tokens are those of the text. -/
  tokens_eq : p.tokens = Token.ofText text
  maxDepth_eq : p.maxDepth = limit
  cursor_le : p.cursor ≤ p.tokens.length
  /-- The tokens left to be read are those from the cursor on. -/
  rest_eq : p.rest = p.tokens.drop p.cursor
  span_within : p.span.Within text
  endSpan_within : p.endSpan.Within text

variable {text : String} {p q : Parser}

/-! ### One call -/

theorem Orderly.answer {α : Type} {result : Result α} (h : Orderly text p result) (f : α → Answer) :
    Orderly text p (Result.answer f result) := by
  refine ⟨h.ahead, fun error herror => h.error_within error ?_⟩
  obtain ⟨outcome, q⟩ := result
  cases outcome with
  | error error' =>
    cases herror
    rfl
  | ok a => cases herror

/-- The limit has no part in what a parser of a text is. -/
theorem Placed.withMaxDepth (hp : p.Placed text) (limit : Nat) :
    (p.withMaxDepth limit).Placed text :=
  ⟨hp.sourceLength_eq, hp.within, hp.ordered, hp.suffix⟩

/-- **One call** is in order, but for the limit that it sets. -/
theorem Call.orderly_apply (hp : p.Placed text) (call : Call) :
    Orderly text (p.withMaxDepth (call.limit?.getD p.maxDepth)) (call.apply p) := by
  cases call with
  | next => exact (next_orderly hp).answer _
  | parse => exact (parse_orderly hp).answer _
  | parseAll => exact (parseAll_orderly hp).answer _
  | nested k => exact (nestedTimes_orderly (fun _ => parse_orderly) k hp).answer _
  | setMaxDepth limit => exact ⟨.refl _, fun _ h => by cases h⟩

/-! ### A series of calls -/

theorem after_append (text : String) (calls : List Call) (call : Call) :
    after text (calls ++ [call]) = (call.apply (after text calls)).2 := by
  rw [after, List.foldl_append]
  rfl

theorem lastLimit_append (calls : List Call) (call : Call) :
    lastLimit (calls ++ [call]) = call.limit?.getD (lastLimit calls) := by
  rw [lastLimit, List.filterMap_append]
  cases h : call.limit? <;> simp [h, lastLimit]

theorem Ahead.withMaxDepth (h : Ahead p q) (limit : Nat) :
    Ahead (p.withMaxDepth limit) (q.withMaxDepth limit) :=
  ⟨h.tokens_eq, h.sourceLength_eq, h.depth_eq, rfl, h.suffix⟩

/-- **Calls only go on**, and set the limit. -/
theorem ahead_after (text : String) (calls : List Call) :
    Ahead ((ofText text).withMaxDepth (lastLimit calls)) (after text calls) := by
  induction calls using List.reverseRecOn with
  | nil => exact .refl _
  | append_singleton calls call ih =>
    have hplaced := ih.placed ((placed_ofText text).withMaxDepth _)
    -- a call that sets no limit keeps the one that was set last
    have hlimit : (after text calls).maxDepth = lastLimit calls := ih.maxDepth_eq
    have hcall := (call.orderly_apply hplaced).ahead
    rw [hlimit, ← lastLimit_append] at hcall
    rw [after_append]
    exact (ih.withMaxDepth _).trans hcall

theorem placed_after (text : String) (calls : List Call) : (after text calls).Placed text :=
  (ahead_after text calls).placed ((placed_ofText text).withMaxDepth _)

/-! ### The cursor -/

namespace Placed

theorem rest_eq (hp : p.Placed text) : p.rest = p.tokens.drop p.cursor :=
  List.suffix_iff_eq_drop.1 hp.suffix

theorem current?_eq_none (hp : p.Placed text) : p.current? = none ↔ p.cursor = p.tokens.length := by
  have hle : p.rest.length ≤ p.tokens.length := hp.suffix.length_le
  rw [current?, List.head?_eq_none_iff, ← List.length_eq_zero_iff, cursor]
  omega

end Placed

/-- Going on, the cursor does not go back. -/
theorem Ahead.cursor_le (h : Ahead p q) : p.cursor ≤ q.cursor := by
  have hle : q.rest.length ≤ p.rest.length := h.suffix.length_le
  rw [cursor, cursor, h.tokens_eq]
  omega

/-- **Parsing moves the cursor** if it is not at the end, also when it fails. -/
theorem cursor_lt_parse (hp : p.Placed text) (h : p.cursor < p.tokens.length) :
    p.cursor < p.parse.2.cursor := by
  have hcurrent : p.current? ≠ none := fun hnone => by
    have := hp.current?_eq_none.1 hnone
    omega
  have hdescends : Descends .expr p p.parse.1 p.parse.2 := descends_pass .expr p trivial
  have hlt : p.parse.2.rest.length < p.rest.length := hdescends.rest_lt hcurrent
  have hle : p.rest.length ≤ p.tokens.length := hp.suffix.length_le
  rw [cursor, cursor, hdescends.ahead.tokens_eq]
  omega

/-- **The tokens that an expression is parsed from** are its yield. -/
theorem map_terminal_of_parse {e : Expr} (hp : p.Placed text) (h : p.parse.1 = .ok e) :
    (p.tokens.extract p.cursor p.parse.2.cursor).map Token.terminal = e.yield := by
  have hahead := (parse_orderly hp).ahead
  obtain ⟨passed, hpassed⟩ := hahead.suffix
  have hle : p.rest.length ≤ p.tokens.length := hp.suffix.length_le
  -- between the two cursors are the tokens that are no longer left to be read
  have hextract : p.tokens.extract p.cursor p.parse.2.cursor = passed := by
    have hlength : p.parse.2.cursor - p.cursor = passed.length := by
      rw [cursor, cursor, hahead.tokens_eq]
      rw [← hpassed, List.length_append] at hle ⊢
      omega
    rw [List.extract_eq_take_drop, ← hp.rest_eq, hlength, ← hpassed, List.take_left]
  have hrun : Frame.run p.maxDepth p.depth p.endSpan [] p.rest = (.ok e, p.parse.2.rest) :=
    Prod.ext h rfl
  obtain ⟨-, -, hyield⟩ := Frame.run_sound (by trivial) hrun
  rw [← hpassed, List.map_append] at hyield
  rw [hextract]
  exact (List.append_cancel_right hyield).symm

/-- At the end there is nothing to parse, and nothing changes. -/
theorem parse_of_exhausted (h : p.current? = none) :
    p.parse = (.error ⟨.unexpectedEnd, [p.endSpan]⟩, p) := by
  have hrest : p.rest = [] := List.head?_eq_none_iff.1 h
  have hspan : p.span = p.endSpan := by rw [span, hrest]
  rw [parse_of_next_error (next_of_current_none h), Parser.error, hspan]

/-- A parser that has gone on from the beginning of a text is between two calls. -/
theorem Ahead.consistent {limit : Nat} (h : Ahead ((ofText text).withMaxDepth limit) p) :
    p.Consistent text limit :=
  have hp : p.Placed text := h.placed ((placed_ofText text).withMaxDepth limit)
  { depth_eq := h.depth_eq
    tokens_eq := h.tokens_eq
    maxDepth_eq := h.maxDepth_eq
    cursor_le := Nat.sub_le _ _
    rest_eq := hp.rest_eq
    span_within := hp.span_within
    endSpan_within := hp.endSpan_within }

/-- **A parser is consistent after any calls**, whether they failed or not. The next call does not
take it back, and an error of it is at a place in the text. Parsing an expression takes at least one
token whatever comes of it, and on success just those of the yield; at the end of the tokens it
changes nothing. -/
theorem consistent_after_calls (text : String) (calls : List Call) :
    let p := after text calls
    p.Consistent text (lastLimit calls) ∧
      (∀ call : Call, p.cursor ≤ (call.apply p).2.cursor ∧
        ∀ error, (call.apply p).1 = .error error → error.Within text) ∧
      (p.cursor < p.tokens.length → p.cursor < p.parse.2.cursor) ∧
      (∀ e, p.parse.1 = .ok e →
        (p.tokens.extract p.cursor p.parse.2.cursor).map Token.terminal = e.yield) ∧
      (p.cursor = p.tokens.length → p.parse = (.error ⟨.unexpectedEnd, [p.endSpan]⟩, p)) := by
  intro p
  have hp : p.Placed text := placed_after text calls
  refine ⟨(ahead_after text calls).consistent, fun call => ?_, cursor_lt_parse hp,
    fun e => map_terminal_of_parse hp, fun hend => ?_⟩
  · have hcall := call.orderly_apply hp
    exact ⟨hcall.ahead.cursor_le, hcall.error_within⟩
  · exact parse_of_exhausted (hp.current?_eq_none.2 hend)

/-- A call that fails in the middle of a list, one that goes on behind it, and one at the end. -/
theorem consistent_after_calls_of_empty_list :
    let text := "(α () β"
    let p := after text [.parse]
    let q := after text [.parse, .nested 2]
    ((after text []).parse.1 = .error ⟨.emptyParenthesis, [⟨4, 6⟩]⟩ ∧ p.cursor = 4) ∧
      (p.cursor < p.tokens.length ∧ p.cursor < p.parse.2.cursor) ∧
      (p.parse.1 = .ok (.symbol "β") ∧
        (p.tokens.extract p.cursor p.parse.2.cursor).map Token.terminal =
          (Expr.symbol "β").yield) ∧
      q.cursor = q.tokens.length ∧ q.parse = (.error ⟨.unexpectedEnd, [q.endSpan]⟩, q) := by
  intro text p q
  have hfirst : (after text []).parse.1 = .error ⟨.emptyParenthesis, [⟨4, 6⟩]⟩ := by decide +kernel
  have hcursor : p.cursor = 4 := by decide +kernel
  have hlt : p.cursor < p.tokens.length := by decide +kernel
  have hparse : p.parse.1 = .ok (.symbol "β") := by decide +kernel
  have hend : q.cursor = q.tokens.length := by decide +kernel
  obtain ⟨-, -, hmoves, hyield, -⟩ := consistent_after_calls text [.parse]
  obtain ⟨-, -, -, -, hexhausted⟩ := consistent_after_calls text [.parse, .nested 2]
  exact ⟨⟨hfirst, hcursor⟩, ⟨hlt, hmoves hlt⟩, ⟨hparse, hyield _ hparse⟩, hend, hexhausted hend⟩

end Parser

end FormalCalculus
