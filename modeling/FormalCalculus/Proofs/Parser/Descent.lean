import FormalCalculus.Proofs.Parser.Yield

/-!
# The parser as recursive descent

The pass over the tokens keeps the open lists on a stack. The same parser can be written as two
operations that call each other: one reads an expression, and one level further inside of a list for
each parenthesis that it opens, the other reads the items of this list (`Parser.Descends`). Here the
parser is passed on from one call to the next, an error comes back through all the calls that are
under way, and each of them leaves its level again.

Both read the same (`Parser.descends_iff`). What connects them is that a pass does not look below
the lists that it has opened itself: with further lists around it, it goes on where it would have
ended (`Frame.run_append`). So the pass over an expression is part of the pass over the list that it
is in.

What a call does to the parser is then seen rule by rule. It goes on with the tokens and leaves all
else as it is, the number of open lists included, whether it fails or not (`Descends.ahead`).
-/

namespace FormalCalculus

open Text (Span)

/-! ### Passes within open lists -/

/-- What a token leads to if there are further lists below those on the stack. -/
def Progress.onto (outer : List Frame) : Progress → Progress
  | .done e => Frame.supply e outer
  | .more stack => .more (stack ++ outer)
  | .fault error => .fault error

namespace Frame

variable {maxDepth depth : Nat} {endSpan : Span} {inner outer : List Frame}

/-- Going on after a pass inside of the lists `outer`. -/
def goOn (maxDepth depth : Nat) (endSpan : Span) (outer : List Frame) :
    Except Error Expr × List Token → Except Error Expr × List Token
  | (.ok e, rest) => resume maxDepth depth endSpan rest (supply e outer)
  | (.error error, rest) => (.error error, rest)

theorem supply_append (e : Expr) (inner outer : List Frame) :
    supply e (inner ++ outer) = (supply e inner).onto outer := by
  cases inner <;> rfl

theorem ne_nil_of_supply {e : Expr} {stack : List Frame} (h : supply e inner = .more stack) :
    stack ≠ [] := by
  cases inner <;> cases h
  exact List.cons_ne_nil _ _

/-- A token that asks for more has left a list open. -/
theorem ne_nil_of_step {token : Token} {stack : List Frame}
    (h : step maxDepth depth inner token = .more stack) : stack ≠ [] := by
  obtain ⟨kind, span, lexeme⟩ := token
  cases kind with
  | number value => exact ne_nil_of_supply h
  | symbol => exact ne_nil_of_supply h
  | openParen =>
    simp only [step] at h
    split at h <;> cases h
    exact List.cons_ne_nil _ _
  | closeParen =>
    cases inner with
    | nil => cases h
    | cons frame inner =>
      obtain ⟨opening, items⟩ := frame
      cases items with
      | nil => cases h
      | cons e es => exact ne_nil_of_supply h

/-- **One token** does not look below the lists on the stack, unless it closes a list and there is
none. -/
theorem step_append {token : Token} (h : inner = [] → token.kind ≠ .closeParen) :
    step maxDepth depth (inner ++ outer) token =
      (step maxDepth (depth + outer.length) inner token).onto outer := by
  obtain ⟨kind, span, lexeme⟩ := token
  cases kind with
  | number value => exact supply_append _ inner outer
  | symbol => exact supply_append _ inner outer
  | openParen =>
    -- the limit counts all open lists, those on the stack and those around it
    have hlength : depth + (inner ++ outer).length = depth + outer.length + inner.length := by
      rw [List.length_append]
      omega
    simp only [step, hlength]
    split <;> rfl
  | closeParen =>
    cases inner with
    -- it would close one of the outer lists
    | nil => exact absurd rfl (h rfl)
    | cons frame inner =>
      obtain ⟨opening, items⟩ := frame
      cases items with
      | nil => rfl
      | cons e es => exact supply_append _ inner outer

/-- **A pass inside of open lists** is a pass by itself, and goes on from there. -/
theorem run_append {tokens : List Token}
    (h : inner = [] → ∃ token ∈ tokens.head?, token.kind ≠ .closeParen) :
    run maxDepth depth endSpan (inner ++ outer) tokens =
      goOn maxDepth depth endSpan outer
        (run maxDepth (depth + outer.length) endSpan inner tokens) := by
  induction tokens generalizing inner with
  | nil =>
    cases inner with
    | nil => simp at h
    -- the list to blame is the innermost one, with or without others around it
    | cons frame inner => rfl
  | cons token tokens ih =>
    rw [run_cons, run_cons, step_append (by simpa using h)]
    cases hstep : step maxDepth (depth + outer.length) inner token with
    | done e => rfl
    | more stack => exact ih fun hnil => absurd hnil (ne_nil_of_step hstep)
    | fault error => rfl

end Frame

namespace Parser

/-! ### Descending -/

/-- What a call has to read. -/
inductive Task where
  /-- One expression. -/
  | expr
  /-- The items of a list behind those that are read, and the end of it. -/
  | items (opening : Span) (done : List Expr)

/-- **Recursive descent.** The call for a task takes one parser to another, with this result. -/
inductive Descends : Task → Parser → Except Error Expr → Parser → Prop
  /-- No token is left. -/
  | exhausted {p q : Parser} {error : Error} (h : p.next = (.error error, q)) :
      Descends .expr p (.error error) q
  /-- A number is an expression. -/
  | number {p q : Parser} {token : Token} {value : Float} (h : p.next = (.ok token, q))
      (hkind : token.kind = .number value) : Descends .expr p (.ok (.number value)) q
  /-- A symbol is an expression. -/
  | symbol {p q : Parser} {token : Token} (h : p.next = (.ok token, q))
      (hkind : token.kind = .symbol) : Descends .expr p (.ok (.symbol token.lexeme)) q
  /-- There is no list to close. -/
  | unopened {p q : Parser} {token : Token} (h : p.next = (.ok token, q))
      (hkind : token.kind = .closeParen) :
      Descends .expr p (.error ⟨.unclosedParenthesis false, [token.span]⟩) q
  /-- There is no room for another list. -/
  | tooDeep {p q : Parser} {token : Token} (h : p.next = (.ok token, q))
      (hkind : token.kind = .openParen) (hfull : q.maxDepth ≤ q.depth) :
      Descends .expr p (.error ⟨.tooDeeplyNested q.maxDepth, [token.span]⟩) q
  /-- A list is read one level further inside. -/
  | list {p q r : Parser} {token : Token} {result : Except Error Expr}
      (h : p.next = (.ok token, q)) (hkind : token.kind = .openParen)
      (hroom : ¬ q.maxDepth ≤ q.depth)
      (hitems : Descends (.items token.span []) { q with depth := q.depth + 1 } result r) :
      Descends .expr p result { r with depth := r.depth - 1 }
  /-- No token is left to close the list. -/
  | unclosed {p : Parser} {opening : Span} {done : List Expr} (h : p.current? = none) :
      Descends (.items opening done) p (.error ⟨.unclosedParenthesis true, [opening]⟩) p
  /-- The list is closed and has no items. -/
  | empty {p q : Parser} {opening : Span} {token : Token} (h : p.next = (.ok token, q))
      (hkind : token.kind = .closeParen) :
      Descends (.items opening []) p
        (.error ⟨.emptyParenthesis, [⟨opening.start, token.span.stop⟩]⟩) q
  /-- The list is closed and has items. -/
  | closed {p q : Parser} {opening : Span} {done : List Expr} {token : Token}
      (h : p.next = (.ok token, q)) (hkind : token.kind = .closeParen) (hdone : done ≠ []) :
      Descends (.items opening done) p (.ok (.list done)) q
  /-- An item is read, and then those behind it. -/
  | item {p q r : Parser} {opening : Span} {done : List Expr} {token : Token} {e : Expr}
      {result : Except Error Expr} (h : p.current? = some token) (hkind : token.kind ≠ .closeParen)
      (hitem : Descends .expr p (.ok e) q)
      (hitems : Descends (.items opening (done ++ [e])) q result r) :
      Descends (.items opening done) p result r
  /-- An item is at fault, and so is the list. -/
  | failed {p q : Parser} {opening : Span} {done : List Expr} {token : Token} {error : Error}
      (h : p.current? = some token) (hkind : token.kind ≠ .closeParen)
      (hitem : Descends .expr p (.error error) q) :
      Descends (.items opening done) p (.error error) q

variable {p q r : Parser} {token : Token} {opening : Span} {done : List Expr} {e : Expr}
  {error : Error} {result : Except Error Expr} {task : Task}

theorem next_eq_ok :
    p.next = (.ok token, q) ↔ ∃ rest, p.rest = token :: rest ∧ q = { p with rest } := by
  cases hrest : p.rest with
  | nil => simp [next, hrest]
  | cons token' rest =>
    simp only [next, hrest, Prod.mk.injEq, Except.ok.injEq, List.cons.injEq]
    constructor
    · rintro ⟨rfl, rfl⟩
      exact ⟨rest, ⟨rfl, rfl⟩, rfl⟩
    · rintro ⟨_, ⟨rfl, rfl⟩, rfl⟩
      exact ⟨rfl, rfl⟩

theorem next_eq_error :
    p.next = (.error error, q) ↔ p.rest = [] ∧ error = p.error .unexpectedEnd ∧ q = p := by
  cases hrest : p.rest with
  | nil => simp [next, hrest, eq_comm]
  | cons token rest => simp [next, hrest]

theorem exists_next_of_current (h : p.current? = some token) : ∃ q, p.next = (.ok token, q) := by
  obtain ⟨rest, hrest⟩ := List.head?_eq_some_iff.1 h
  exact ⟨_, next_eq_ok.2 ⟨rest, hrest, rfl⟩⟩

theorem next_of_current_none (h : p.current? = none) :
    p.next = (.error (p.error .unexpectedEnd), p) :=
  next_eq_error.2 ⟨List.head?_eq_none_iff.1 h, rfl, rfl⟩

/-! ### What a call leaves as it is -/

/-- **A parser that has gone on** with its tokens, and is the same otherwise. -/
structure Ahead (p q : Parser) : Prop where
  tokens_eq : q.tokens = p.tokens
  sourceLength_eq : q.sourceLength = p.sourceLength
  depth_eq : q.depth = p.depth
  maxDepth_eq : q.maxDepth = p.maxDepth
  suffix : q.rest <:+ p.rest

theorem Ahead.refl (p : Parser) : Ahead p p := ⟨rfl, rfl, rfl, rfl, List.suffix_refl _⟩

theorem Ahead.trans (hpq : Ahead p q) (hqr : Ahead q r) : Ahead p r :=
  ⟨hqr.tokens_eq.trans hpq.tokens_eq, hqr.sourceLength_eq.trans hpq.sourceLength_eq,
    hqr.depth_eq.trans hpq.depth_eq, hqr.maxDepth_eq.trans hpq.maxDepth_eq,
    hqr.suffix.trans hpq.suffix⟩

/-- Going on inside of a list, and leaving it. -/
theorem Ahead.leave (h : Ahead { p with depth := p.depth + 1 } q) :
    Ahead p { q with depth := q.depth - 1 } :=
  ⟨h.tokens_eq, h.sourceLength_eq, Nat.sub_eq_of_eq_add h.depth_eq, h.maxDepth_eq, h.suffix⟩

theorem next_ahead (p : Parser) : Ahead p p.next.2 := by
  cases hrest : p.rest with
  | nil => simpa [next, hrest] using Ahead.refl p
  | cons token rest =>
    simp only [next, hrest]
    exact ⟨rfl, rfl, rfl, rfl, hrest ▸ List.suffix_cons token rest⟩

theorem ahead_of_next {answer : Except Error Token} (h : p.next = (answer, q)) : Ahead p q := by
  have := p.next_ahead
  rwa [h] at this

/-- **Every call leaves all but the tokens to be read as it is**, whether it fails or not. -/
theorem Descends.ahead (h : Descends task p result q) : Ahead p q := by
  induction h with
  | exhausted h => exact ahead_of_next h
  | number h _ => exact ahead_of_next h
  | symbol h _ => exact ahead_of_next h
  | unopened h _ => exact ahead_of_next h
  | tooDeep h _ _ => exact ahead_of_next h
  | list h _ _ _ ih => exact (ahead_of_next h).trans ih.leave
  | unclosed _ => exact .refl _
  | empty h _ => exact ahead_of_next h
  | closed h _ _ => exact ahead_of_next h
  | item _ _ _ _ ihitem ihitems => exact ihitem.trans ihitems
  | failed _ _ _ ih => exact ih

theorem next_rest_lt (h : p.next = (.ok token, q)) : q.rest.length < p.rest.length := by
  obtain ⟨rest, hrest, rfl⟩ := next_eq_ok.1 h
  rw [hrest]
  exact Nat.lt_succ_self _

/-- **Reading an expression takes a token** if there is one, also when it fails. -/
theorem Descends.rest_lt (h : Descends .expr p result q) (hcurrent : p.current? ≠ none) :
    q.rest.length < p.rest.length := by
  cases h with
  | exhausted h => exact absurd (List.head?_eq_none_iff.2 (next_eq_error.1 h).1) hcurrent
  | number h _ => exact next_rest_lt h
  | symbol h _ => exact next_rest_lt h
  | unopened h _ => exact next_rest_lt h
  | tooDeep h _ _ => exact next_rest_lt h
  | list h _ _ hitems =>
    have hlt := next_rest_lt h
    exact Nat.lt_of_le_of_lt hitems.ahead.suffix.length_le hlt

/-! ### The pass descends -/

/-- **The items of a list**, read in one pass. Of the lists that are open, one is on the stack, so
that the pass counts one less around it. -/
def items (opening : Span) (done : List Expr) (p : Parser) : Result Expr :=
  let (result, rest) :=
    Frame.run p.maxDepth (p.depth - 1) p.endSpan [⟨opening, done.reverse⟩] p.rest
  (result, { p with rest })

/-- A task, done in one pass. -/
def Task.pass : Task → Parser → Result Expr
  | .expr, p => p.parse
  | .items opening done, p => p.items opening done

/-- The items of a list are read with the list open. -/
def Task.Inside : Task → Parser → Prop
  | .expr, _ => True
  | .items _ _, p => 0 < p.depth

theorem parse_of_next_error (h : p.next = (.error error, q)) : p.parse = (.error error, q) := by
  obtain ⟨hrest, rfl, rfl⟩ := next_eq_error.1 h
  obtain ⟨tokens, rest, sourceLength, depth, maxDepth⟩ := q
  obtain rfl : rest = [] := hrest
  rfl

/-- A token that settles the outcome by itself. -/
theorem parse_of_step (h : p.next = (.ok token, q))
    (hstep : Frame.resume p.maxDepth p.depth p.endSpan q.rest
      (Frame.step p.maxDepth p.depth [] token) = (result, q.rest)) : p.parse = (result, q) := by
  obtain ⟨rest, hrest, rfl⟩ := next_eq_ok.1 h
  rw [parse, hrest, Frame.run_cons, hstep]

/-- **A list is read one level further inside.** -/
theorem parse_of_openParen (h : p.next = (.ok token, q)) (hkind : token.kind = .openParen) :
    p.parse = q.nested token.span (items token.span []) := by
  obtain ⟨rest, hrest, rfl⟩ := next_eq_ok.1 h
  rw [parse, hrest, Frame.run_cons, nested]
  by_cases hfull : p.maxDepth ≤ p.depth
  · simp [Frame.step, hkind, hfull, Frame.resume]
  · rw [Frame.step_openParen hkind (by simpa using hfull)]
    simp only [hfull, if_false]
    rfl

/-- **An item is read, and then those behind it.** -/
theorem items_of_parse (hdepth : 0 < p.depth) (h : p.current? = some token)
    (hkind : token.kind ≠ .closeParen) :
    p.items opening done =
      match p.parse with
      | (.ok e, q) => q.items opening (done ++ [e])
      | (.error error, q) => (.error error, q) := by
  -- the pass over the item is part of the pass over the list
  have hrun :
      Frame.run p.maxDepth (p.depth - 1) p.endSpan ([] ++ [⟨opening, done.reverse⟩]) p.rest =
      Frame.goOn p.maxDepth (p.depth - 1) p.endSpan [⟨opening, done.reverse⟩]
        (Frame.run p.maxDepth (p.depth - 1 + 1) p.endSpan [] p.rest) :=
    Frame.run_append fun _ => ⟨token, h, hkind⟩
  rw [List.nil_append, Nat.sub_add_cancel hdepth] at hrun
  rw [items, hrun, parse]
  obtain ⟨result, rest⟩ := Frame.run p.maxDepth p.depth p.endSpan [] p.rest
  cases result with
  | error error => rfl
  | ok e =>
    simp only [Frame.goOn, Frame.supply, Frame.resume, items, List.reverse_append,
      List.reverse_singleton, List.singleton_append]
    rfl

/-- A list ends with its closing parenthesis. -/
theorem items_of_closeParen (h : p.next = (.ok token, q)) (hkind : token.kind = .closeParen) :
    p.items opening done =
      (if done = [] then .error ⟨.emptyParenthesis, [⟨opening.start, token.span.stop⟩]⟩
        else .ok (.list done), q) := by
  obtain ⟨rest, hrest, rfl⟩ := next_eq_ok.1 h
  rw [items, hrest, Frame.run_cons]
  obtain rfl | ⟨before, last, rfl⟩ := List.eq_nil_or_concat done
  · simp [Frame.step, hkind, Frame.resume]
  · simp [Frame.step, hkind, Frame.supply, Frame.resume]

theorem items_of_exhausted (h : p.current? = none) :
    p.items opening done = (.error ⟨.unclosedParenthesis true, [opening]⟩, p) := by
  obtain ⟨tokens, rest, sourceLength, depth, maxDepth⟩ := p
  obtain rfl : rest = [] := List.head?_eq_none_iff.1 h
  rfl

/-- **What recursive descent reads, a pass reads.** -/
theorem Descends.pass_eq (h : Descends task p result q) (hp : task.Inside p) :
    task.pass p = (result, q) := by
  induction h with
  | exhausted h => exact parse_of_next_error h
  | number h hkind | symbol h hkind | unopened h hkind =>
    exact parse_of_step h (by rw [Frame.step, hkind]; rfl)
  | tooDeep h hkind hfull => rw [Task.pass, parse_of_openParen h hkind, nested, if_pos hfull]
  | @list p q r token result h hkind hroom hitems ih =>
    have hinner : items token.span [] { q with depth := q.depth + 1 } = (result, r) :=
      ih (Nat.succ_pos _)
    rw [Task.pass, parse_of_openParen h hkind, nested, if_neg hroom, hinner]
  | unclosed h => exact items_of_exhausted h
  | empty h hkind => rw [Task.pass, items_of_closeParen h hkind, if_pos rfl]
  | closed h hkind hdone => rw [Task.pass, items_of_closeParen h hkind, if_neg hdone]
  | @item p q r opening done token e result h hkind hitem hitems ihitem ihitems =>
    have hparse : p.parse = (.ok e, q) := ihitem trivial
    rw [Task.pass, items_of_parse hp h hkind, hparse]
    -- the list is still open behind the item
    exact ihitems (Nat.lt_of_lt_of_eq hp hitem.ahead.depth_eq.symm)
  | @failed p q opening done token error h hkind hitem ih =>
    have hparse : p.parse = (.error error, q) := ih trivial
    rw [Task.pass, items_of_parse hp h hkind, hparse]

/-- What recursive descent reads, it reads as a pass does. -/
theorem Descends.pass (h : Descends task p result q) (hp : task.Inside p) :
    Descends task p (task.pass p).1 (task.pass p).2 := by
  rw [h.pass_eq hp]
  exact h

/-- A pass over an expression descends if those over the items of a list do. -/
theorem descends_parse_of_items
    (hitems : ∀ (opening : Span) (q : Parser), q.rest.length < p.rest.length → 0 < q.depth →
      Descends (.items opening []) q (q.items opening []).1 (q.items opening []).2) :
    Descends .expr p p.parse.1 p.parse.2 := by
  cases hcurrent : p.current? with
  | none => exact (Descends.exhausted (next_of_current_none hcurrent)).pass trivial
  | some token =>
    obtain ⟨q, hnext⟩ := exists_next_of_current hcurrent
    cases hkind : token.kind with
    | number value => exact (Descends.number hnext hkind).pass trivial
    | symbol => exact (Descends.symbol hnext hkind).pass trivial
    | closeParen => exact (Descends.unopened hnext hkind).pass trivial
    | openParen =>
      by_cases hfull : q.maxDepth ≤ q.depth
      · exact (Descends.tooDeep hnext hkind hfull).pass trivial
      · have hlt : q.rest.length < p.rest.length := next_rest_lt hnext
        exact (Descends.list hnext hkind hfull (hitems _ _ hlt (Nat.succ_pos _))).pass trivial

/-- **A pass descends.** -/
theorem descends_pass (task : Task) (p : Parser) (hp : task.Inside p) :
    Descends task p (task.pass p).1 (task.pass p).2 := by
  -- a list is read behind its parenthesis, and the other items of a list behind the first
  induction hn : p.rest.length using Nat.strong_induction_on generalizing task p with
  | _ n ih =>
    subst hn
    have hexpr : Descends .expr p p.parse.1 p.parse.2 :=
      descends_parse_of_items fun opening q hlt hq => ih _ hlt (.items opening []) q hq rfl
    cases task with
    | expr => exact hexpr
    | items opening done =>
      cases hcurrent : p.current? with
      | none => exact (Descends.unclosed hcurrent).pass hp
      | some token =>
        by_cases hkind : token.kind = .closeParen
        · obtain ⟨q, hnext⟩ := exists_next_of_current hcurrent
          by_cases hdone : done = []
          · subst hdone
            exact (Descends.empty hnext hkind).pass hp
          · exact (Descends.closed hnext hkind hdone).pass hp
        · generalize p.parse = answer at hexpr
          obtain ⟨result, q⟩ := answer
          cases result with
          | error error => exact (Descends.failed hcurrent hkind hexpr).pass hp
          | ok e =>
            have hlt : q.rest.length < p.rest.length := hexpr.rest_lt (by simp [hcurrent])
            have hq : 0 < q.depth := Nat.lt_of_lt_of_eq hp hexpr.ahead.depth_eq.symm
            have hitems := ih _ hlt (.items opening (done ++ [e])) q hq rfl
            exact (Descends.item hcurrent hkind hexpr hitems).pass hp

/-- **Recursive descent is the pass over the tokens.** -/
theorem descends_iff (hp : task.Inside p) :
    Descends task p result q ↔ task.pass p = (result, q) := by
  refine ⟨fun h => h.pass_eq hp, fun h => ?_⟩
  have := descends_pass task p hp
  rwa [h] at this

end Parser

end FormalCalculus
