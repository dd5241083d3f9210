import FormalCalculus.Proofs.Parser.Descent
import FormalCalculus.Proofs.Token.LongestMatch

/-!
# The places of errors

A parser hands out spans: those of its tokens, that of the end, and those in errors. All of them are
places in the text that it was made for (`Text.Span.Within`): they begin before they end, no later
than the text does, and they cut no character in two.

Most of them are spans of tokens, for which this is known from the partition of the text. Two are
made from the spans of two tokens: an empty pair of parentheses, and what stands behind a complete
expression. These are in order because the tokens are (`Parser.Placed`), and the parenthesis that
opened a list was read before all tokens that are left (`Parser.Task.Placed`); along a descent, this
remains so.
-/

namespace FormalCalculus

open Text (Span byteLength Slice)

namespace Text

/-! ### Spans of a text -/

/-- **A place in the text**: a span in order, between two characters at either end. -/
structure Span.Within (span : Span) (text : String) : Prop where
  start_le_stop : span.start ≤ span.stop
  stop_le : span.stop ≤ text.utf8ByteSize
  start_isValid : String.Pos.Raw.IsValid text ⟨span.start⟩
  stop_isValid : String.Pos.Raw.IsValid text ⟨span.stop⟩

theorem byteLength_eq_utf8ByteSize (cs : List Char) :
    byteLength cs = (String.ofList cs).utf8ByteSize := by
  induction cs with
  | nil => rfl
  | cons c cs ih =>
    rw [byteLength_cons, ih, String.ofList_cons, String.utf8ByteSize_append,
      String.utf8ByteSize_singleton]

variable {text : String} {s t : Span}

/-- Between two parts of a text no character is cut in two. -/
theorem isValid_of_append {before after : List Char} (h : text.toList = before ++ after) :
    String.Pos.Raw.IsValid text ⟨byteLength before⟩ := by
  refine String.Pos.Raw.isValid_iff_exists_append.2
    ⟨String.ofList before, String.ofList after, ?_, ?_⟩
  · rw [← String.ofList_append, ← h, String.ofList_toList]
  · rw [byteLength_eq_utf8ByteSize]
    rfl

theorem Slice.within {cs : List Char} (h : Slice 0 text.toList s cs) : s.Within text := by
  obtain ⟨before, after, htext, rfl⟩ := h
  have hlength : text.utf8ByteSize = byteLength before + byteLength cs + byteLength after := by
    rw [← String.ofList_toList (s := text), ← byteLength_eq_utf8ByteSize, htext, byteLength_append,
      byteLength_append]
  refine ⟨Nat.le_add_right _ _, ?_, ?_, ?_⟩
  · simp only
    omega
  · rw [Nat.zero_add]
    exact isValid_of_append (by rw [htext, List.append_assoc])
  · rw [Nat.zero_add, ← byteLength_append]
    exact isValid_of_append htext

namespace Span.Within

/-- From the beginning of one place to the end of another. -/
theorem hull (hs : s.Within text) (ht : t.Within text) (h : s.start ≤ t.stop) :
    Within ⟨s.start, t.stop⟩ text :=
  ⟨h, ht.stop_le, hs.start_isValid, ht.stop_isValid⟩

/-- The end of a place. -/
theorem stop (h : s.Within text) : Within ⟨s.stop, s.stop⟩ text :=
  ⟨Nat.le_refl _, h.stop_le, h.stop_isValid, h.stop_isValid⟩

/-- The whole text. -/
theorem whole (text : String) : Within ⟨0, text.utf8ByteSize⟩ text :=
  ⟨Nat.zero_le _, Nat.le_refl _, String.Pos.Raw.isValid_zero, String.Pos.Raw.isValid_rawEndPos⟩

/-- The beginning of the text. -/
theorem zero (text : String) : Within ⟨0, 0⟩ text :=
  ⟨Nat.le_refl _, Nat.zero_le _, String.Pos.Raw.isValid_zero, String.Pos.Raw.isValid_zero⟩

end Span.Within

end Text

/-- All places of the error are in the text. -/
def Error.Within (text : String) (error : Error) : Prop := ∀ span ∈ error.spans, span.Within text

theorem Error.Within.singleton {text : String} {cause : Cause} {span : Span}
    (h : span.Within text) : Error.Within text ⟨cause, [span]⟩ := by
  intro s hs
  rwa [List.mem_singleton.1 hs]

namespace Parser

variable {text : String} {p q : Parser} {token : Token} {opening : Span} {done : List Expr}
  {error : Error} {result : Except Error Expr} {task : Task}

/-! ### The tokens in their places -/

/-- **A parser of this text**: its tokens are in order at places in the text, and those left to be
read are the last of them. -/
structure Placed (text : String) (p : Parser) : Prop where
  sourceLength_eq : p.sourceLength = text.utf8ByteSize
  within : ∀ t ∈ p.tokens, t.span.Within text
  ordered : p.tokens.Pairwise fun s t => s.span.stop ≤ t.span.start
  suffix : p.rest <:+ p.tokens

/-- Where an open list was opened: in the text, and before the tokens left to be read. -/
def Task.Placed (text : String) (p : Parser) : Task → Prop
  | .expr => True
  | .items opening _ => opening.Within text ∧ ∀ t ∈ p.rest, opening.start ≤ t.span.stop

theorem placed_ofText (text : String) : (ofText text).Placed text :=
  have h := Token.partition_ofText text
  ⟨rfl, fun t ht => (h.slice t ht).within, h.ordered, List.suffix_refl _⟩

theorem Ahead.placed (h : Ahead p q) (hp : p.Placed text) : q.Placed text where
  sourceLength_eq := h.sourceLength_eq.trans hp.sourceLength_eq
  within := h.tokens_eq ▸ hp.within
  ordered := h.tokens_eq ▸ hp.ordered
  suffix := h.tokens_eq ▸ h.suffix.trans hp.suffix

theorem Task.Placed.ahead (h : (Task.items opening done).Placed text p) (hahead : Ahead p q)
    (done' : List Expr) : (Task.items opening done').Placed text q :=
  ⟨h.1, fun t ht => h.2 t (hahead.suffix.mem ht)⟩

namespace Placed

/-- The same inside of a list. -/
theorem inside (hp : p.Placed text) : Placed text { p with depth := p.depth + 1 } :=
  ⟨hp.sourceLength_eq, hp.within, hp.ordered, hp.suffix⟩

theorem within_of_mem (hp : p.Placed text) (h : token ∈ p.rest) : token.span.Within text :=
  hp.within token (hp.suffix.mem h)

theorem endSpan_within (hp : p.Placed text) : p.endSpan.Within text := by
  unfold endSpan
  cases hlast : p.tokens.getLast? with
  | none => exact .zero text
  | some token => exact (hp.within token (List.mem_of_getLast? hlast)).stop

theorem span_within (hp : p.Placed text) : p.span.Within text := by
  unfold span
  cases hrest : p.rest with
  | nil => exact hp.endSpan_within
  | cons token rest => exact hp.within_of_mem (hrest ▸ List.mem_cons_self)

/-- No token begins behind the end of the tokens. -/
theorem start_le_endSpan (hp : p.Placed text) (h : token ∈ p.tokens) :
    token.span.start ≤ p.endSpan.stop := by
  have hne : p.tokens ≠ [] := List.ne_nil_of_mem h
  have hend : p.endSpan.stop = (p.tokens.getLast hne).span.stop := by
    rw [endSpan, List.getLast?_eq_some_getLast hne]
  have hlast := (hp.within _ (List.getLast_mem hne)).start_le_stop
  have hordered := hp.ordered
  rw [← List.dropLast_append_getLast hne] at h hordered
  rw [hend]
  obtain hbefore | hself := List.mem_append.1 h
  · -- all tokens but the last end before the last begins
    calc token.span.start
        ≤ token.span.stop :=
          (hp.within token (List.mem_of_mem_dropLast hbefore)).start_le_stop
      _ ≤ (p.tokens.getLast hne).span.start :=
          (List.pairwise_append.1 hordered).2.2 token hbefore _ (List.mem_singleton_self _)
      _ ≤ (p.tokens.getLast hne).span.stop := hlast
  · rwa [List.mem_singleton.1 hself]

/-- **The next token** is at a place in the text, and begins before the tokens behind it end. -/
theorem of_next (hp : p.Placed text) (h : p.next = (.ok token, q)) :
    token.span.Within text ∧ ∀ t ∈ q.rest, token.span.start ≤ t.span.stop := by
  obtain ⟨rest, hrest, rfl⟩ := next_eq_ok.1 h
  have hmem : ∀ t ∈ token :: rest, t ∈ p.tokens := fun t ht => hp.suffix.mem (hrest ▸ ht)
  have hordered : (token :: rest).Pairwise fun s t => s.span.stop ≤ t.span.start :=
    hrest ▸ hp.ordered.sublist hp.suffix.sublist
  have htoken := hp.within token (hmem token List.mem_cons_self)
  refine ⟨htoken, fun t ht => ?_⟩
  calc token.span.start
      ≤ token.span.stop := htoken.start_le_stop
    _ ≤ t.span.start := List.rel_of_pairwise_cons hordered ht
    _ ≤ t.span.stop := (hp.within t (hmem t (List.mem_cons_of_mem _ ht))).start_le_stop

end Placed

/-! ### The places of errors -/

/-- **An error of recursive descent** is at a place in the text. -/
theorem Descends.error_within (h : Descends task p result q) (hp : p.Placed text)
    (htask : task.Placed text p) (hresult : result = .error error) : error.Within text := by
  induction h with
  | exhausted h =>
    cases hresult
    obtain ⟨-, rfl, -⟩ := next_eq_error.1 h
    exact .singleton hp.span_within
  | number h _ => cases hresult
  | symbol h _ => cases hresult
  | unopened h _ =>
    cases hresult
    exact .singleton (hp.of_next h).1
  | tooDeep h _ _ =>
    cases hresult
    exact .singleton (hp.of_next h).1
  | list h _ _ _ ih =>
    have hopening := hp.of_next h
    exact ih ((ahead_of_next h).placed hp).inside hopening hresult
  | unclosed _ =>
    cases hresult
    exact .singleton htask.1
  | empty h _ =>
    cases hresult
    obtain ⟨rest, hrest, -⟩ := next_eq_ok.1 h
    -- the list was opened before it is closed
    have hle := htask.2 _ (hrest ▸ List.mem_cons_self)
    exact .singleton (htask.1.hull (hp.of_next h).1 hle)
  | closed h _ _ => cases hresult
  | item _ _ hitem _ _ ihitems =>
    exact ihitems (hitem.ahead.placed hp) (htask.ahead hitem.ahead _) hresult
  | failed _ _ _ ih => exact ih hp trivial hresult

/-- **An operation in order**: the parser has gone on, and an error is at a place in the text. -/
structure Orderly {α : Type} (text : String) (p : Parser) (answer : Result α) : Prop where
  ahead : Ahead p answer.2
  error_within : ∀ error, answer.1 = .error error → error.Within text

theorem next_orderly (hp : p.Placed text) : Orderly text p p.next := by
  refine ⟨next_ahead p, fun error h => ?_⟩
  cases hrest : p.rest with
  | nil =>
    simp only [next, hrest, Except.error.injEq] at h
    subst h
    exact .singleton hp.span_within
  | cons token rest => simp [next, hrest] at h

theorem parse_orderly (hp : p.Placed text) : Orderly text p p.parse :=
  have h : Descends .expr p p.parse.1 p.parse.2 := descends_pass .expr p trivial
  ⟨h.ahead, fun _ hresult => h.error_within hp trivial hresult⟩

/-- **Parsing to the end** reports what stands behind the expression, at the place where it does. -/
theorem parseAll_orderly (hp : p.Placed text) : Orderly text p p.parseAll := by
  have hparse := parse_orderly hp
  unfold parseAll
  generalize p.parse = answer at hparse
  obtain ⟨result, q⟩ := answer
  have hq : q.Placed text := hparse.ahead.placed hp
  split
  · refine ⟨.refl p, fun error h => ?_⟩
    cases h
    rw [hp.sourceLength_eq]
    exact .singleton (.whole text)
  · cases result with
    | error error => exact hparse
    | ok e =>
      dsimp only
      split
      · exact hparse
      · next token rest hrest =>
        -- the token that follows is at fault, or all from there to the end
        have hmem : token ∈ q.rest := hrest ▸ List.mem_cons_self
        split <;> refine ⟨hparse.ahead, fun error h => ?_⟩ <;> cases h
        · exact .singleton hq.span_within
        · exact .singleton ((hq.within_of_mem hmem).hull hq.endSpan_within
            (hq.start_le_endSpan (hq.suffix.mem hmem)))

theorem nested_orderly {α : Type} {body : Parser → Result α} (hp : p.Placed text)
    (hopening : opening.Within text) (hbody : ∀ p, p.Placed text → Orderly text p (body p)) :
    Orderly text p (p.nested opening body) := by
  have hinner := hbody _ hp.inside
  unfold nested
  split
  · refine ⟨.refl p, fun error h => ?_⟩
    cases h
    exact .singleton hopening
  · exact ⟨hinner.ahead.leave, hinner.error_within⟩

theorem nestedTimes_orderly {α : Type} {body : Parser → Result α}
    (hbody : ∀ p, p.Placed text → Orderly text p (body p)) (k : Nat) (hp : p.Placed text) :
    Orderly text p (p.nestedTimes body k) := by
  induction k generalizing p with
  | zero => exact hbody p hp
  | succ k ih => exact nested_orderly hp hp.span_within fun p hp => ih hp

end Parser

end FormalCalculus
