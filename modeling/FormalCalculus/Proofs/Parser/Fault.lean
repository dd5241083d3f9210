import FormalCalculus.Proofs.Parser.Yield

/-!
# What a text is refused for

A refused text has one fault that is reported, and it can be found without parsing: by counting
parentheses from left to right.

* `Token.level` — how many more parentheses some tokens open than they close;
* `Parser.faultAt?` — what is wrong with a token, in view of the tokens before it: there is nothing
  to close, or the expression is complete already, or the list is nested too deeply, or it is empty;
* `Parser.Refused` — the first token that is at fault decides. If there is none and a list is still
  open at the end, the innermost open parenthesis is to blame.

The parser keeps a stack of open lists and no count. What connects the two is the shape of the
tokens read so far (`Frame.Leaves`): for each open list its parenthesis, and behind it tokens that
close whatever they open (`Token.Balanced`). One token preserves this, and is at fault for the
parser exactly if it is at fault for the count (`Frame.step_reaches`, `Frame.fault?_step`); hence a
pass finds the first fault (`Frame.run_ends`).

Main statement: `Parser.parseAll_eq_error_iff`.
-/

namespace FormalCalculus

open Text (Span)

namespace Token

/-! ### Levels -/

/-- **The level behind some tokens**: how many more parentheses they open than they close. -/
def level (tokens : List Token) : Int :=
  tokens.countP (·.kind = .openParen) - tokens.countP (·.kind = .closeParen)

@[simp] theorem level_nil : level [] = 0 := rfl

@[simp] theorem level_append (as bs : List Token) : level (as ++ bs) = level as + level bs := by
  simp only [level, List.countP_append]
  omega

theorem level_cons (token : Token) (tokens : List Token) :
    level (token :: tokens) = level [token] + level tokens :=
  level_append [token] tokens

theorem level_openParen {token : Token} (h : token.kind = .openParen) : level [token] = 1 := by
  simp [level, h]

theorem level_closeParen {token : Token} (h : token.kind = .closeParen) : level [token] = -1 := by
  simp [level, h]

theorem level_atom {token : Token} (hopen : token.kind ≠ .openParen)
    (hclose : token.kind ≠ .closeParen) : level [token] = 0 := by
  simp [level, hopen, hclose]

/-- Behind a parenthesis, the level is that before it, and one, and that of what has followed. -/
theorem level_append_openParen {before inner : List Token} {opening : Token}
    (hopening : opening.kind = .openParen) :
    level (before ++ opening :: inner) = level before + 1 + level inner := by
  rw [level_append, level_cons, level_openParen hopening, Int.add_assoc]

theorem level_take_append_openParen {before inner : List Token} {opening : Token}
    (hopening : opening.kind = .openParen) {k : Nat} (hk : before.length < k) :
    level ((before ++ opening :: inner).take k) =
      level before + 1 + level (inner.take (k - before.length - 1)) := by
  obtain ⟨m, rfl⟩ : ∃ m, k = before.length + (m + 1) := ⟨k - before.length - 1, by omega⟩
  rw [List.take_length_add_append, List.take_succ_cons, level_append_openParen hopening,
    Nat.add_sub_cancel_left, Nat.add_sub_cancel]

/-- One token lowers the level by at most one. -/
theorem neg_one_le_level_take (token : Token) (k : Nat) : -1 ≤ level ([token].take k) := by
  cases k with
  | zero =>
    rw [List.take_zero, level_nil]
    decide
  | succ k =>
    have hone : level [token] = 1 ∨ level [token] = -1 ∨ level [token] = 0 := by
      cases h : token.kind <;> simp [level, h]
    rw [List.take_succ_cons, List.take_nil]
    omega

/-- **Tokens that close what they open**, and nothing else. -/
structure Balanced (tokens : List Token) : Prop where
  level_eq : level tokens = 0
  level_take : ∀ k, 0 ≤ level (tokens.take k)

namespace Balanced

theorem nil : Balanced [] := by
  refine ⟨rfl, fun k => ?_⟩
  rw [List.take_nil]
  exact Int.le_refl 0

theorem atom {token : Token} (hopen : token.kind ≠ .openParen)
    (hclose : token.kind ≠ .closeParen) : Balanced [token] := by
  refine ⟨level_atom hopen hclose, fun k => ?_⟩
  cases k with
  | zero => exact Int.le_refl 0
  | succ k =>
    rw [List.take_succ_cons, List.take_nil, level_atom hopen hclose]

theorem append {as bs : List Token} (ha : Balanced as) (hb : Balanced bs) :
    Balanced (as ++ bs) := by
  refine ⟨by rw [level_append, ha.level_eq, hb.level_eq, Int.add_zero], fun k => ?_⟩
  rw [List.take_append, level_append]
  exact Int.add_nonneg (ha.level_take _) (hb.level_take _)

/-- A pair of parentheses around balanced tokens. -/
theorem enclosed {opening closing : Token} {inner : List Token} (h : Balanced inner)
    (hopening : opening.kind = .openParen) (hclosing : closing.kind = .closeParen) :
    Balanced (opening :: (inner ++ [closing])) := by
  constructor
  · rw [level_cons, level_append, level_openParen hopening, level_closeParen hclosing, h.level_eq]
    rfl
  · intro k
    cases k with
    | zero => exact Int.le_refl 0
    | succ k =>
      -- one parenthesis is open, and at most that one is closed
      have hinner := h.level_take k
      have hlast := neg_one_le_level_take closing (k - inner.length)
      rw [List.take_succ_cons, level_cons, List.take_append, level_append,
        level_openParen hopening]
      omega

/-- The last of balanced tokens opens nothing. -/
theorem getLast_kind {tokens : List Token} (h : Balanced tokens) (hne : tokens ≠ []) :
    (tokens.getLast hne).kind ≠ .openParen := by
  intro hopen
  have hsplit := List.dropLast_concat_getLast hne
  have htotal := h.level_eq
  have hfront := h.level_take tokens.dropLast.length
  rw [← hsplit, level_append, level_openParen hopen] at htotal
  rw [← hsplit, List.dropLast_concat, List.take_left] at hfront
  omega

end Balanced

end Token

namespace Parser

open Token (level)

/-! ### Faults in view of levels -/

/-- **What is wrong with the token at a place**, if anything. The conditions are tried in turn:

* it is the first one, and closes a list that nobody has opened;
* the expression is complete before it: it closes a list that is not open, or begins something else,
  and then all the rest of the text is in the way;
* it opens a list where the limit allows no more;
* it closes a list right behind the parenthesis that has opened it. -/
def faultAt? (limit : Nat) (tokens : List Token) (i : Nat) : Option Error :=
  let before := tokens.take i
  match tokens[i]? with
  | none => none
  | some token =>
    if i = 0 ∧ token.kind = .closeParen then
      some ⟨.unclosedParenthesis false, [token.span]⟩
    else if 0 < i ∧ level before = 0 then
      if token.kind = .closeParen then some ⟨.unclosedParenthesis false, [token.span]⟩
      else some ⟨.expectedEnd, [⟨token.span.start, (tokens.getLastD token).span.stop⟩]⟩
    else if token.kind = .openParen ∧ level before = limit then
      some ⟨.tooDeeplyNested limit, [token.span]⟩
    else if token.kind = .closeParen then
      match before.getLast? with
      | none => none
      | some opening =>
        if opening.kind = .openParen then
          some ⟨.emptyParenthesis, [⟨opening.span.start, token.span.stop⟩]⟩
        else none
    else none

/-- A parenthesis that is opened and never closed: the level stays above the one before it. -/
def Unmatched (tokens : List Token) (i : Nat) : Prop :=
  (∃ token, tokens[i]? = some token ∧ token.kind = .openParen) ∧
    ∀ k, i < k → k ≤ tokens.length → level (tokens.take i) < level (tokens.take k)

/-- **What tokens are refused for**, if they are those of a text of so many bytes. -/
inductive Refused (limit sourceLength : Nat) (tokens : List Token) : Error → Prop
  /-- There are no tokens. -/
  | empty (h : tokens = []) : Refused limit sourceLength tokens ⟨.emptyInput, [⟨0, sourceLength⟩]⟩
  /-- The first token that is at fault. -/
  | fault {i : Nat} {error : Error} (h : faultAt? limit tokens i = some error)
      (hfirst : ∀ j < i, faultAt? limit tokens j = none) : Refused limit sourceLength tokens error
  /-- No token is at fault, but lists are open at the end: the innermost one. -/
  | unclosed {i : Nat} {token : Token} (hclean : ∀ j, faultAt? limit tokens j = none)
      (hlevel : 0 < level tokens) (htoken : tokens[i]? = some token) (hopen : Unmatched tokens i)
      (hinnermost : ∀ j, i < j → ¬ Unmatched tokens j) :
      Refused limit sourceLength tokens ⟨.unclosedParenthesis true, [token.span]⟩

variable {limit sourceLength : Nat} {tokens : List Token}

/-- If there is nothing wrong with any token, there is nothing wrong anywhere. -/
theorem faultAt?_eq_none (h : ∀ j < tokens.length, faultAt? limit tokens j = none) (i : Nat) :
    faultAt? limit tokens i = none := by
  obtain hlt | hle := Nat.lt_or_ge i tokens.length
  · exact h i hlt
  · simp [faultAt?, List.getElem?_eq_none hle]

/-- **A text is refused for one reason.** -/
theorem Refused.unique {error error' : Error} (h : Refused limit sourceLength tokens error)
    (h' : Refused limit sourceLength tokens error') : error = error' := by
  cases h with
  | empty hnil =>
    subst hnil
    cases h' with
    | empty _ => rfl
    | fault hfault _ => simp [faultAt?] at hfault
    | unclosed _ hlevel _ _ _ => exact absurd hlevel (Int.lt_irrefl 0)
  | @fault i error hfault hfirst =>
    cases h' with
    | empty hnil =>
      subst hnil
      simp [faultAt?] at hfault
    | @fault i' error' hfault' hfirst' =>
      -- neither of the two comes before the other
      obtain hlt | rfl | hgt := Nat.lt_trichotomy i i'
      · rw [hfirst' i hlt] at hfault
        cases hfault
      · exact Option.some.inj (hfault.symm.trans hfault')
      · rw [hfirst i' hgt] at hfault'
        cases hfault'
    | unclosed hclean _ _ _ _ =>
      rw [hclean i] at hfault
      cases hfault
  | @unclosed i token hclean hlevel htoken hopen hinnermost =>
    cases h' with
    | empty hnil =>
      subst hnil
      exact absurd hlevel (Int.lt_irrefl 0)
    | @fault i' error' hfault' _ =>
      rw [hclean i'] at hfault'
      cases hfault'
    | @unclosed i' token' _ _ htoken' hopen' hinnermost' =>
      obtain hlt | rfl | hgt := Nat.lt_trichotomy i i'
      · exact absurd hopen' (hinnermost i' hlt)
      · rw [Option.some.inj (htoken.symm.trans htoken')]
      · exact absurd hopen (hinnermost' i hgt)

end Parser

/-! ### The tokens behind a stack -/

open Token (level Balanced)

/-- **What some tokens leave open.** Behind the parenthesis of each open list stand balanced tokens,
and none of them exactly if the list has no items yet. -/
inductive Frame.Leaves (limit : Nat) : List Token → List Frame → Prop
  | nil : Leaves limit [] []
  | cons {before inner : List Token} {opening : Token} {items : List Expr} {stack : List Frame}
      (hstack : Leaves limit before stack) (hroom : stack.length < limit)
      (hopening : opening.kind = .openParen) (hinner : Balanced inner)
      (hitems : items = [] ↔ inner = []) :
      Leaves limit (before ++ opening :: inner) (⟨opening.span, items⟩ :: stack)

/-- What may come of the tokens that have been read. -/
def Progress.Reaches (limit : Nat) (read : List Token) : Progress → Prop
  | .done _ => read ≠ [] ∧ level read = 0
  | .more stack => Frame.Leaves limit read stack
  | .fault _ => True

/-- The fault that a token is, if it is one. -/
def Progress.fault? : Progress → Option Error
  | .fault error => some error
  | _ => none

@[simp] theorem Frame.fault?_supply (e : Expr) (stack : List Frame) :
    (Frame.supply e stack).fault? = none := by
  cases stack <;> rfl

namespace Frame

variable {limit : Nat} {endSpan : Span} {stack : List Frame} {before : List Token}

theorem Leaves.length_le (h : Leaves limit before stack) : stack.length ≤ limit := by
  cases h with
  | nil => exact Nat.zero_le _
  | cons hstack hroom hopening hinner hitems => exact hroom

/-- As many lists are open as the level says. -/
theorem Leaves.level_eq (h : Leaves limit before stack) : level before = stack.length := by
  induction h with
  | nil => rfl
  | cons hstack hroom hopening hinner hitems ih =>
    rw [Token.level_append_openParen hopening, hinner.level_eq, ih, List.length_cons]
    omega

/-- A complete expression is an item of the innermost open list, or the result. -/
theorem supply_reaches (h : Leaves limit before stack) {read : List Token} (hread : Balanced read)
    (hne : read ≠ []) (e : Expr) : (supply e stack).Reaches limit (before ++ read) := by
  cases h with
  | nil => exact ⟨hne, hread.level_eq⟩
  | cons hstack hroom hopening hinner hitems =>
    rw [List.append_assoc, List.cons_append]
    exact .cons hstack hroom hopening (hinner.append hread) (by simp [hne])

/-- **One token preserves the shape** of what has been read. -/
theorem step_reaches (h : Leaves limit before stack) (token : Token) :
    (step limit 0 stack token).Reaches limit (before ++ [token]) := by
  obtain ⟨kind, span, lexeme⟩ := token
  cases kind with
  | number value => exact supply_reaches h (.atom (by simp) (by simp)) (List.cons_ne_nil _ _) _
  | symbol => exact supply_reaches h (.atom (by simp) (by simp)) (List.cons_ne_nil _ _) _
  | openParen =>
    simp only [step]
    split
    · trivial
    · exact .cons h (by omega) rfl .nil (by simp)
  | closeParen =>
    cases h with
    | nil => trivial
    | @cons before inner opening items stack hstack hroom hopening hinner hitems =>
      cases items with
      | nil => trivial
      | cons e es =>
        -- with its parentheses, the innermost list is one item of the next one
        rw [List.append_assoc, List.cons_append]
        exact supply_reaches hstack (hinner.enclosed hopening rfl) (List.cons_ne_nil _ _) _

/-- The first token opens a list, if any is allowed, or is the expression. -/
theorem fault?_step_nil (token : Token) (rest : List Token) :
    (step limit 0 [] token).fault? = Parser.faultAt? limit (token :: rest) 0 := by
  obtain ⟨kind, span, lexeme⟩ := token
  cases kind with
  | number value => simp [step, Parser.faultAt?]
  | symbol => simp [step, Parser.faultAt?]
  | openParen =>
    have hfull : (0 : Int) = limit ↔ limit = 0 := by omega
    by_cases hzero : limit = 0
    · simp [step, Parser.faultAt?, Progress.fault?, hzero]
    · simp [step, Parser.faultAt?, Progress.fault?, hfull, hzero]
  | closeParen => simp [step, Parser.faultAt?, Progress.fault?]

/-- **One token is at fault** for the parser exactly if it is at fault in view of the levels. -/
theorem fault?_step (h : Leaves limit before stack) (token : Token) (rest : List Token) :
    (step limit 0 stack token).fault? =
      Parser.faultAt? limit (before ++ token :: rest) before.length := by
  have hlevel := h.level_eq
  have hlength := h.length_le
  cases h with
  | nil => exact fault?_step_nil token rest
  | @cons before inner opening items stack hstack hroom hopening hinner hitems =>
    push_cast [List.length_cons] at hlevel hlength
    have htoken : (before ++ opening :: inner ++ token :: rest)[
        (before ++ opening :: inner).length]? = some token := by simp
    have hfirst : ¬ (before ++ opening :: inner).length = 0 := by simp
    have hopen : ¬ level (before ++ opening :: inner) = 0 := by omega
    -- a list is open, so that the expression has begun and is not complete
    simp only [Parser.faultAt?, htoken, List.take_left]
    rw [if_neg fun hzero => hfirst hzero.1, if_neg fun hcomplete => hopen hcomplete.2]
    obtain ⟨kind, span, lexeme⟩ := token
    cases kind with
    | number value => simp [step]
    | symbol => simp [step]
    | openParen =>
      -- there is no room exactly if the level has come up to the limit
      have hfull : limit ≤ stack.length + 1 ↔ (stack.length : Int) + 1 = limit := by omega
      rw [hlevel]
      by_cases hroom' : limit ≤ stack.length + 1
      · simp [step, Progress.fault?, hroom', hfull.1 hroom']
      · simp [step, Progress.fault?, hroom', mt hfull.2 hroom']
    | closeParen =>
      rw [List.getLast?_append, List.getLast?_cons, Option.some_or]
      cases items with
      | nil =>
        obtain rfl := hitems.1 rfl
        simp [step, Progress.fault?, hopening]
      | cons e es =>
        -- the token before this one is the last of an item
        have hne : inner ≠ [] := fun hnil => List.cons_ne_nil _ _ (hitems.2 hnil)
        have hkind := hinner.getLast_kind hne
        simp [step, List.getLast?_eq_some_getLast hne, hkind]

/-- **The innermost open list** was opened by the innermost parenthesis without a partner. -/
theorem Leaves.innermost {tokens : List Token} {frame : Frame}
    (h : Leaves limit tokens (frame :: stack)) :
    ∃ i token, tokens[i]? = some token ∧ token.span = frame.opening ∧
      Parser.Unmatched tokens i ∧ ∀ j, i < j → ¬ Parser.Unmatched tokens j := by
  cases h with
  | @cons before inner opening items _ hstack hroom hopening hinner hitems =>
    have htoken : (before ++ opening :: inner)[before.length]? = some opening := by simp
    refine ⟨before.length, opening, htoken, rfl, ⟨⟨opening, htoken, hopening⟩, ?above⟩, ?later⟩
    case above =>
      -- what follows is balanced, and never closes more than it opens
      intro k hk _
      have hnonneg := hinner.level_take (k - before.length - 1)
      rw [Token.level_take_append_openParen hopening hk, List.take_left]
      omega
    case later =>
      -- at the end the level is as low as it can be, so that all that came later is closed
      rintro j hj ⟨⟨token, hget, -⟩, habove⟩
      obtain ⟨hlt, -⟩ := List.getElem?_eq_some_iff.1 hget
      have hend := habove _ hlt (Nat.le_refl _)
      have hnonneg := hinner.level_take (j - before.length - 1)
      rw [Token.level_take_append_openParen hopening hj, List.take_length,
        Token.level_append_openParen hopening, hinner.level_eq] at hend
      omega

/-! ### A pass over the tokens -/

/-- **How a pass may end**: with a complete expression, before which no token is at fault, or with
what the tokens are refused for. -/
def Ends (limit sourceLength : Nat) (tokens : List Token) :
    Except Error Expr × List Token → Prop
  | (.ok _, rest) => ∃ read, read ++ rest = tokens ∧ read ≠ [] ∧ level read = 0 ∧
      ∀ j < read.length, Parser.faultAt? limit tokens j = none
  | (.error error, _) => Parser.Refused limit sourceLength tokens error

/-- **A pass finds the first fault.** -/
theorem run_ends {sourceLength : Nat} {tokens rest : List Token} (h : Leaves limit before stack)
    (htokens : before ++ rest = tokens) (hne : tokens ≠ [])
    (hclean : ∀ j < before.length, Parser.faultAt? limit tokens j = none) :
    Ends limit sourceLength tokens (run limit 0 endSpan stack rest) := by
  induction rest generalizing before stack with
  | nil =>
    rw [List.append_nil] at htokens
    subst htokens
    cases stack with
    | nil =>
      cases h
      exact absurd rfl hne
    | cons frame stack =>
      have hlevel := h.level_eq
      obtain ⟨i, token, htoken, hspan, hopen, hinnermost⟩ := h.innermost
      rw [run, endError, ← hspan]
      refine .unclosed (Parser.faultAt?_eq_none hclean) ?_ htoken hopen hinnermost
      rw [hlevel, List.length_cons]
      omega
  | cons token rest ih =>
    have hfault := fault?_step h token rest
    have hreach := step_reaches h token
    rw [htokens] at hfault
    have hread : before ++ [token] ++ rest = tokens := by simp [← htokens]
    -- a token that is not at fault is one more of them
    have hclean' : (step limit 0 stack token).fault? = none →
        ∀ j < (before ++ [token]).length, Parser.faultAt? limit tokens j = none := by
      intro hnone j hj
      rw [List.length_append, List.length_singleton] at hj
      obtain hlt | rfl := Nat.lt_succ_iff_lt_or_eq.1 hj
      · exact hclean j hlt
      · rw [← hfault, hnone]
    rw [run]
    cases hstep : step limit 0 stack token with
    | done e =>
      rw [hstep] at hreach hclean'
      exact ⟨before ++ [token], hread, hreach.1, hreach.2, hclean' rfl⟩
    | more stack' =>
      rw [hstep] at hreach hclean'
      exact ih hreach hread (hclean' rfl)
    | fault error =>
      rw [hstep] at hfault
      exact .fault hfault.symm hclean

end Frame

namespace Parser

/-! ### Whole texts -/

variable {limit sourceLength : Nat} {tokens : List Token}

/-- The fault of a token behind a complete expression. -/
def trailingError (tokens : List Token) (token : Token) : Error :=
  if token.kind = .closeParen then ⟨.unclosedParenthesis false, [token.span]⟩
  else ⟨.expectedEnd, [⟨token.span.start, (tokens.getLastD token).span.stop⟩]⟩

/-- Where an expression is complete, the next token is at fault. -/
theorem faultAt?_of_complete {read rest : List Token} {token : Token} (hne : read ≠ [])
    (hlevel : level read = 0) :
    faultAt? limit (read ++ token :: rest) read.length =
      some (trailingError (read ++ token :: rest) token) := by
  have htoken : (read ++ token :: rest)[read.length]? = some token := by simp
  have hpos : 0 < read.length := List.length_pos_iff.2 hne
  simp only [faultAt?, trailingError, htoken, List.take_left]
  rw [if_neg fun hzero => Nat.ne_of_gt hpos hzero.1, if_pos ⟨hpos, hlevel⟩]
  split <;> rfl

/-- If tokens are left behind the expression, the first of them is reported. -/
theorem parseAll_of_trailing {p : Parser} {e : Expr} {token : Token} {rest : List Token}
    (htokens : p.tokens ≠ [])
    (h : Frame.run p.maxDepth p.depth p.endSpan [] p.rest = (.ok e, token :: rest)) :
    p.parseAll.1 = .error (trailingError p.tokens token) := by
  have hend : p.endSpan.stop = (p.tokens.getLastD token).span.stop := by
    rw [endSpan, List.getLast?_eq_some_getLast htokens, List.getLastD_eq_getLast?,
      List.getLast?_eq_some_getLast htokens, Option.getD_some]
  by_cases hclose : token.kind = .closeParen
  · simp [parseAll, parse, h, htokens, trailingError, hclose, error, span]
  · have hend' : ({ p with rest := token :: rest } : Parser).endSpan = p.endSpan := rfl
    simp [parseAll, parse, h, htokens, trailingError, hclose, hend', hend]

/-- Balanced tokens without a fault are not refused. -/
theorem not_refused (hne : tokens ≠ []) (hlevel : level tokens = 0)
    (hclean : ∀ j < tokens.length, faultAt? limit tokens j = none) (error : Error) :
    ¬ Refused limit sourceLength tokens error := by
  intro h
  cases h with
  | empty hnil => exact hne hnil
  | @fault i error hfault _ =>
    rw [faultAt?_eq_none hclean i] at hfault
    cases hfault
  | unclosed _ hpos _ _ _ =>
    rw [hlevel] at hpos
    exact Int.lt_irrefl 0 hpos

/-- What the parser says of tokens: what they are refused for, or nothing if they are not. -/
def Verdict (limit sourceLength : Nat) (tokens : List Token) : Except Error Expr → Prop
  | .ok _ => ∀ error, ¬ Refused limit sourceLength tokens error
  | .error error => Refused limit sourceLength tokens error

/-- **A parser at the beginning of its tokens** says what they are refused for. -/
theorem parseAll_verdict {p : Parser} (hrest : p.rest = p.tokens) (hdepth : p.depth = 0) :
    Verdict p.maxDepth p.sourceLength p.tokens p.parseAll.1 := by
  by_cases hnil : p.tokens = []
  · have hempty : p.parseAll.1 = .error ⟨.emptyInput, [⟨0, p.sourceLength⟩]⟩ := by
      simp [parseAll, hnil]
    rw [hempty]
    exact .empty hnil
  · have hends : Frame.Ends p.maxDepth p.sourceLength p.tokens
        (Frame.run p.maxDepth p.depth p.endSpan [] p.rest) := by
      rw [hdepth, hrest]
      exact Frame.run_ends .nil rfl hnil fun j hj => absurd hj (Nat.not_lt_zero j)
    cases hrun : Frame.run p.maxDepth p.depth p.endSpan [] p.rest with
    | mk result rest =>
      rw [hrun] at hends
      cases result with
      | error error =>
        rw [parseAll_of_run_error hnil hrun]
        exact hends
      | ok e =>
        obtain ⟨read, hread, hne, hlevel, hclean⟩ := hends
        cases rest with
        | nil =>
          rw [List.append_nil] at hread
          subst hread
          rw [parseAll_eq_ok.2 ⟨hnil, hrun⟩]
          exact not_refused hne hlevel hclean
        | cons token rest =>
          -- the expression is complete, and the next token is the first one at fault
          rw [parseAll_of_trailing hnil hrun]
          refine .fault (i := read.length) ?_ hclean
          rw [← hread]
          exact faultAt?_of_complete hne hlevel

/-- **Every refused text is reported for the right reason**, at the first token that is at fault. -/
theorem parseAll_eq_error_iff (text : String) (limit : Nat) (error : Error) :
    ((Parser.ofText text).withMaxDepth limit).parseAll.1 = .error error ↔
      Refused limit text.utf8ByteSize (Token.ofText text) error := by
  have hverdict : Verdict limit text.utf8ByteSize (Token.ofText text)
      ((Parser.ofText text).withMaxDepth limit).parseAll.1 := parseAll_verdict rfl rfl
  constructor
  · intro herror
    rw [herror] at hverdict
    exact hverdict
  · intro hrefused
    cases hresult : ((Parser.ofText text).withMaxDepth limit).parseAll.1 with
    | ok e =>
      rw [hresult] at hverdict
      exact absurd hrefused (hverdict error)
    | error error' =>
      rw [hresult] at hverdict
      rw [hverdict.unique hrefused]

end Parser

end FormalCalculus
