import FormalCalculus.Parser.Automaton
import FormalCalculus.Proofs.Expr.Height
import FormalCalculus.Proofs.Expr.Yield

/-!
# Parsing inverts the yield

The parser accepts a text as the expression `e` exactly if the tokens of the text are the yield of
`e`, no list of `e` is empty, and `e` is not nested too deeply (`Expr.ofText_eq_ok_iff`). Of the
nesting limit and the lists already open, only the difference counts: the *room* that is left.

* **Soundness** is an invariant of the stack. The tokens read so far are the yield of the open
  lists (`Frame.stackYield`), and whatever the open lists hold fits into the room that their place
  leaves (`Frame.Fits`). One token preserves it (`Frame.step_sound`), hence a pass does
  (`Frame.run_sound`).
* **Completeness** follows the expression. A pass over the yield of `e` comes down to supplying `e`
  to the stack (`Frame.run_yield`), if there is room for it; if there is not, it ends at the list
  that is nested too deeply (`Frame.run_yield_tooDeep`).
-/

namespace FormalCalculus

open Text (Span)

/-- The terminals that have been read when these lists are open. -/
def Frame.stackYield : List Frame → List Terminal
  | [] => []
  | frame :: stack => stackYield stack ++ .openParen :: Expr.yieldList frame.items.reverse

/-- **The invariant of the stack.** There is room for every open list, and the items it holds have
no empty lists and fit into the room that is left inside of it. -/
def Frame.Fits (room : Nat) : List Frame → Prop
  | [] => True
  | frame :: stack =>
    stack.length < room ∧ (∀ e ∈ frame.items, e.Filled ∧ e.height + stack.length ≤ room) ∧
      Fits room stack

/-- What may come of the terminals `ts`. -/
def Progress.Sound (room : Nat) (ts : List Terminal) : Progress → Prop
  | .done e => e.Filled ∧ e.height ≤ room + 1 ∧ e.yield = ts
  | .more stack => Frame.Fits room stack ∧ Frame.stackYield stack = ts
  | .fault _ => True

namespace Frame

variable {maxDepth depth room : Nat} {endSpan : Span} {stack : List Frame} {e : Expr}

/-! ### Soundness -/

theorem Fits.length_le (h : Fits room stack) : stack.length ≤ room := by
  cases stack with
  | nil => exact Nat.zero_le _
  | cons frame stack => exact h.1

/-- Supplying an expression that fits. -/
theorem supply_sound (hstack : Fits room stack) (hfilled : e.Filled)
    (hheight : e.height + stack.length ≤ room + 1) :
    (supply e stack).Sound room (stackYield stack ++ e.yield) := by
  cases stack with
  | nil => exact ⟨hfilled, hheight, rfl⟩
  | cons frame stack =>
    obtain ⟨hroom, hitems, hrest⟩ := hstack
    rw [List.length_cons] at hheight
    refine ⟨⟨hroom, List.forall_mem_cons.2 ⟨⟨hfilled, by omega⟩, hitems⟩, hrest⟩, ?_⟩
    simp [stackYield, Expr.yieldList_append, Expr.yieldList]

/-- **One token preserves the invariant**, and adds its terminal to what has been read. -/
theorem step_sound (hstack : Fits (maxDepth - depth) stack) (token : Token) :
    (step maxDepth depth stack token).Sound (maxDepth - depth)
      (stackYield stack ++ [token.terminal]) := by
  have hlength := hstack.length_le
  obtain ⟨kind, span, lexeme⟩ := token
  cases kind with
  | number value =>
    refine supply_sound hstack (Expr.everywhere_number.2 trivial) ?_
    rw [Expr.height_number]
    omega
  | symbol =>
    refine supply_sound hstack (Expr.everywhere_symbol.2 trivial) ?_
    rw [Expr.height_symbol]
    omega
  | openParen =>
    simp only [step]
    split
    · trivial
    · refine ⟨⟨by omega, by simp, hstack⟩, ?_⟩
      simp [stackYield, Expr.yieldList, Token.terminal, Token.Kind.terminal]
  | closeParen =>
    cases stack with
    | nil => trivial
    | cons frame stack =>
      obtain ⟨opening, items⟩ := frame
      obtain ⟨hroom, hitems, hrest⟩ := hstack
      cases items with
      | nil => trivial
      | cons e es =>
        -- the innermost list is complete, and becomes an item of the next one
        have hfilled : (Expr.list (e :: es).reverse).Filled :=
          Expr.filled_list.2 ⟨by simp, fun e' he' => (hitems e' (List.mem_reverse.1 he')).1⟩
        have hheight :
            (Expr.list (e :: es).reverse).height ≤ maxDepth - depth - stack.length + 1 := by
          refine Expr.height_list_le.2 fun e' he' => ?_
          have := (hitems e' (List.mem_reverse.1 he')).2
          omega
        have hsound := supply_sound hrest hfilled (by omega)
        simpa [step, stackYield, Expr.yield, Token.terminal, Token.Kind.terminal] using hsound

/-- **What a pass accepts.** The tokens it has read, behind what had been read before, are the
yield of the expression that it returns. -/
theorem run_sound (hstack : Fits (maxDepth - depth) stack) {tokens rest : List Token}
    (h : run maxDepth depth endSpan stack tokens = (.ok e, rest)) :
    e.Filled ∧ e.height ≤ maxDepth - depth + 1 ∧
      e.yield ++ rest.map Token.terminal = stackYield stack ++ tokens.map Token.terminal := by
  induction tokens generalizing stack with
  | nil => cases h
  | cons token tokens ih =>
    have hsound := step_sound hstack token
    rw [run] at h
    cases hstep : step maxDepth depth stack token with
    | done e' =>
      rw [hstep] at h hsound
      cases h
      obtain ⟨hfilled, hheight, hyield⟩ := hsound
      exact ⟨hfilled, hheight, by simp [hyield]⟩
    | more stack' =>
      -- the invariant holds of the new stack, which has read one terminal more
      rw [hstep] at h hsound
      obtain ⟨hstack', hyield⟩ := hsound
      have := ih hstack' h
      rw [hyield] at this
      simpa using this
    | fault error =>
      rw [hstep] at h
      cases h

/-! ### Completeness -/

/-- Going on after a token. -/
def resume (maxDepth depth : Nat) (endSpan : Span) (rest : List Token) :
    Progress → Except Error Expr × List Token
  | .done e => (.ok e, rest)
  | .more stack => run maxDepth depth endSpan stack rest
  | .fault error => (.error error, rest)

theorem run_cons (token : Token) (rest : List Token) :
    run maxDepth depth endSpan stack (token :: rest) =
      resume maxDepth depth endSpan rest (step maxDepth depth stack token) := by
  rw [run]
  cases step maxDepth depth stack token <;> rfl

theorem kind_of_terminal_paren (paren : Paren) {token : Token}
    (h : token.terminal = paren.terminal) : token.kind = paren.kind := by
  obtain ⟨kind, span, lexeme⟩ := token
  cases paren <;> cases kind <;> cases h <;> rfl

theorem step_openParen {token : Token} (h : token.kind = .openParen)
    (hroom : ¬ maxDepth ≤ depth + stack.length) :
    step maxDepth depth stack token = .more (⟨token.span, []⟩ :: stack) := by
  simp [step, h, hroom]

/-- Tokens that yield a list are a pair of parentheses around tokens that yield its items. -/
theorem exists_of_map_terminal_list {tokens : List Token} {es : List Expr}
    (h : tokens.map Token.terminal = (Expr.list es).yield) :
    ∃ opening closing : Token, ∃ inner : List Token,
      tokens = opening :: (inner ++ [closing]) ∧ opening.kind = .openParen ∧
        closing.kind = .closeParen ∧ inner.map Token.terminal = Expr.yieldList es := by
  rw [Expr.yield] at h
  obtain ⟨opening, rest, rfl, hopening, hrest⟩ := List.map_eq_cons_iff.1 h
  obtain ⟨inner, last, rfl, hinner, hlast⟩ := List.map_eq_append_iff.1 hrest
  obtain ⟨closing, behind, rfl, hclosing, hbehind⟩ := List.map_eq_cons_iff.1 hlast
  obtain rfl := List.map_eq_nil_iff.1 hbehind
  exact ⟨opening, closing, inner, rfl, kind_of_terminal_paren .opening hopening,
    kind_of_terminal_paren .closing hclosing, hinner⟩

/-- A pass over the yields of items that are all read to the end collects them in the innermost
open list. -/
theorem run_yieldList {es : List Expr}
    (hread : ∀ e ∈ es, ∀ {stack : List Frame} {tokens : List Token},
      tokens.map Token.terminal = e.yield → e.height + stack.length ≤ maxDepth - depth + 1 →
      ∀ rest, run maxDepth depth endSpan stack (tokens ++ rest) =
        resume maxDepth depth endSpan rest (supply e stack))
    (hheight : ∀ e ∈ es, e.height + stack.length ≤ maxDepth - depth) {tokens : List Token}
    (htokens : tokens.map Token.terminal = Expr.yieldList es) (opening : Span) (items : List Expr)
    (rest : List Token) :
    run maxDepth depth endSpan (⟨opening, items⟩ :: stack) (tokens ++ rest) =
      run maxDepth depth endSpan (⟨opening, es.reverse ++ items⟩ :: stack) rest := by
  induction es generalizing tokens items with
  | nil =>
    obtain rfl := List.map_eq_nil_iff.1 htokens
    rfl
  | cons e es ih =>
    rw [Expr.yieldList_cons] at htokens
    obtain ⟨first, others, rfl, hfirst, hothers⟩ := List.map_eq_append_iff.1 htokens
    have he := hheight e List.mem_cons_self
    rw [List.append_assoc, hread e List.mem_cons_self hfirst (by rw [List.length_cons]; omega)]
    simp only [supply, resume]
    rw [ih (fun e' he' => hread e' (List.mem_cons_of_mem _ he'))
      (fun e' he' => hheight e' (List.mem_cons_of_mem _ he')) hothers]
    simp

/-- **A pass over the yield of an expression supplies the expression**, if there is room. -/
theorem run_yield (hfilled : e.Filled) {tokens : List Token}
    (htokens : tokens.map Token.terminal = e.yield)
    (hheight : e.height + stack.length ≤ maxDepth - depth + 1) (rest : List Token) :
    run maxDepth depth endSpan stack (tokens ++ rest) =
      resume maxDepth depth endSpan rest (supply e stack) := by
  induction e using Expr.induction generalizing stack tokens rest with
  | number x | symbol name =>
    -- a leaf is one token, of the one kind that means it
    rw [Expr.yield] at htokens
    obtain ⟨⟨kind, span, lexeme⟩, rfl, htoken⟩ := List.map_eq_singleton_iff.1 htokens
    rw [List.singleton_append, run_cons]
    cases kind <;> cases htoken
    rfl
  | list es ih =>
    obtain ⟨hne, hitems⟩ := Expr.filled_list.1 hfilled
    obtain ⟨opening, closing, inner, rfl, hopening, hclosing, hinner⟩ :=
      exists_of_map_terminal_list htokens
    have hlow : ∀ e ∈ es, e.height + stack.length ≤ maxDepth - depth := by
      intro e he
      have := Expr.height_lt_of_mem he
      omega
    -- a list has an item, and where there is room for the item there is room for the list
    have hroom : ¬ maxDepth ≤ depth + stack.length := by
      obtain ⟨e, he⟩ := List.exists_mem_of_ne_nil es hne
      have := Expr.height_pos e
      have := hlow e he
      omega
    have hread : run maxDepth depth endSpan (⟨opening.span, []⟩ :: stack)
        (inner ++ closing :: rest) =
          run maxDepth depth endSpan (⟨opening.span, es.reverse ++ []⟩ :: stack) (closing :: rest) :=
      run_yieldList (fun e he _ _ ht hh rest => ih e he (hitems e he) ht hh rest) hlow hinner ..
    rw [List.cons_append, List.append_assoc, run_cons, step_openParen hopening hroom, resume,
      List.singleton_append, hread, run_cons, List.append_nil]
    -- at the closing parenthesis, the items are there in reverse
    cases hreverse : es.reverse with
    | nil => exact absurd (List.reverse_eq_nil_iff.1 hreverse) hne
    | cons e' es' =>
      have hes : (e' :: es').reverse = es := by rw [← hreverse, List.reverse_reverse]
      simp [step, hclosing, ← hes]

/-- A pass over the yields of items ends at the first that is too deep, if that is so of a pass over
the yield of any one of them. -/
theorem run_yieldList_tooDeep {es : List Expr} (hfilled : ∀ e ∈ es, e.Filled)
    (hdeep : ∀ e ∈ es, ∀ {stack : List Frame} {tokens : List Token},
      tokens.map Token.terminal = e.yield → stack.length ≤ maxDepth - depth →
      maxDepth - depth + 1 < e.height + stack.length →
      ∀ rest, ∃ span rest', run maxDepth depth endSpan stack (tokens ++ rest) =
        (.error ⟨.tooDeeplyNested maxDepth, [span]⟩, rest'))
    (hroom : stack.length < maxDepth - depth)
    (hheight : ∃ e ∈ es, maxDepth - depth < e.height + stack.length) {tokens : List Token}
    (htokens : tokens.map Token.terminal = Expr.yieldList es) (opening : Span) (items : List Expr)
    (rest : List Token) :
    ∃ span rest', run maxDepth depth endSpan (⟨opening, items⟩ :: stack) (tokens ++ rest) =
      (.error ⟨.tooDeeplyNested maxDepth, [span]⟩, rest') := by
  induction es generalizing tokens items with
  | nil => simp at hheight
  | cons e es ih =>
    rw [Expr.yieldList_cons] at htokens
    obtain ⟨first, others, rfl, hfirst, hothers⟩ := List.map_eq_append_iff.1 htokens
    rw [List.append_assoc]
    by_cases he : maxDepth - depth < e.height + stack.length
    · exact hdeep e List.mem_cons_self hfirst (by rw [List.length_cons]; omega)
        (by rw [List.length_cons]; omega) _
    · -- this item is read to the end, so one of the others is too deep
      rw [run_yield (hfilled e List.mem_cons_self) hfirst (by rw [List.length_cons]; omega)]
      have hothersDeep : ∃ e ∈ es, maxDepth - depth < e.height + stack.length := by
        obtain ⟨e', he', hdeep'⟩ := hheight
        obtain rfl | he' := List.mem_cons.1 he'
        · exact absurd hdeep' he
        · exact ⟨e', he', hdeep'⟩
      exact ih (fun e' he' => hfilled e' (List.mem_cons_of_mem _ he'))
        (fun e' he' => hdeep e' (List.mem_cons_of_mem _ he')) hothersDeep hothers _

/-- **A pass over the yield of an expression that is too deep ends in that error.** -/
theorem run_yield_tooDeep (hfilled : e.Filled) {tokens : List Token}
    (htokens : tokens.map Token.terminal = e.yield) (hroom : stack.length ≤ maxDepth - depth)
    (hheight : maxDepth - depth + 1 < e.height + stack.length) (rest : List Token) :
    ∃ span rest', run maxDepth depth endSpan stack (tokens ++ rest) =
      (.error ⟨.tooDeeplyNested maxDepth, [span]⟩, rest') := by
  induction e using Expr.induction generalizing stack tokens rest with
  | number x =>
    rw [Expr.height_number] at hheight
    omega
  | symbol name =>
    rw [Expr.height_symbol] at hheight
    omega
  | list es ih =>
    obtain ⟨hne, hitems⟩ := Expr.filled_list.1 hfilled
    obtain ⟨opening, closing, inner, rfl, hopening, hclosing, hinner⟩ :=
      exists_of_map_terminal_list htokens
    rw [List.cons_append, List.append_assoc, run_cons]
    by_cases hfull : maxDepth ≤ depth + stack.length
    · -- there is no room for the list itself
      refine ⟨opening.span, inner ++ ([closing] ++ rest), ?_⟩
      simp [step, hopening, hfull, resume]
    · -- there is, so that one of its items is too deep
      rw [step_openParen hopening hfull]
      have hdeep : ∃ e ∈ es, maxDepth - depth < e.height + stack.length := by
        by_contra hlow
        simp only [not_exists, not_and, Nat.not_lt] at hlow
        have : (Expr.list es).height ≤ maxDepth - depth - stack.length + 1 :=
          Expr.height_list_le.2 fun e he => by have := hlow e he; omega
        omega
      exact run_yieldList_tooDeep hitems
        (fun e he _ _ ht hr hh rest => ih e he (hitems e he) ht hr hh rest) (by omega) hdeep
        hinner ..

end Frame

/-! ### Whole texts -/

namespace Parser

/-- A parser accepts an expression if a pass over the tokens does, and there is nothing behind. -/
theorem parseAll_eq_ok {p : Parser} {e : Expr} :
    p.parseAll.1 = .ok e ↔
      p.tokens ≠ [] ∧ Frame.run p.maxDepth p.depth p.endSpan [] p.rest = (.ok e, []) := by
  unfold parseAll parse
  by_cases htokens : p.tokens = []
  · simp [htokens]
  · obtain ⟨result, rest⟩ := Frame.run p.maxDepth p.depth p.endSpan [] p.rest
    cases result with
    | error error => simp [htokens]
    | ok e' =>
      cases rest with
      | nil => simp [htokens]
      | cons token rest =>
        simp only [List.isEmpty_iff, htokens, if_false]
        split <;> simp

/-- The errors of the pass are those of the parser. -/
theorem parseAll_of_run_error {p : Parser} {error : Error} {rest : List Token}
    (htokens : p.tokens ≠ [])
    (h : Frame.run p.maxDepth p.depth p.endSpan [] p.rest = (.error error, rest)) :
    p.parseAll.1 = .error error := by
  simp [parseAll, parse, h, htokens]

end Parser

namespace Expr

variable {limit : Nat} {text : String} {e : Expr}

/-- A text that yields an expression has tokens. -/
theorem tokens_ne_nil (hyield : (Token.ofText text).map Token.terminal = e.yield) :
    Token.ofText text ≠ [] := by
  intro htokens
  rw [htokens] at hyield
  exact yield_ne_nil e hyield.symm

/-- **What a text is parsed as**: the expression whose yield its tokens are, if that has no empty
list and is not nested too deeply. -/
theorem ofText_eq_ok_iff :
    ofText limit text = .ok e ↔
      e.Filled ∧ e.height ≤ limit + 1 ∧ (Token.ofText text).map Token.terminal = e.yield := by
  have hparse : ofText limit text = .ok e ↔ Token.ofText text ≠ [] ∧
      Frame.run limit 0 (Parser.ofText text).endSpan [] (Token.ofText text) = (.ok e, []) :=
    Parser.parseAll_eq_ok
  rw [hparse]
  constructor
  · rintro ⟨-, hrun⟩
    obtain ⟨hfilled, hheight, hyield⟩ := Frame.run_sound (by trivial) hrun
    exact ⟨hfilled, hheight, by simpa [Frame.stackYield] using hyield.symm⟩
  · rintro ⟨hfilled, hheight, hyield⟩
    have hrun : Frame.run limit 0 (Parser.ofText text).endSpan [] (Token.ofText text ++ []) =
        (.ok e, []) := Frame.run_yield hfilled hyield hheight []
    rw [List.append_nil] at hrun
    exact ⟨tokens_ne_nil hyield, hrun⟩

/-- **What is nested too deeply is refused** for that reason. -/
theorem ofText_tooDeep (hfilled : e.Filled) (hheight : limit + 1 < e.height)
    (hyield : (Token.ofText text).map Token.terminal = e.yield) :
    ∃ span, ofText limit text = .error ⟨.tooDeeplyNested limit, [span]⟩ := by
  obtain ⟨span, rest, hrun⟩ : ∃ span rest,
      Frame.run limit 0 (Parser.ofText text).endSpan [] (Token.ofText text ++ []) =
        (.error ⟨.tooDeeplyNested limit, [span]⟩, rest) :=
    Frame.run_yield_tooDeep hfilled hyield (Nat.zero_le _) hheight []
  rw [List.append_nil] at hrun
  exact ⟨span, Parser.parseAll_of_run_error (tokens_ne_nil hyield) hrun⟩

/-- A parsed expression is readable. -/
theorem readable_of_ofText (h : ofText limit text = .ok e) : e.Readable := by
  obtain ⟨hfilled, -, hyield⟩ := ofText_eq_ok_iff.1 h
  refine readable_of_yield hfilled fun t ht => ?_
  rw [← hyield, Token.map_terminal_ofText] at ht
  exact readable_of_mem_terminals ht

/-- **A readable expression is read back** under every limit that it keeps. -/
theorem ofText_text (he : e.Readable) (hheight : e.height ≤ limit + 1) :
    ofText limit e.text = .ok e :=
  ofText_eq_ok_iff.2 ⟨he.filled, hheight, map_terminal_ofText_text he⟩

/-- Under any other limit it is refused. -/
theorem ofText_text_tooDeep (he : e.Readable) (hheight : limit + 1 < e.height) :
    ∃ span, ofText limit e.text = .error ⟨.tooDeeplyNested limit, [span]⟩ :=
  ofText_tooDeep he.filled hheight (map_terminal_ofText_text he)

end Expr

end FormalCalculus
