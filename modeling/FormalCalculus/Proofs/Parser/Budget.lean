import FormalCalculus.Proofs.Parser.Yield

/-!
# Nesting is a budget

A parser counts the lists that are open around the next token, and refuses to open one more when as
many are open as its limit allows. Only the difference of the two numbers decides. So it makes no
difference whether a list more is open or one less is allowed, except to the limit that an error
reports (`Error.underLimit`):

* `Frame.run_deeper` — a pass over the tokens with `k` more lists open around it and `k` more
  allowed comes to the same end;
* `Parser.nestedTimes_of_le`, `Parser.nestedTimes_of_lt` — an operation `k` levels further inside is
  the operation with `k` more lists open, or it is refused before it begins.

A limit is felt by nothing but the error that reports it: a pass that does not end with that error
ends in the same way under every larger limit (`Frame.run_of_le`).

All of this is shown of one token (`Frame.step_deeper`, `Frame.step_of_le`) and then, by induction,
of a pass. Main statement: `Parser.nesting_budget_shared`.
-/

namespace FormalCalculus

open Text (Span)

/-! ### The limit that is reported -/

/-- The same cause, with a nesting limit of this size to report. -/
def Cause.underLimit (limit : Nat) : Cause → Cause
  | tooDeeplyNested _ => tooDeeplyNested limit
  | cause => cause

/-- **The same error under another limit.** An error that reports the nesting limit reports this one
instead. -/
def Error.underLimit (limit : Nat) (error : Error) : Error :=
  { error with cause := error.cause.underLimit limit }

/-- What a token leads to, under another limit. -/
def Progress.underLimit (limit : Nat) : Progress → Progress
  | .done e => .done e
  | .more stack => .more stack
  | .fault error => .fault (error.underLimit limit)

namespace Frame

variable {maxDepth depth : Nat} {endSpan : Span}

/-! ### More lists open and more allowed -/

theorem supply_underLimit (limit : Nat) (e : Expr) (stack : List Frame) :
    (supply e stack).underLimit limit = supply e stack := by
  cases stack <;> rfl

theorem endError_underLimit (limit : Nat) (endSpan : Span) (stack : List Frame) :
    (endError endSpan stack).underLimit limit = endError endSpan stack := by
  cases stack <;> rfl

/-- **One token** leads to the same with `k` more lists open around it and `k` more allowed. -/
theorem step_deeper (maxDepth depth k : Nat) (stack : List Frame) (token : Token) :
    step (maxDepth + k) (depth + k) stack token =
      (step maxDepth depth stack token).underLimit (maxDepth + k) := by
  obtain ⟨kind, span, lexeme⟩ := token
  cases kind with
  | number value => exact (supply_underLimit _ _ stack).symm
  | symbol => exact (supply_underLimit _ _ stack).symm
  | openParen =>
    -- the lists around and the limit have grown alike
    have hroom : maxDepth + k ≤ depth + k + stack.length ↔ maxDepth ≤ depth + stack.length := by
      omega
    simp only [step, hroom]
    split <;> rfl
  | closeParen =>
    cases stack with
    | nil => rfl
    | cons frame stack =>
      obtain ⟨opening, items⟩ := frame
      cases items with
      | nil => rfl
      | cons e es => exact (supply_underLimit _ _ stack).symm

/-- **A pass over tokens** comes to the same end with `k` more lists open around it and `k` more
allowed. -/
theorem run_deeper (maxDepth depth k : Nat) (endSpan : Span) (stack : List Frame)
    (tokens : List Token) :
    run (maxDepth + k) (depth + k) endSpan stack tokens =
      ((run maxDepth depth endSpan stack tokens).1.mapError (Error.underLimit (maxDepth + k)),
        (run maxDepth depth endSpan stack tokens).2) := by
  induction tokens generalizing stack with
  | nil =>
    rw [run, run, Except.mapError, endError_underLimit]
  | cons token tokens ih =>
    rw [run, run, step_deeper]
    cases step maxDepth depth stack token with
    | done e => rfl
    | more stack' => exact ih stack'
    | fault error => rfl

/-- An error of a pass that reports a limit reports the limit of the pass. -/
theorem limit_of_run {stack : List Frame} {tokens : List Token} {limit : Nat} {spans : List Span}
    (h : (run maxDepth depth endSpan stack tokens).1 = .error ⟨.tooDeeplyNested limit, spans⟩) :
    limit = maxDepth := by
  -- with no more lists open than before, nothing changes, and the error reports `maxDepth`
  have hsame := congrArg Prod.fst (run_deeper maxDepth depth 0 endSpan stack tokens)
  rw [Nat.add_zero, Nat.add_zero, h] at hsame
  injection hsame with herror
  injection herror with hcause
  exact Cause.tooDeeplyNested.inj hcause

/-! ### A larger limit -/

/-- **One token** leads to the same under a larger limit, unless it exceeds the smaller one. -/
theorem step_of_le {limit : Nat} (hle : maxDepth ≤ limit) (depth : Nat) (stack : List Frame)
    (token : Token) :
    step maxDepth depth stack token = .fault ⟨.tooDeeplyNested maxDepth, [token.span]⟩ ∨
      step limit depth stack token = step maxDepth depth stack token := by
  cases hkind : token.kind with
  | openParen =>
    by_cases hfull : maxDepth ≤ depth + stack.length
    · exact Or.inl (by simp only [step, hkind, if_pos hfull])
    · have hroom : ¬ limit ≤ depth + stack.length := by omega
      exact Or.inr (by simp only [step, hkind, if_neg hfull, if_neg hroom])
  | closeParen | number value | symbol => exact Or.inr (by simp only [step, hkind])

/-- **A pass over tokens** comes to the same end under a larger limit, unless it exceeds the smaller
one. -/
theorem run_of_le {limit : Nat} (hle : maxDepth ≤ limit) {stack : List Frame} {tokens : List Token}
    (h : ∀ reported spans, (run maxDepth depth endSpan stack tokens).1 ≠
      .error ⟨.tooDeeplyNested reported, spans⟩) :
    run limit depth endSpan stack tokens = run maxDepth depth endSpan stack tokens := by
  induction tokens generalizing stack with
  | nil => rfl
  | cons token tokens ih =>
    rw [run] at h
    obtain hfault | hstep := step_of_le hle depth stack token
    · rw [hfault] at h
      exact absurd rfl (h _ _)
    · rw [run, run, hstep]
      cases hprogress : step maxDepth depth stack token with
      | done e => rfl
      | more stack' =>
        rw [hprogress] at h
        exact ih h
      | fault error => rfl

end Frame

namespace Parser

variable {α : Type} {body : Parser → Result α} {p : Parser} {k : Nat}

/-! ### Several levels further inside -/

/-- **If the limit allows it**, an operation `k` levels further inside is the operation with `k`
more lists open. -/
theorem nestedTimes_of_le (h : p.depth + k ≤ p.maxDepth) :
    p.nestedTimes body k =
      ((body { p with depth := p.depth + k }).1,
        { (body { p with depth := p.depth + k }).2 with
          depth := (body { p with depth := p.depth + k }).2.depth - k }) := by
  induction k generalizing p with
  | zero => rfl
  | succ k ih =>
    have hroom : ¬ p.maxDepth ≤ p.depth := by omega
    have hinner := ih (p := { p with depth := p.depth + 1 })
      (show p.depth + 1 + k ≤ p.maxDepth by omega)
    rw [nestedTimes, nested, if_neg hroom, hinner]
    simp only [Nat.add_assoc, Nat.add_comm 1 k, Nat.sub_sub]

/-- **If the limit does not allow it**, the operation is refused at the next token, and leaves the
parser as it is. -/
theorem nestedTimes_of_lt (hdepth : p.depth ≤ p.maxDepth) (h : p.maxDepth < p.depth + k) :
    p.nestedTimes body k = (.error ⟨.tooDeeplyNested p.maxDepth, [p.span]⟩, p) := by
  induction k generalizing p with
  | zero => omega
  | succ k ih =>
    rw [nestedTimes, nested]
    by_cases hfull : p.maxDepth ≤ p.depth
    · rw [if_pos hfull]
    · -- the levels inside are left again, and the next token is still the same
      have hinner := ih (p := { p with depth := p.depth + 1 })
        (show p.depth + 1 ≤ p.maxDepth by omega)
        (show p.maxDepth < p.depth + 1 + k by omega)
      rw [if_neg hfull, hinner]
      rfl

/-- **An expression is parsed alike** with `k` more lists open and `k` more allowed. -/
theorem parse_deeper (p : Parser) (k : Nat) :
    parse { p with depth := p.depth + k, maxDepth := p.maxDepth + k } =
      (p.parse.1.mapError (Error.underLimit (p.maxDepth + k)),
        { p.parse.2 with depth := p.depth + k, maxDepth := p.maxDepth + k }) := by
  have hrun := Frame.run_deeper p.maxDepth p.depth k p.endSpan [] p.rest
  rw [parse]
  exact congrArg (fun r : Except Error Expr × List Token =>
    (r.1, { p with rest := r.2, depth := p.depth + k, maxDepth := p.maxDepth + k })) hrun

/-- A larger limit makes no difference to an expression that is parsed within the smaller one. -/
theorem parse_withMaxDepth_of_le {limit : Nat} (hle : p.maxDepth ≤ limit)
    (h : ∀ reported spans, p.parse.1 ≠ .error ⟨.tooDeeplyNested reported, spans⟩) :
    (p.withMaxDepth limit).parse = (p.parse.1, p.parse.2.withMaxDepth limit) := by
  have hrun : Frame.run limit p.depth p.endSpan [] p.rest =
      Frame.run p.maxDepth p.depth p.endSpan [] p.rest := Frame.run_of_le hle h
  exact congrArg (fun r : Except Error Expr × List Token =>
    (r.1, { p with rest := r.2, maxDepth := limit })) hrun

/-- **Nesting and the limit share one budget.** Take a parser with no list open. An expression that
is parsed `k` levels further inside is parsed as under a limit that is smaller by `k`, with the same
result and the same tokens left, only that an error for the limit reports the one of the parser. If
the limit is smaller than `k`, parsing is refused at the next token, and nothing changes. Any other
outcome than an error for the limit is the outcome under every larger limit as well. -/
theorem nesting_budget_shared (p : Parser) (hdepth : p.depth = 0) (k : Nat) :
    (k ≤ p.maxDepth →
      let plain := (p.withMaxDepth (p.maxDepth - k)).parse
      p.nestedTimes parse k =
          (plain.1.mapError (Error.underLimit p.maxDepth), plain.2.withMaxDepth p.maxDepth) ∧
        ∀ limit spans, plain.1 = .error ⟨.tooDeeplyNested limit, spans⟩ →
          limit = p.maxDepth - k) ∧
      (p.maxDepth < k →
        p.nestedTimes parse k = (.error ⟨.tooDeeplyNested p.maxDepth, [p.span]⟩, p)) ∧
      ∀ limit, p.maxDepth ≤ limit →
        (∀ reported spans, p.parse.1 ≠ .error ⟨.tooDeeplyNested reported, spans⟩) →
        (p.withMaxDepth limit).parse = (p.parse.1, p.parse.2.withMaxDepth limit) := by
  refine ⟨fun hk => ?within, fun hk => ?beyond, fun limit hle h => ?larger⟩
  case within =>
    intro plain
    have hlimit : p.maxDepth - k + k = p.maxDepth := Nat.sub_add_cancel hk
    have hinner : parse { p with depth := p.depth + k } =
        (plain.1.mapError (Error.underLimit p.maxDepth),
          { plain.2 with depth := p.depth + k, maxDepth := p.maxDepth }) := by
      have hdeeper := parse_deeper (p.withMaxDepth (p.maxDepth - k)) k
      simp only [withMaxDepth, hlimit] at hdeeper
      exact hdeeper
    refine ⟨?_, fun limit spans h => Frame.limit_of_run h⟩
    -- behind the expression, the `k` levels are left again
    rw [nestedTimes_of_le (by omega), hinner]
    simp only [Nat.add_sub_cancel]
    rfl
  case beyond => exact nestedTimes_of_lt (by omega) (by omega)
  case larger => exact parse_withMaxDepth_of_le hle h

/-- A list in a list, under a limit of three: two levels further inside there is room for the outer
list only, and four levels further inside for none. -/
theorem nesting_budget_shared_of_inner_list :
    let p := (ofText "(f (g x))").withMaxDepth 3
    let plain := (p.withMaxDepth 1).parse
    let e := Expr.list [.symbol "f", .list [.symbol "g", .symbol "x"]]
    (p.depth = 0 ∧ 2 ≤ p.maxDepth) ∧
      (plain.1 = .error ⟨.tooDeeplyNested 1, [⟨3, 4⟩]⟩ ∧
        p.nestedTimes parse 2 =
          (.error ⟨.tooDeeplyNested 3, [⟨3, 4⟩]⟩, plain.2.withMaxDepth 3)) ∧
      (p.maxDepth < 4 ∧
        p.nestedTimes parse 4 = (.error ⟨.tooDeeplyNested 3, [⟨0, 1⟩]⟩, p)) ∧
      (p.parse.1 = .ok e ∧
        (p.withMaxDepth 7).parse = (.ok e, p.parse.2.withMaxDepth 7)) := by
  intro p plain e
  have hplain : plain.1 = .error ⟨.tooDeeplyNested 1, [⟨3, 4⟩]⟩ := by decide +kernel
  have hspan : p.span = ⟨0, 1⟩ := by decide +kernel
  have hparse : p.parse.1 = .ok e := by decide +kernel
  have hle : 2 ≤ p.maxDepth := by decide
  have hlt : p.maxDepth < 4 := by decide
  obtain ⟨hwithin, -, hlarger⟩ := nesting_budget_shared p rfl 2
  obtain ⟨-, hbeyond, -⟩ := nesting_budget_shared p rfl 4
  refine ⟨⟨rfl, hle⟩, ⟨hplain, ?_⟩, ⟨hlt, ?_⟩, hparse, ?_⟩
  · rw [(hwithin hle).1]
    exact Prod.ext (congrArg (Except.mapError (Error.underLimit 3)) hplain) rfl
  · rw [hbeyond hlt, hspan]
    rfl
  · rw [← hparse]
    exact hlarger 7 (by decide) fun _ _ h => by rw [hparse] at h; cases h

end Parser

end FormalCalculus
