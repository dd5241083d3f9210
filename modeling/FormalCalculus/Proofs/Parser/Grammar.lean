import FormalCalculus.Proofs.Parser.Yield

/-!
# The grammar of texts

What a parser accepts can be said without a parser. A text reads as an expression if its tokens are
the leaves and parentheses of the expression, in order (`Expr.Reads`); two conditions exclude what
the grammar does not have, which are empty lists, and lists nested deeper than the limit.

The limit is on the nesting of lists, and the parser was found to bound heights: these differ by
one, since there is a leaf inside the deepest list (`Expr.height_le_succ_iff`).

Main statement: `Parser.parseAll_accepts_readings`.
-/

namespace FormalCalculus

namespace Expr

/-! ### Nesting -/

mutual

/-- How deep lists are nested in an expression: not at all in a leaf, and in a list once more than
in its items. -/
def nesting : Expr → Nat
  | number _ => 0
  | symbol _ => 0
  | list es => nestingList es + 1

/-- How deep lists are nested in some expressions. -/
def nestingList : List Expr → Nat
  | [] => 0
  | e :: es => max e.nesting (nestingList es)

end

theorem nestingList_le {es : List Expr} {n : Nat} :
    nestingList es ≤ n ↔ ∀ e ∈ es, e.nesting ≤ n := by
  induction es with
  | nil => simp [nestingList]
  | cons e es ih => rw [nestingList, Nat.max_le, ih, List.forall_mem_cons]

/-- **Height and nesting have the same bounds**, up to one, if no list is empty. -/
theorem height_le_succ_iff {e : Expr} (h : e.Filled) {n : Nat} :
    e.height ≤ n + 1 ↔ e.nesting ≤ n := by
  induction e using Expr.induction generalizing n with
  | number x => simp [nesting]
  | symbol name => simp [nesting]
  | list es ih =>
    obtain ⟨hne, hitems⟩ := filled_list.1 h
    rw [height_list_le, nesting]
    cases n with
    | zero =>
      -- a list is nested at least once, and higher than its first item
      obtain ⟨e, he⟩ := List.exists_mem_of_ne_nil es hne
      refine iff_of_false (fun hlow => ?_) (Nat.not_succ_le_zero _)
      have hpos := height_pos e
      have hzero := hlow e he
      omega
    | succ n =>
      rw [Nat.add_le_add_iff_right, nestingList_le]
      exact forall₂_congr fun e he => ih e he (hitems e he)

/-! ### Readings -/

/-- **The tokens read as an expression**, under a limit on the nesting of lists. -/
structure Reads (limit : Nat) (tokens : List Token) (e : Expr) : Prop where
  /-- No list is empty. -/
  filled : e.Filled
  /-- No list is nested deeper than the limit. -/
  nesting_le : e.nesting ≤ limit
  /-- The tokens mean what stands in the expression from left to right. -/
  yield_eq : tokens.map Token.terminal = e.yield

theorem reads_iff {limit : Nat} {text : String} {e : Expr} :
    Reads limit (Token.ofText text) e ↔ ofText limit text = .ok e := by
  rw [ofText_eq_ok_iff]
  constructor
  · rintro ⟨hfilled, hnesting, hyield⟩
    exact ⟨hfilled, (height_le_succ_iff hfilled).2 hnesting, hyield⟩
  · rintro ⟨hfilled, hheight, hyield⟩
    exact ⟨hfilled, (height_le_succ_iff hfilled).1 hheight, hyield⟩

end Expr

/-- **The parser accepts exactly its grammar**: a text is parsed as the expressions that its tokens
read as, of which there is at most one. -/
theorem Parser.parseAll_accepts_readings (text : String) (limit : Nat) :
    (∀ e, ((Parser.ofText text).withMaxDepth limit).parseAll.1 = .ok e ↔
      Expr.Reads limit (Token.ofText text) e) ∧
    ∀ e e', Expr.Reads limit (Token.ofText text) e → Expr.Reads limit (Token.ofText text) e' →
      e = e' := by
  refine ⟨fun e => Expr.reads_iff.symm, fun e e' he he' => ?_⟩
  -- both are what the parser returns
  have hok : Except.ok e = Except.ok e' :=
    (Expr.reads_iff.1 he).symm.trans (Expr.reads_iff.1 he')
  exact Except.ok.inj hok

end FormalCalculus
