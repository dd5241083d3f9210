import FormalCalculus.Proofs.Differentiate.Depth

/-!
# Reading a result under the default limit

A result can be deeper than the text it comes from, and the nesting limit is the same for both. So
the result of a text that keeps the default limit may itself exceed it. Exactly those results are
read back that are at most one deeper than the limit; the others are refused for their depth
(`differentiate_round_trip_iff`). A text of depth 86 or less always has a result of the first kind.

The bound is missed by powers with a deep exponent. `Expr.inLists n e` puts `e` into `n` lists, one
inside the other; as an exponent it goes down by two levels, and the result is too deep as soon as
the power itself is as deep as the limit allows (`differentiate_round_trip_fails`).
-/

namespace FormalCalculus

variable {arith : Arithmetic}

/-- A parser that is not told otherwise has the limit 256. -/
theorem Parser.parseAll_ofText (text : String) :
    (Parser.ofText text).parseAll.1 = Expr.ofText 256 text := rfl

/-- **Which results are read back under the default limit**: those of depth 257 or less, and only
those. A text of depth at most 86 has no other. -/
theorem differentiate_round_trip_iff (arith : Arithmetic) (text out : String)
    (h : differentiateText arith {} text = .ok out) :
    ∃ s, differentiate arith {} text = .ok s ∧ out = s.text ∧
      ((Parser.ofText out).parseAll.1 = .ok s ↔ s.depth ≤ 257) ∧
      (257 < s.depth →
        ∃ span, (Parser.ofText out).parseAll.1 = .error ⟨.tooDeeplyNested 256, [span]⟩) ∧
      ∀ e, (Parser.ofText text).parseAll.1 = .ok e → e.depth ≤ 86 → s.depth ≤ 257 := by
  obtain ⟨s, hs, rfl⟩ := differentiateText_eq_ok.1 h
  have hreadable := readable_of_differentiate hs
  simp only [Expr.depth_eq_height, Parser.parseAll_ofText]
  refine ⟨s, hs, rfl, ⟨fun hparse => ?_, fun hheight => ?_⟩, fun hdeep => ?_, fun e he hdepth => ?_⟩
  · obtain ⟨-, hheight, -⟩ := Expr.ofText_eq_ok_iff.1 hparse
    exact hheight
  · exact Expr.ofText_text hreadable hheight
  · exact Expr.ofText_text_tooDeep hreadable hdeep
  · -- three times 86, less one, is the depth that the limit allows
    obtain ⟨e', d, he', hd, hs⟩ := differentiate_eq_ok.1 hs
    obtain rfl : e' = e := Except.ok.inj (he'.symm.trans he)
    have := hs.height_le
    have := hd.height_le
    omega

/-- The derivative of a power of two symbols is read back. -/
theorem differentiate_round_trip_of_power :
    let s := Expr.binary .mul (.symbol "y")
      (.binary .pow (.symbol "x") (.binary .sub (.symbol "y") (.number 1)))
    differentiateText .squaring {} "(^ x y)" = .ok "(* y (^ x (- y 1)))" ∧
      (Parser.ofText "(* y (^ x (- y 1)))").parseAll.1 = .ok s := by
  intro s
  have htext : differentiateText .squaring {} "(^ x y)" = .ok "(* y (^ x (- y 1)))" := by
    decide +kernel
  have hresult : differentiate .squaring {} "(^ x y)" = .ok s := by decide +kernel
  obtain ⟨s', hs', -, hiff, -⟩ := differentiate_round_trip_iff .squaring _ _ htext
  obtain rfl : s' = s := Except.ok.inj (hs'.symm.trans hresult)
  refine ⟨htext, hiff.2 ?_⟩
  rw [Expr.depth_eq_height]
  decide

/-! ### A result that is too deep -/

namespace Expr

/-- An expression inside of `n` lists, each the only item of the next. -/
def inLists : Nat → Expr → Expr
  | 0, e => e
  | n + 1, e => list [inLists n e]

theorem height_inLists (n : Nat) (e : Expr) : (inLists n e).height = e.height + n := by
  induction n with
  | zero => rfl
  | succ n ih =>
    simp only [inLists, height, heightList, ih]
    omega

theorem readable_inLists {n : Nat} {e : Expr} (he : e.Readable) : (inLists n e).Readable := by
  induction n with
  | zero => exact he
  | succ n ih => exact readable_list.2 ⟨by simp, by simpa using ih⟩

/-- No rule is about a list of one item. -/
theorem simplifiesTo_inLists {n : Nat} {e : Expr} (he : e.SimplifiesTo arith e) :
    (inLists n e).SimplifiesTo arith (inLists n e) := by
  induction n with
  | zero => exact he
  | succ n ih => exact simplifiesTo_list.2 ⟨_, .cons ih .nil, Or.inl ⟨rfl, rfl⟩⟩

/-- Of the derivative of `(^ x b)`, for an exponent in lists, only the factor one is simplified
away. -/
theorem simplifiesTo_powerRule_inLists (n : Nat) :
    (powerRule (symbol "x") (inLists (n + 1) (symbol "x")) (number 1)).SimplifiesTo arith
      (binary .mul (inLists (n + 1) (symbol "x"))
        (binary .pow (symbol "x") (binary .sub (inLists (n + 1) (symbol "x")) (number 1)))) := by
  have hx : (symbol "x").SimplifiesTo arith (symbol "x") := simplifiesTo_symbol.2 rfl
  have hone : (number 1).SimplifiesTo arith (number 1) := simplifiesTo_number.2 rfl
  have hb : (inLists (n + 1) (symbol "x")).SimplifiesTo arith (inLists (n + 1) (symbol "x")) :=
    simplifiesTo_inLists hx
  generalize hlist : inLists (n + 1) (symbol "x") = b at hb ⊢
  have hsub : (binary .sub b (number 1)).SimplifiesTo arith (binary .sub b (number 1)) :=
    simplifiesTo_binary.2 ⟨_, _, hb, hone, Or.inl ⟨by rw [← hlist]; rfl, rfl⟩⟩
  have hpow : (binary .pow (symbol "x") (binary .sub b (number 1))).SimplifiesTo arith
      (binary .pow (symbol "x") (binary .sub b (number 1))) :=
    simplifiesTo_binary.2 ⟨_, _, hx, hsub, Or.inl ⟨rfl, rfl⟩⟩
  -- a list of one item and one of three are not equal, so the product is no square
  have hsquare : Rules.ofOp arith .mul b
      (binary .pow (symbol "x") (binary .sub b (number 1))) = .ok none := by
    simp [Rules.ofOp, Rules.multiply, Rules.multiplyZero, Rules.multiplyOne, Rules.foldConstants,
      Rules.squareEqualFactors, ← hlist, inLists, binary, isZero, isOne, isNumber, equal, equalList]
  have hmul := simplifiesTo_binary.2 ⟨_, _, hb, hpow, Or.inl ⟨hsquare, rfl⟩⟩
  exact simplifiesTo_binary.2 ⟨_, _, hmul, hone, Or.inr ⟨_, rfl, rfl⟩⟩

end Expr

/-- **The default limit does not leave room for every result.** The power of `x` with the exponent
`x` in 255 lists is as deep as the limit allows; its derivative in print is refused. -/
theorem differentiate_round_trip_fails :
    let b := Expr.inLists 255 (.symbol "x")
    let e := Expr.binary .pow (.symbol "x") b
    let s := Expr.binary .mul b (.binary .pow (.symbol "x") (.binary .sub b (.number 1)))
    differentiateText .platform {} e.text = .ok s.text ∧
      differentiate .platform {} e.text = .ok s ∧ s.depth = 259 ∧
      ∃ span, (Parser.ofText s.text).parseAll.1 = .error ⟨.tooDeeplyNested 256, [span]⟩ := by
  intro b e s
  have hx : IsName "x" := by decide +kernel
  have hb : b.Readable := Expr.readable_inLists (Expr.readable_symbol.2 hx)
  have he : e.Readable := Expr.readable_binary.2 ⟨Expr.readable_symbol.2 hx, hb⟩
  have hheight : b.height = 256 := Expr.height_inLists 255 _
  have hparse : Expr.ofText 256 e.text = .ok e := by
    refine Expr.ofText_text he ?_
    simp only [e, Expr.height_binary, Expr.height_symbol, hheight]
    decide
  have hresult : differentiate .platform {} e.text = .ok s :=
    differentiate_eq_ok.2
      ⟨e, _, hparse, .pow (.symbol "x"), Expr.simplifiesTo_powerRule_inLists 254⟩
  have hdepth : s.height = 259 := by
    simp only [s, Expr.height_binary, Expr.height_symbol, Expr.height_number, hheight]
    decide
  refine ⟨differentiateText_eq_ok.2 ⟨s, hresult, rfl⟩, hresult, ?_, ?_⟩
  · rw [Expr.depth_eq_height, hdepth]
  · rw [Parser.parseAll_ofText]
    exact Expr.ofText_text_tooDeep (readable_of_differentiate hresult) (by rw [hdepth]; decide)

end FormalCalculus
