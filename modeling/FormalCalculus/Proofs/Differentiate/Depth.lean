import FormalCalculus.Proofs.Differentiate.Stage
import FormalCalculus.Proofs.Parser.Yield
import FormalCalculus.Proofs.Simplify.NormalForm

/-!
# How deep the result is, and that it can be read

Differentiation makes an expression deeper, by a factor of three at most: the derivative of a
quotient stands three levels above those of its operands, and the exponent of a power goes down by
four levels at once, but only once (`Expr.Derives.height_le`). Simplification makes no expression
deeper (`Expr.SimplifiesTo.height_le`). Both keep an expression readable, because the numbers they
put in are finite and the symbols are those of operators (`Expr.Derives.readable`,
`Expr.SimplifiesTo.readable`).

So the result in print is read back as what it is, under every limit that leaves room for it.
Main statement: `differentiate_depth_and_read_back`.
-/

namespace FormalCalculus

variable {arith : Arithmetic} {v : Variable}

/-! ### Depth -/

/-- **Depth of a derivative.** -/
theorem Expr.Derives.height_le {e d : Expr} (h : Derives v e d) : d.height ≤ 3 * e.height - 1 := by
  induction h with
  | number x => simp
  | symbol name => simp
  | @add a b da db _ _ iha ihb | @sub a b da db _ _ iha ihb =>
    have := a.height_pos
    have := b.height_pos
    simp only [height_binary]
    omega
  | @mul a b da db _ _ iha ihb =>
    have := a.height_pos
    have := b.height_pos
    simp only [productRule, height_binary]
    omega
  | @div a b da db _ _ iha ihb =>
    -- the derivatives of the operands go down by three levels
    have := a.height_pos
    have := b.height_pos
    simp only [quotientRule, height_binary, height_number]
    omega
  | @pow a b da _ iha =>
    -- the exponent goes down by four, but is no derivative
    have := a.height_pos
    have := b.height_pos
    simp only [powerRule, height_binary, height_number]
    omega
  | @sin a da _ iha | @cos a da _ iha | @tan a da _ iha | @exp a da _ iha | @ln a da _ iha =>
    have := a.height_pos
    simp only [sinRule, cosRule, tanRule, expRule, lnRule, height_unary, height_binary,
      height_number]
    omega

/-- A rule offers nothing deeper than what it is offered for. -/
theorem Rules.Fires.height_le {op : Op} {a b : Expr} {r : Rewrite} (h : Fires arith op a b r) :
    r.result.height ≤ max a.height b.height + 1 := by
  induction h with
  | @subtractFromZero a b _ _ | @squareEqualFactors a b _ _ _ =>
    -- one operand is replaced by a number, which is no deeper
    have := a.height_pos
    have := b.height_pos
    simp only [Rewrite.single, Expr.height_binary, Expr.height_number]
    omega
  | @subtractFromZeroProduct a b r _ _ ih =>
    have := b.height_pos
    rw [Expr.height_number] at ih
    exact ih.trans (by omega)
  | addZeroLeft | addZeroRight | subtractZero | multiplyOneLeft | multiplyOneRight | divideOne
  | powerOne =>
    simp only [Rewrite.single]
    omega
  | multiplyZero | divideEqual | powerZero | foldConstants =>
    simp [Rewrite.single]

namespace Expr

/-- **Simplification makes no expression deeper.** -/
theorem SimplifiesTo.height_le {e s : Expr} (h : e.SimplifiesTo arith s) :
    s.height ≤ e.height := by
  -- a list is as deep as its items allow, and theirs are no deeper
  have hitems {es es' : List Expr} (hes : List.Forall₂ (fun e s => s.height ≤ e.height) es es') :
      (list es').height ≤ (list es).height := by
    rw [height]
    refine height_list_le.2 fun e' he' => ?_
    obtain ⟨e, he, hle⟩ := exists_partner hes.flip he'
    exact hle.trans (heightList_le.1 (Nat.le_refl _) e he)
  refine SimplifiesTo.induction (motive := fun e s => s.height ≤ e.height)
    ?number ?symbol ?kept ?rewritten h
  case number => exact fun _ => Nat.le_refl _
  case symbol => exact fun _ => Nat.le_refl _
  case kept => exact fun es es' hes _ => hitems hes
  case rewritten =>
    intro es op a b r hes hfires
    calc r.result.height ≤ max a.height b.height + 1 := hfires.height_le
      _ = (binary op a b).height := (height_binary op a b).symm
      _ ≤ (list es).height := hitems hes

/-! ### Readability -/

/-- The constants of the rules are finite. -/
theorem isFinite_constants : (0 : Float).isFinite = true ∧ (1 : Float).isFinite = true ∧
    (2 : Float).isFinite = true ∧ (-1 : Float).isFinite = true := by
  decide +kernel

/-- **The derivative of a readable expression is readable.** -/
theorem Derives.readable {e d : Expr} (h : Derives v e d) (he : e.Readable) : d.Readable := by
  obtain ⟨hzero, hone, htwo, hminusOne⟩ := isFinite_constants
  induction h with
  | number x => exact readable_number.2 hzero
  | symbol name =>
    refine readable_number.2 ?_
    split
    · exact hone
    · exact hzero
  | add _ _ iha ihb | sub _ _ iha ihb =>
    obtain ⟨ha, hb⟩ := readable_binary.1 he
    simp [iha ha, ihb hb]
  | mul _ _ iha ihb | div _ _ iha ihb =>
    obtain ⟨ha, hb⟩ := readable_binary.1 he
    simp [productRule, quotientRule, ha, hb, iha ha, ihb hb, htwo]
  | pow _ iha =>
    obtain ⟨ha, hb⟩ := readable_binary.1 he
    simp [powerRule, ha, hb, iha ha, hone]
  | sin _ iha | cos _ iha | tan _ iha | exp _ iha | ln _ iha =>
    have ha := readable_unary.1 he
    simp [sinRule, cosRule, tanRule, expRule, lnRule, ha, iha ha, htwo, hminusOne]

end Expr

/-- What a rule offers on readable operands is readable. -/
theorem Rules.Fires.readable {op : Op} {a b : Expr} {r : Rewrite} (h : Fires arith op a b r)
    (ha : a.Readable) (hb : b.Readable) : r.result.Readable := by
  obtain ⟨-, -, htwo, hminusOne⟩ := Expr.isFinite_constants
  refine h.preserves (fun x hx => Expr.readable_number.2 hx) (fun b hb => ?_) (fun a ha => ?_) ha hb
  · exact Expr.readable_binary.2 ⟨Expr.readable_number.2 hminusOne, hb⟩
  · exact Expr.readable_binary.2 ⟨ha, Expr.readable_number.2 htwo⟩

namespace Expr

/-- **Simplification keeps an expression readable.** -/
theorem SimplifiesTo.readable {e s : Expr} (h : e.SimplifiesTo arith s) (he : e.Readable) :
    s.Readable := by
  have hitems {es es' : List Expr}
      (hes : List.Forall₂ (fun e s => e.Readable → s.Readable) es es') (h : (list es).Readable) :
      ∀ e' ∈ es', e'.Readable :=
    forall_mem_of_forall₂ hes (readable_list.1 h).2
  refine SimplifiesTo.induction (motive := fun e s => e.Readable → s.Readable)
    ?number ?symbol ?kept ?rewritten h he
  case number => exact fun _ h => h
  case symbol => exact fun _ h => h
  case kept =>
    intro es es' hes _ h
    -- the list is kept, and with it its items
    refine readable_list.2 ⟨?_, hitems hes h⟩
    rintro rfl
    exact (readable_list.1 h).1 (List.forall₂_nil_right_iff.1 hes)
  case rewritten =>
    intro es op a b r hes hfires h
    exact hfires.readable (hitems hes h a (by simp)) (hitems hes h b (by simp))

end Expr

/-! ### The whole way -/

/-- The result is readable. -/
theorem readable_of_differentiate {options : Options} {text : String} {s : Expr}
    (h : differentiate arith options text = .ok s) : s.Readable := by
  obtain ⟨e, d, he, hd, hs⟩ := differentiate_eq_ok.1 h
  exact hs.readable (hd.readable (Expr.readable_of_ofText he))

/-- A parsed expression is at most one deeper than the limit. -/
theorem depth_le_of_ofText {limit : Nat} {text : String} {e : Expr}
    (h : Expr.ofText limit text = .ok e) : e.depth ≤ limit + 1 := by
  obtain ⟨-, hheight, -⟩ := Expr.ofText_eq_ok_iff.1 h
  rwa [Expr.depth_eq_height]

/-- **Depth of all stages, and reading back.** A derivative is less than three times as deep as the
expression it is taken of. On the whole way from a text, every stage is bounded by the nesting limit
of the text, simplification makes nothing deeper, and the result in print is read as the result
under every limit that has room for it, which three times the limit and one always has. -/
theorem differentiate_depth_and_read_back (arith : Arithmetic) :
    (∀ (v : Variable) (e d : Expr), e.derivative v = .ok d → d.depth ≤ 3 * e.depth - 1) ∧
      ∀ (options : Options) (text : String) (e : Expr),
        Expr.ofText options.maxDepth text = .ok e →
          e.depth ≤ options.maxDepth + 1 ∧
            ∀ d, e.derivative options.respectTo = .ok d →
              d.depth ≤ 3 * options.maxDepth + 2 ∧
                ∀ s, (d.simplify arith).outcome = .ok s →
                  s.depth ≤ d.depth ∧
                    differentiateText arith options text = .ok s.text ∧
                    (∀ limit, s.depth - 1 ≤ limit → Expr.ofText limit s.text = .ok s) ∧
                    Expr.ofText (3 * options.maxDepth + 1) s.text = .ok s := by
  have hgrowth : ∀ (v : Variable) (e d : Expr), e.derivative v = .ok d →
      d.depth ≤ 3 * e.depth - 1 := by
    intro v e d hd
    rw [Expr.depth_eq_height, Expr.depth_eq_height]
    exact (Expr.derivative_eq_ok.1 hd).height_le
  refine ⟨hgrowth, fun options text e he => ?_⟩
  have hparsed := depth_le_of_ofText he
  refine ⟨hparsed, fun d hd => ?_⟩
  have hderived : d.depth ≤ 3 * options.maxDepth + 2 := by
    have := hgrowth _ e d hd
    omega
  refine ⟨hderived, fun s hs => ?_⟩
  have hsimplified : s.depth ≤ d.depth := by
    rw [Expr.depth_eq_height, Expr.depth_eq_height]
    exact Expr.SimplifiesTo.height_le hs
  have hresult : differentiate arith options text = .ok s :=
    differentiate_eq_ok.2 ⟨e, d, he, Expr.derivative_eq_ok.1 hd, hs⟩
  have hread : ∀ limit, s.depth - 1 ≤ limit → Expr.ofText limit s.text = .ok s := by
    intro limit hlimit
    rw [Expr.depth_eq_height] at hlimit
    exact Expr.ofText_text (readable_of_differentiate hresult) (by omega)
  exact ⟨hsimplified, differentiateText_eq_ok.2 ⟨s, hresult, rfl⟩, hread, hread _ (by omega)⟩

/-- A power of two symbols reaches every bound: under the limit one its derivative has the depth
five, and the result, of depth four, is read back under the limit three. -/
theorem differentiate_depth_and_read_back_of_power :
    let e := Expr.binary .pow (.symbol "x") (.symbol "y")
    let d := Expr.powerRule (.symbol "x") (.symbol "y") (.number 1)
    let s := Expr.binary .mul (.symbol "y")
      (.binary .pow (.symbol "x") (.binary .sub (.symbol "y") (.number 1)))
    Expr.ofText 1 "(^ x y)" = .ok e ∧ e.depth = 2 ∧ e.derivative .any = .ok d ∧ d.depth = 5 ∧
      (d.simplify .squaring).outcome = .ok s ∧ s.depth = 4 ∧ Expr.ofText 3 s.text = .ok s := by
  intro e d s
  have he : Expr.ofText 1 "(^ x y)" = .ok e := by decide +kernel
  have hd : e.derivative .any = .ok d := by decide +kernel
  have hs : (d.simplify .squaring).outcome = .ok s := by decide +kernel
  have hdepth : s.depth = 4 := by rw [Expr.depth_eq_height]; decide
  have hparsed := (differentiate_depth_and_read_back .squaring).2 { maxDepth := 1 } "(^ x y)" e he
  have hread := ((hparsed.2 d hd).2 s hs).2.2.1 3 (by omega)
  refine ⟨he, ?_, hd, ?_, hs, hdepth, hread⟩
  · rw [Expr.depth_eq_height]
    decide
  · rw [Expr.depth_eq_height]
    decide

end FormalCalculus
