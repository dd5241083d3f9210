import FormalCalculus.Proofs.Derivative.Laws
import FormalCalculus.Proofs.Derivative.Relation

/-!
# Differentiation computes the derivative

In a field with a derivation, the derivative of a value is an element of the field, and has nothing
to do with expressions. Differentiation of expressions finds it, wherever the laws of calculus hold
and the expression is regular (`Expr.Regular`): functions are applied where they have a derivative,
denominators do not vanish, and exponents are constant.

* `Expr.WellFormed.derives` — a well-formed expression has a derivative at all;
* `Expr.Derives.wellFormed`, `Expr.Derives.defined` — which is well-formed again, and none of its
  denominators vanishes;
* `Expr.Derives.value_eq` — and its value is the derivative of the value, rule by rule.

Main statement: `Expr.derivative_computes`.
-/

namespace FormalCalculus

variable {K : Type*} [Field K] {I : Interpretation K} {D : Derivation ℤ K K} {S : Set K}

/-- A function obeys its laws at the value of its operand, and has a derivative there. The first is
no condition if it obeys them everywhere. -/
def Interpretation.RegularUnary (I : Interpretation K) (S : Set K) : Op → K → Prop
  | .tan, f => f ∈ S ∧ I.cos f ≠ 0
  | .ln, f => f ∈ S ∧ f ≠ 0
  | _, f => f ∈ S

/-- A denominator is not zero, and an exponent is constant. -/
def Interpretation.RegularBinary (D : Derivation ℤ K K) : Op → K → Prop
  | .div, g => g ≠ 0
  | .pow, g => D g = 0
  | _, _ => True

namespace Expr

/-! ### Where an expression can be differentiated -/

/-- An application is regular at its operand, or at its second operand if it has two. -/
def RegularNode (I : Interpretation K) (D : Derivation ℤ K K) (S : Set K) : Expr → Prop
  | list [head, a] => ∀ op, head.op? = some op → I.RegularUnary S op (a.value I)
  | list [head, _, b] => ∀ op, head.op? = some op → Interpretation.RegularBinary D op (b.value I)
  | _ => True

/-- **Regular expressions**: every application in them is regular. -/
def Regular (I : Interpretation K) (D : Derivation ℤ K K) (S : Set K) : Expr → Prop :=
  Everywhere (RegularNode I D S)

theorem regular_unary {op : Op} {a : Expr} :
    (unary op a).Regular I D S ↔ I.RegularUnary S op (a.value I) ∧ a.Regular I D S := by
  have hnode : RegularNode I D S (unary op a) ↔ I.RegularUnary S op (a.value I) := by
    simp [RegularNode, unary]
  rw [Regular, everywhere_unary_of_symbols fun _ => trivial, hnode]

theorem regular_binary {op : Op} {a b : Expr} :
    (binary op a b).Regular I D S ↔
      Interpretation.RegularBinary D op (b.value I) ∧ a.Regular I D S ∧ b.Regular I D S := by
  have hnode : RegularNode I D S (binary op a b) ↔
      Interpretation.RegularBinary D op (b.value I) := by
    simp [RegularNode, binary]
  rw [Regular, everywhere_binary_of_symbols fun _ => trivial, hnode]

/-- No denominator of a regular expression vanishes. -/
theorem Regular.defined {e : Expr} (h : e.Regular I D S) : e.Defined I := by
  intro t ht
  have hnode := h t ht
  unfold DefinedNode
  split
  · exact hnode .div
  · trivial

variable {v : Variable}

/-- **A well-formed expression has a derivative.** -/
theorem WellFormed.derives {e : Expr} (he : e.WellFormed) : ∃ d, Derives v e d := by
  refine WellFormed.induction (motive := fun e => ∃ d, Derives v e d) ?number ?symbol ?unary
    ?binary he
  case number => exact fun x => ⟨_, .number x⟩
  case symbol => exact fun name => ⟨_, .symbol name⟩
  case unary =>
    rintro op a harity - ⟨da, ha⟩
    cases op with
    | sin => exact ⟨_, .sin ha⟩
    | cos => exact ⟨_, .cos ha⟩
    | tan => exact ⟨_, .tan ha⟩
    | exp => exact ⟨_, .exp ha⟩
    | ln => exact ⟨_, .ln ha⟩
    | _ => simp [Op.arity] at harity
  case binary =>
    rintro op a b harity - - ⟨da, ha⟩ ⟨db, hb⟩
    cases op with
    | add => exact ⟨_, .add ha hb⟩
    | sub => exact ⟨_, .sub ha hb⟩
    | mul => exact ⟨_, .mul ha hb⟩
    | div => exact ⟨_, .div ha hb⟩
    | pow => exact ⟨_, .pow ha⟩
    | _ => simp [Op.arity] at harity

/-- The rules make well-formed expressions of well-formed operands. -/
theorem Derives.wellFormed {e d : Expr} (h : Derives v e d) (he : e.WellFormed) : d.WellFormed := by
  induction h with
  | number x => exact wellFormed_number _
  | symbol name => exact wellFormed_number _
  | add _ _ iha ihb | sub _ _ iha ihb | mul _ _ iha ihb | div _ _ iha ihb =>
    obtain ⟨-, ha, hb⟩ := wellFormed_binary.1 he
    simp [productRule, quotientRule, Op.arity, ha, hb, iha ha, ihb hb]
  | pow _ iha =>
    obtain ⟨-, ha, hb⟩ := wellFormed_binary.1 he
    simp [powerRule, Op.arity, ha, hb, iha ha]
  | sin _ iha | cos _ iha | tan _ iha | exp _ iha | ln _ iha =>
    obtain ⟨-, ha⟩ := wellFormed_unary.1 he
    simp [sinRule, cosRule, tanRule, expRule, lnRule, Op.arity, ha, iha ha]

/-- A square, as the rules write it, stands for one. -/
theorem value_square (hI : I.Calculus D S) (a : Expr) :
    (binary .pow a (number 2)).value I = a.value I * a.value I := by
  rw [value_binary, value_number, hI.two]
  exact hI.square _

/-- The rules put in no denominator that vanishes. -/
theorem Derives.defined (hI : I.Calculus D S) {e d : Expr} (h : Derives v e d)
    (he : e.Regular I D S) : d.Defined I := by
  induction h with
  | number x => exact defined_number _
  | symbol name => exact defined_number _
  | add _ _ iha ihb | sub _ _ iha ihb | mul _ _ iha ihb =>
    obtain ⟨-, ha, hb⟩ := regular_binary.1 he
    simp [productRule, ha.defined, hb.defined, iha ha, ihb hb]
  | @div a b _ _ _ _ iha ihb =>
    obtain ⟨hne, ha, hb⟩ := regular_binary.1 he
    refine defined_binary.2 ⟨fun _ => ?denominator, ?_, ?_⟩
    case denominator =>
      -- the new denominator is the square of the old one
      rw [value_square hI]
      exact mul_ne_zero hne hne
    all_goals simp [ha.defined, hb.defined, iha ha, ihb hb]
  | pow _ iha =>
    obtain ⟨-, ha, hb⟩ := regular_binary.1 he
    simp [powerRule, ha.defined, hb.defined, iha ha]
  | sin _ iha | cos _ iha | exp _ iha =>
    obtain ⟨-, ha⟩ := regular_unary.1 he
    simp [sinRule, cosRule, expRule, ha.defined, iha ha]
  | @tan a _ _ iha =>
    obtain ⟨⟨-, hne⟩, ha⟩ := regular_unary.1 he
    refine defined_binary.2 ⟨fun _ => ?denominator, iha ha, by simp [ha.defined]⟩
    rw [value_square hI, value_unary]
    exact mul_ne_zero hne hne
  | ln _ iha =>
    obtain ⟨⟨-, hne⟩, ha⟩ := regular_unary.1 he
    simpa [lnRule, ha.defined, iha ha] using hne

/-- **The rules compute the derivative of the value.** -/
theorem Derives.value_eq (hI : I.Calculus D S)
    (hsymbol : ∀ name, D (I.symbol name) = if v.matches name then 1 else 0) {e d : Expr}
    (h : Derives v e d) (he : e.Regular I D S) : d.value I = D (e.value I) := by
  induction h with
  | number x => rw [value_number, value_number, hI.zero, hI.constant]
  | symbol name =>
    rw [value_number, value_symbol, hsymbol]
    split
    · exact hI.one
    · exact hI.zero
  | @add a b da db _ _ iha ihb =>
    obtain ⟨-, ha, hb⟩ := regular_binary.1 he
    rw [value_binary, value_binary, iha ha, ihb hb]
    exact (map_add D _ _).symm
  | @sub a b da db _ _ iha ihb =>
    obtain ⟨-, ha, hb⟩ := regular_binary.1 he
    rw [value_binary, value_binary, iha ha, ihb hb]
    exact (map_sub D _ _).symm
  | @mul a b da db _ _ iha ihb =>
    obtain ⟨-, ha, hb⟩ := regular_binary.1 he
    simp only [productRule, value_binary, Interpretation.applyBinary, iha ha, ihb hb]
    rw [D.leibniz, smul_eq_mul, smul_eq_mul, mul_comm (b.value I)]
  | @div a b da db _ _ iha ihb =>
    obtain ⟨-, ha, hb⟩ := regular_binary.1 he
    rw [quotientRule, value_binary, value_square hI]
    simp only [value_binary, Interpretation.applyBinary, iha ha, ihb hb]
    rw [derivation_div]
  | @pow a b da _ iha =>
    obtain ⟨hconstant, ha, -⟩ := regular_binary.1 he
    simp only [powerRule, value_binary, value_number, Interpretation.applyBinary, iha ha]
    rw [hI.one, hI.power _ _ hconstant]
  | @sin a da _ iha =>
    obtain ⟨hmem, ha⟩ := regular_unary.1 he
    simp only [sinRule, value_binary, value_unary, iha ha]
    exact (hI.sin _ hmem).symm
  | @cos a da _ iha =>
    obtain ⟨hmem, ha⟩ := regular_unary.1 he
    simp only [cosRule, value_binary, value_unary, value_number, Interpretation.applyBinary,
      Interpretation.applyUnary, iha ha]
    rw [hI.cos _ hmem, hI.minusOne, neg_one_mul, mul_neg]
  | @tan a da _ iha =>
    obtain ⟨⟨hmem, hne⟩, ha⟩ := regular_unary.1 he
    rw [tanRule, value_binary, value_square hI, value_unary, value_unary, iha ha]
    exact (hI.derivation_tan hmem hne).symm
  | @exp a da _ iha =>
    obtain ⟨hmem, ha⟩ := regular_unary.1 he
    simp only [expRule, value_binary, value_unary, iha ha]
    exact (hI.exp _ hmem).symm
  | @ln a da _ iha =>
    obtain ⟨⟨hmem, hne⟩, ha⟩ := regular_unary.1 he
    simp only [lnRule, value_binary, value_unary, Interpretation.applyBinary,
      Interpretation.applyUnary, iha ha]
    rw [div_eq_iff hne, mul_comm, hI.ln _ hmem hne]

/-- **Differentiation computes the derivative.** Under the laws of calculus, a well-formed and
regular expression is differentiated, and the value of the result is the derivative of its value.
The result is again a well-formed expression, and none of its denominators vanishes. -/
theorem derivative_computes (I : Interpretation K) (D : Derivation ℤ K K) (S : Set K)
    (hI : I.Calculus D S) (v : Variable)
    (hsymbol : ∀ name, D (I.symbol name) = if v.matches name then 1 else 0) (e : Expr)
    (he : e.WellFormed) (hregular : e.Regular I D S) :
    ∃ d, e.derivative v = .ok d ∧ d.value I = D (e.value I) ∧ d.WellFormed ∧ d.Defined I := by
  obtain ⟨d, hd⟩ := he.derives (v := v)
  exact ⟨d, derivative_eq_ok.2 hd, hd.value_eq hI hsymbol hregular, hd.wellFormed he,
    hd.defined hI hregular⟩

/-- All ten operators at once, in the field of elementary functions:
`sin x * exp x + (tan x / ln x - cos x ^ 3)`. -/
theorem derivative_computes_of_elementary :
    let I := Elementary.interpretation
    let D := Elementary.deriv
    let v := Variable.named "x"
    let x := symbol "x"
    let e := binary .add (binary .mul (unary .sin x) (unary .exp x))
      (binary .sub (binary .div (unary .tan x) (unary .ln x))
        (binary .pow (unary .cos x) (number 3)))
    I.Calculus D {Elementary.x} ∧
      (∀ name, D (I.symbol name) = if v.matches name then 1 else 0) ∧
      e.WellFormed ∧ e.Regular I D {Elementary.x} ∧
      ∃ d, e.derivative v = .ok d ∧ d.value I = D (e.value I) ∧ d.WellFormed ∧ d.Defined I := by
  intro I D v x e
  have hI : I.Calculus D {Elementary.x} := Elementary.calculus
  have hsymbol : ∀ name, D (I.symbol name) = if v.matches name then 1 else 0 :=
    Elementary.deriv_symbol
  have hwell : e.WellFormed := by decide +kernel
  have hregular : e.Regular I D {Elementary.x} := by
    have hx : x.value I = Elementary.x := (value_symbol _).trans Elementary.symbol_x
    have hleaf : x.Regular I D {Elementary.x} := everywhere_symbol.2 trivial
    have hthree : (number 3).Regular I D {Elementary.x} := everywhere_number.2 trivial
    -- every function is applied to the variable, and the exponent is a number
    refine regular_binary.2 ⟨trivial, regular_binary.2 ⟨trivial, ?sin, ?exp⟩,
      regular_binary.2 ⟨trivial, regular_binary.2 ⟨?denominator, ?tan, ?ln⟩,
        regular_binary.2 ⟨?exponent, ?cos, hthree⟩⟩⟩
    case sin | exp | cos => exact regular_unary.2 ⟨hx, hleaf⟩
    case tan => exact regular_unary.2 ⟨⟨hx, Elementary.cos_ne_zero⟩, hleaf⟩
    case ln =>
      have hne : x.value I ≠ 0 := hx ▸ Elementary.generator_ne_zero .variable
      exact regular_unary.2 ⟨⟨hx, hne⟩, hleaf⟩
    case denominator =>
      rw [value_unary]
      exact Elementary.generator_ne_zero .logarithm
    case exponent =>
      rw [value_number]
      exact hI.constant 3
  exact ⟨hI, hsymbol, hwell, hregular,
    derivative_computes I D {Elementary.x} hI v hsymbol e hwell hregular⟩

end Expr

end FormalCalculus
