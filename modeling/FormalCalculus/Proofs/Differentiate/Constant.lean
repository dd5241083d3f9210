import FormalCalculus.Proofs.Derivative.FirstFault
import FormalCalculus.Proofs.Differentiate.Stage
import FormalCalculus.Proofs.Simplify.NormalForm

/-!
# Constants have the derivative zero

Differentiation knows nothing of constants. It applies its rules to them as to anything else, and
what it returns for a long expression without a variable is a longer one, in which zeros stand as
factors and terms among copies of the operands. Simplification takes all of this down to the literal
zero, in its one pass from the leaves to the root.

It does so because a zero spreads. An expression vanishes (`Expr.Vanishes`) if it is simplified to
the literal zero or not at all. A product vanishes with one of its factors, whatever the other one
is; a sum and a difference vanish with both of their terms. In a derivative, the derivative of each
operand stands as a factor, and so it vanishes with them (`Derives.vanishes`), by induction on the
rules.

Quotients, tangents and logarithms are left out. Their rules put the zero over a denominator, where
it stays if the denominator is not simplified to a number.

Main statement: `constant_derives_to_zero`.
-/

namespace FormalCalculus

variable {arith : Arithmetic} {v : Variable}

namespace Expr

/-! ### Expressions that vanish -/

/-- **Expressions that vanish**: whatever they are simplified to is the literal zero, the positive
one. -/
def Vanishes (arith : Arithmetic) (e : Expr) : Prop :=
  ∀ s, e.SimplifiesTo arith s → s = number 0

namespace Vanishes

theorem number_zero : Vanishes arith (number 0) := fun _ => simplifiesTo_number.1

variable {op : Op} {a b : Expr}

/-- An application vanishes if the rules offer a zero for whatever its operands are simplified
to. -/
theorem of_offer (h : ∀ a' b', a.SimplifiesTo arith a' → b.SimplifiesTo arith b' →
    ∃ steps, Rules.ofOp arith op a' b' = .ok (some ⟨number 0, steps⟩)) :
    Vanishes arith (binary op a b) := by
  intro s hs
  obtain ⟨a', b', ha', hb', hs⟩ := simplifiesTo_binary.1 hs
  obtain ⟨steps, hoffer⟩ := h a' b' ha' hb'
  rw [hoffer] at hs
  obtain ⟨⟨⟩, -⟩ | ⟨r, ⟨⟩, rfl⟩ := hs
  rfl

/-- A sum and a difference vanish with their terms. In a difference, the zero is taken from zero,
which makes a product with `-1` first. -/
theorem add_or_sub (hop : op = .add ∨ op = .sub) (ha : Vanishes arith a) (hb : Vanishes arith b) :
    Vanishes arith (binary op a b) := by
  refine of_offer fun a' b' ha' hb' => ?_
  obtain rfl := ha a' ha'
  obtain rfl := hb b' hb'
  obtain rfl | rfl := hop <;> exact ⟨_, rfl⟩

/-- A product vanishes with its first factor. -/
theorem mul_left (ha : Vanishes arith a) (b : Expr) : Vanishes arith (binary .mul a b) := by
  refine of_offer fun a' b' ha' _ => ?_
  obtain rfl := ha a' ha'
  exact ⟨_, rfl⟩

/-- A product vanishes with its second factor. -/
theorem mul_right (a : Expr) (hb : Vanishes arith b) : Vanishes arith (binary .mul a b) := by
  refine of_offer fun a' b' _ hb' => ⟨[.multiplyZero], ?_⟩
  obtain rfl := hb b' hb'
  have hzero : (number 0).isZero = true := by decide
  -- the rule for zero factors comes before all others
  rw [Rules.ofOp, Rules.multiply, Rules.multiplyZero, hzero, Bool.or_true, if_pos rfl,
    Option.some_or]
  rfl

end Vanishes

/-! ### Derivatives of constants -/

/-- **Constants**, as differentiation sees them: no symbol that it visits is the variable, and no
list that it visits applies an operator whose rule divides. -/
structure Constant (v : Variable) (e : Expr) : Prop where
  symbols : ∀ name, Visited (symbol name) e → v.matches name = false
  operators : ∀ t, Visited t e → ∀ op ∈ [Op.div, .tan, .ln], t.headName? ≠ some op.symbol

namespace Constant

/-- The operands that are differentiated along with a constant are constants. -/
theorem operand {a e : Expr} (h : Constant v e) (ha : a ∈ e.differentiatedOperands) :
    Constant v a where
  symbols name hname := h.symbols name (.operand ha hname)
  operators t ht := h.operators t (.operand ha ht)

/-- None of the operators that divide is applied at the root. -/
theorem not_divides {e : Expr} (h : Constant v e) {op : Op} (hop : op ∈ [Op.div, .tan, .ln]) :
    e.headName? ≠ some op.symbol :=
  h.operators e (.root e) op hop

end Constant

/-- **The derivative of a constant vanishes**, by induction on the derivative. -/
theorem Derives.vanishes {e d : Expr} (h : Derives v e d) (hconst : Constant v e) :
    Vanishes arith d := by
  induction h with
  | number x => exact .number_zero
  | symbol name =>
    rw [hconst.symbols name (.root _)]
    exact .number_zero
  | @add a b da db _ _ iha ihb | @sub a b da db _ _ iha ihb =>
    have ha : Vanishes arith da := iha (hconst.operand (by simp))
    have hb : Vanishes arith db := ihb (hconst.operand (by simp))
    exact ha.add_or_sub (by simp) hb
  | @mul a b da db _ _ iha ihb =>
    -- each of the two products has one derivative as a factor
    have ha : Vanishes arith da := iha (hconst.operand (by simp))
    have hb : Vanishes arith db := ihb (hconst.operand (by simp))
    exact (hb.mul_right a).add_or_sub (.inl rfl) (ha.mul_left b)
  | @pow a b da _ iha =>
    -- the exponent is in the other factor, and may be anything
    have ha : Vanishes arith da := iha (hconst.operand (by simp))
    exact ha.mul_right _
  | @sin a da _ iha | @cos a da _ iha | @exp a da _ iha =>
    have ha : Vanishes arith da := iha (hconst.operand (by simp))
    exact ha.mul_left _
  | div _ _ | tan _ | ln _ => exact absurd rfl (hconst.not_divides (by simp))

end Expr

/-- **Constants have the derivative zero.** Let an expression have a derivative, and let
differentiation visit no symbol in it that is the variable, and no list that applies a quotient, a
tangent or a logarithm. If its derivative can be simplified at all, it is simplified to the literal
zero, and `0` is what is printed for a text of the expression. The variable may still occur in
exponents, which are not visited. -/
theorem constant_derives_to_zero (arith : Arithmetic) (v : Variable) (e d s : Expr)
    (hd : e.derivative v = .ok d)
    (hsymbols : ∀ name, Expr.Visited (.symbol name) e → v.matches name = false)
    (hoperators : ∀ t, Expr.Visited t e → ∀ op ∈ [Op.div, .tan, .ln],
      t.headName? ≠ some op.symbol)
    (hs : (d.simplify arith).outcome = .ok s) :
    s = .number 0 ∧ ∀ text limit, Expr.ofText limit text = .ok e →
      differentiateText arith ⟨v, limit⟩ text = .ok "0" := by
  have hderives : Expr.Derives v e d := Expr.derivative_eq_ok.1 hd
  have hzero : s = .number 0 := hderives.vanishes ⟨hsymbols, hoperators⟩ s hs
  refine ⟨hzero, fun text limit he => differentiateText_eq_ok.2 ⟨s, ?_, ?_⟩⟩
  · exact differentiate_eq_ok.2 ⟨e, d, he, hderives, hs⟩
  · rw [hzero]
    decide +kernel

/-- An exponent may hold the variable, and a quotient besides. -/
theorem constant_derives_to_zero_of_exponent :
    let text := "(* (+ 2 y) (^ (sin 3) (/ x x)))"
    let v := Variable.named "x"
    let a := Expr.binary .add (.number 2) (.symbol "y")
    let base := Expr.unary .sin (.number 3)
    let exponent := Expr.binary .div (.symbol "x") (.symbol "x")
    let e := Expr.binary .mul a (.binary .pow base exponent)
    let d := Expr.productRule a (.binary .pow base exponent)
      (.binary .add (.number 0) (.number 0))
      (.powerRule base exponent (.sinRule (.number 3) (.number 0)))
    e.derivative v = .ok d ∧
      (∀ name, Expr.Visited (.symbol name) e → v.matches name = false) ∧
      (∀ t, Expr.Visited t e → ∀ op ∈ [Op.div, .tan, .ln], t.headName? ≠ some op.symbol) ∧
      (d.simplify .squaring).outcome = .ok (.number 0) ∧ Expr.ofText 256 text = .ok e ∧
      differentiateText .squaring ⟨v, 256⟩ text = .ok "0" := by
  intro text v a base exponent e d
  have hd : e.derivative v = .ok d := by decide +kernel
  have hsymbols : ∀ name, Expr.Visited (.symbol name) e → v.matches name = false := by
    have hvisits : ∀ t ∈ e.visits, ∀ name, t.name? = some name → v.matches name = false := by
      decide +kernel
    intro name hname
    exact hvisits _ (Expr.mem_visits_iff.2 hname) name rfl
  have hoperators : ∀ t, Expr.Visited t e → ∀ op ∈ [Op.div, .tan, .ln],
      t.headName? ≠ some op.symbol := by
    have hvisits : ∀ t ∈ e.visits, ∀ op ∈ [Op.div, .tan, .ln], t.headName? ≠ some op.symbol := by
      decide +kernel
    intro t ht
    exact hvisits t (Expr.mem_visits_iff.2 ht)
  have hs : (d.simplify .squaring).outcome = .ok (.number 0) := by decide +kernel
  have he : Expr.ofText 256 text = .ok e := by decide +kernel
  obtain ⟨-, hpipeline⟩ := constant_derives_to_zero .squaring v e d (.number 0) hd hsymbols
    hoperators hs
  exact ⟨hd, hsymbols, hoperators, hs, he, hpipeline text 256 he⟩

end FormalCalculus
