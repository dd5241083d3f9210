import FormalCalculus.Proofs.Expr.Equality
import FormalCalculus.Proofs.Numeral.Bits

/-!
# What an expression stands for

An `Interpretation` says what the leaves of an expression stand for in a field, and which functions
the operators name that a field does not have of its own: powers, and the five elementary functions.
Every expression then has a value (`Expr.value`). Two conditions make the value mean something:

* `Expr.WellFormed` — every list applies an operator to as many operands as it takes. Other lists
  have the value zero, for want of a better one;
* `Expr.Defined` — no denominator has the value zero, so that every quotient is one.

Well-formed expressions are numbers, symbols and applications to well-formed operands, and are
reasoned about as such (`Expr.WellFormed.induction`). Expressions that compare equal have the same
value (`Expr.value_eq_of_equal`), if the two zeros do.
-/

namespace FormalCalculus

/-- The rational number that a finite float is. -/
def Numeral.toRat (x : Float) : ℚ :=
  (if isNegative x then -1 else 1) * (units (code x) / 2 ^ unitPlaces)

/-- **An interpretation** of numbers, symbols and functions. -/
structure Interpretation (K : Type*) where
  /-- What a number stands for. -/
  literal : Float → K
  /-- What a symbol stands for. -/
  symbol : String → K
  power : K → K → K
  sin : K → K
  cos : K → K
  tan : K → K
  exp : K → K
  ln : K → K

variable {K : Type*} [Field K]

namespace Interpretation

/-- The value of a function of one operand; an operator of two has none, and counts as zero. -/
def applyUnary (I : Interpretation K) : Op → K → K
  | .sin, x => I.sin x
  | .cos, x => I.cos x
  | .tan, x => I.tan x
  | .exp, x => I.exp x
  | .ln, x => I.ln x
  | .add, _ | .sub, _ | .mul, _ | .div, _ | .pow, _ => 0

/-- The value of an operator of two operands; a function of one has none, and counts as zero. -/
def applyBinary (I : Interpretation K) : Op → K → K → K
  | .add, x, y => x + y
  | .sub, x, y => x - y
  | .mul, x, y => x * y
  | .div, x, y => x / y
  | .pow, x, y => I.power x y
  | .sin, _, _ | .cos, _, _ | .tan, _, _ | .exp, _, _ | .ln, _, _ => 0

/-- The numbers that rules put into expressions stand for themselves. -/
structure StandardLiterals (I : Interpretation K) : Prop where
  zero : I.literal 0 = 0
  one : I.literal 1 = 1
  minusOne : I.literal (-1) = -1
  two : I.literal 2 = 2

variable {I : Interpretation K}

/-- A number that is an integer stands for that integer. -/
theorem literal_of_toRat (hI : ∀ x, I.literal x = Numeral.toRat x) {x : Float} {n : ℤ}
    (hx : Numeral.toRat x = n) : I.literal x = n := by
  rw [hI, hx, Rat.cast_intCast]

theorem standardLiterals_of_toRat (hI : ∀ x, I.literal x = Numeral.toRat x) :
    I.StandardLiterals where
  zero := by simpa using literal_of_toRat hI (show Numeral.toRat 0 = (0 : ℤ) by decide +kernel)
  one := by simpa using literal_of_toRat hI (show Numeral.toRat 1 = (1 : ℤ) by decide +kernel)
  minusOne := by
    simpa using literal_of_toRat hI (show Numeral.toRat (-1) = (-1 : ℤ) by decide +kernel)
  two := by simpa using literal_of_toRat hI (show Numeral.toRat 2 = (2 : ℤ) by decide +kernel)

end Interpretation

namespace Expr

/-! ### Values -/

/-- **The value of an expression** under an interpretation. -/
def value (I : Interpretation K) : Expr → K
  | number x => I.literal x
  | symbol name => I.symbol name
  | list [head, a] =>
    match head.op? with
    | some op => I.applyUnary op (value I a)
    | none => 0
  | list [head, a, b] =>
    match head.op? with
    | some op => I.applyBinary op (value I a) (value I b)
    | none => 0
  | list _ => 0

variable {I : Interpretation K}

@[simp] theorem value_number (x : Float) : (number x).value I = I.literal x := by rw [value]

@[simp] theorem value_symbol (name : String) : (symbol name).value I = I.symbol name := by
  rw [value]

@[simp] theorem value_unary (op : Op) (a : Expr) :
    (unary op a).value I = I.applyUnary op (a.value I) := by
  simp [unary, value]

@[simp] theorem value_binary (op : Op) (a b : Expr) :
    (binary op a b).value I = I.applyBinary op (a.value I) (b.value I) := by
  simp [binary, value]

/-! ### Well-formed expressions -/

/-- A list applies an operator to as many operands as it takes. -/
def WellFormedNode : Expr → Prop
  | list (head :: operands) => head.op?.map Op.arity = some operands.length
  | list [] => False
  | _ => True

instance : DecidablePred WellFormedNode := fun e =>
  match e with
  | list (head :: operands) =>
    inferInstanceAs (Decidable (head.op?.map Op.arity = some operands.length))
  | list [] => inferInstanceAs (Decidable False)
  | number _ => inferInstanceAs (Decidable True)
  | symbol _ => inferInstanceAs (Decidable True)

/-- **Well-formed expressions**: every list applies an operator as it should be applied. -/
def WellFormed : Expr → Prop := Everywhere WellFormedNode

instance : DecidablePred WellFormed := inferInstanceAs (DecidablePred (Everywhere WellFormedNode))

@[simp] theorem wellFormed_number (x : Float) : (number x).WellFormed :=
  everywhere_number.2 trivial

@[simp] theorem wellFormed_symbol (name : String) : (symbol name).WellFormed :=
  everywhere_symbol.2 trivial

@[simp] theorem wellFormed_unary {op : Op} {a : Expr} :
    (unary op a).WellFormed ↔ op.arity = 1 ∧ a.WellFormed := by
  have hnode : WellFormedNode (unary op a) ↔ op.arity = 1 := by simp [unary, WellFormedNode]
  rw [WellFormed, everywhere_unary_of_symbols fun _ => trivial, hnode]

@[simp] theorem wellFormed_binary {op : Op} {a b : Expr} :
    (binary op a b).WellFormed ↔ op.arity = 2 ∧ a.WellFormed ∧ b.WellFormed := by
  have hnode : WellFormedNode (binary op a b) ↔ op.arity = 2 := by simp [binary, WellFormedNode]
  rw [WellFormed, everywhere_binary_of_symbols fun _ => trivial, hnode]

/-- A list that is a well-formed node is an application to one operand or to two. -/
theorem WellFormedNode.application {es : List Expr} (h : WellFormedNode (list es)) :
    (∃ op a, op.arity = 1 ∧ list es = unary op a) ∨
      ∃ op a b, op.arity = 2 ∧ list es = binary op a b := by
  cases es with
  | nil => exact h.elim
  | cons head operands =>
    obtain ⟨op, hop, harity⟩ := Option.map_eq_some_iff.1 h
    obtain rfl := eq_symbol_of_op? hop
    -- an operator takes one operand or two
    have hor : op.arity = 1 ∨ op.arity = 2 := by cases op <;> decide
    obtain hone | htwo := hor
    · obtain ⟨a, rfl⟩ := List.length_eq_one_iff.1 (harity.symm.trans hone)
      exact Or.inl ⟨op, a, hone, rfl⟩
    · obtain ⟨a, b, rfl⟩ := List.length_eq_two.1 (harity.symm.trans htwo)
      exact Or.inr ⟨op, a, b, htwo, rfl⟩

/-- **Induction on a well-formed expression**, an application being proved from its operands. -/
theorem WellFormed.induction {motive : Expr → Prop} (number : ∀ x, motive (number x))
    (symbol : ∀ name, motive (symbol name))
    (unary : ∀ op a, op.arity = 1 → a.WellFormed → motive a → motive (unary op a))
    (binary : ∀ op a b, op.arity = 2 → a.WellFormed → b.WellFormed → motive a → motive b →
      motive (binary op a b))
    {e : Expr} (he : e.WellFormed) : motive e := by
  induction e using Expr.induction with
  | number x => exact number x
  | symbol name => exact symbol name
  | list es ih =>
    obtain ⟨hnode, hitems⟩ := everywhere_list.1 he
    obtain ⟨op, a, harity, heq⟩ | ⟨op, a, b, harity, heq⟩ := hnode.application
    · obtain rfl : es = [Expr.symbol op.symbol, a] := list.inj heq
      have ha : a.WellFormed := hitems a (by simp)
      exact unary op a harity ha (ih a (by simp) ha)
    · obtain rfl : es = [Expr.symbol op.symbol, a, b] := list.inj heq
      have ha : a.WellFormed := hitems a (by simp)
      have hb : b.WellFormed := hitems b (by simp)
      exact binary op a b harity ha hb (ih a (by simp) ha) (ih b (by simp) hb)

/-! ### Defined expressions -/

/-- The denominator of a quotient is not zero. -/
def DefinedNode (I : Interpretation K) : Expr → Prop
  | list [head, _, b] => head.op? = some .div → b.value I ≠ 0
  | _ => True

/-- **Defined expressions**: no denominator has the value zero. -/
def Defined (I : Interpretation K) : Expr → Prop := Everywhere (DefinedNode I)

@[simp] theorem defined_number (x : Float) : (number x).Defined I := everywhere_number.2 trivial

@[simp] theorem defined_symbol (name : String) : (symbol name).Defined I :=
  everywhere_symbol.2 trivial

@[simp] theorem defined_unary {op : Op} {a : Expr} : (unary op a).Defined I ↔ a.Defined I := by
  rw [Defined, everywhere_unary_of_symbols fun _ => trivial]
  exact and_iff_right trivial

@[simp] theorem defined_binary {op : Op} {a b : Expr} :
    (binary op a b).Defined I ↔ (op = .div → b.value I ≠ 0) ∧ a.Defined I ∧ b.Defined I := by
  have hnode : DefinedNode I (binary op a b) ↔ (op = .div → b.value I ≠ 0) := by
    simp [binary, DefinedNode]
  rw [Defined, everywhere_binary_of_symbols fun _ => trivial, hnode]

/-! ### Expressions that compare equal -/

omit [Field K] in
/-- Numbers that compare equal stand for the same, if the two zeros do. -/
theorem literal_eq_of_beq (hzero : I.literal (-0) = I.literal 0) {x y : Float}
    (h : (x == y) = true) : I.literal x = I.literal y := by
  obtain ⟨-, -, rfl | ⟨rfl, rfl⟩ | ⟨rfl, rfl⟩⟩ := Float.beq_iff_ne_nan_and_eq.1 h
  · rfl
  · exact hzero.symm
  · exact hzero

/-- **Expressions that compare equal have the same value**, if the two zeros do. -/
theorem value_eq_of_equal (hzero : I.literal (-0) = I.literal 0) {a b : Expr}
    (h : a.equal b = true) : a.value I = b.value I := by
  refine equal_induction (motive := fun a b => a.value I = b.value I) ?number ?symbol ?list h
  case number =>
    intro x y hxy
    rw [value_number, value_number, literal_eq_of_beq hzero hxy]
  case symbol => exact fun _ => rfl
  case list =>
    intro as bs hitems
    -- only lists of two or three items have a value of their own
    match as, bs, hitems with
    | [], _, .nil => rfl
    | [_], _, .cons _ .nil => rfl
    | [head, a], [head', a'], .cons hhead (.cons ha .nil) =>
      simp [value, op?_eq_of_equal hhead.1, ha.2]
    | [head, a, b], [head', a', b'], .cons hhead (.cons ha (.cons hb .nil)) =>
      simp [value, op?_eq_of_equal hhead.1, ha.2, hb.2]
    | _ :: _ :: _ :: _ :: _, _, .cons _ (.cons _ (.cons _ (.cons _ _))) => rfl

end Expr

end FormalCalculus
