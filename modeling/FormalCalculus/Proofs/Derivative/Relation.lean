import FormalCalculus.Derivative
import FormalCalculus.Proofs.Expr.Subterm

/-!
# Differentiation as a relation

`Expr.Derives v e d` says, rule by rule, that `d` is the derivative of `e` with respect to `v`. It
holds of exactly what `Expr.derivative` returns (`Expr.derivative_eq_ok`), and statements about
derivatives are proved by induction on it: the relation has one case for each rule, with the
derivatives of the operands at hand.

`Expr.Visited t e` says where differentiation goes: the subterm `t` of `e` is reached from the root
through operands of operators, a power being entered at its base only.
-/

namespace FormalCalculus

namespace Expr

/-- **The rules of differentiation**, as a relation. -/
inductive Derives (v : Variable) : Expr → Expr → Prop
  | number (x : Float) : Derives v (number x) (number 0)
  | symbol (name : String) :
      Derives v (symbol name) (Expr.number (if v.matches name then 1 else 0))
  | add {a b da db : Expr} (ha : Derives v a da) (hb : Derives v b db) :
      Derives v (binary .add a b) (binary .add da db)
  | sub {a b da db : Expr} (ha : Derives v a da) (hb : Derives v b db) :
      Derives v (binary .sub a b) (binary .sub da db)
  | mul {a b da db : Expr} (ha : Derives v a da) (hb : Derives v b db) :
      Derives v (binary .mul a b) (productRule a b da db)
  | div {a b da db : Expr} (ha : Derives v a da) (hb : Derives v b db) :
      Derives v (binary .div a b) (quotientRule a b da db)
  | pow {a b da : Expr} (ha : Derives v a da) : Derives v (binary .pow a b) (powerRule a b da)
  | sin {a da : Expr} (ha : Derives v a da) : Derives v (unary .sin a) (sinRule a da)
  | cos {a da : Expr} (ha : Derives v a da) : Derives v (unary .cos a) (cosRule a da)
  | tan {a da : Expr} (ha : Derives v a da) : Derives v (unary .tan a) (tanRule a da)
  | exp {a da : Expr} (ha : Derives v a da) : Derives v (unary .exp a) (expRule a da)
  | ln {a da : Expr} (ha : Derives v a da) : Derives v (unary .ln a) (lnRule a da)

variable {v : Variable}

/-- Going on with a result succeeds if both parts do. -/
theorem bind_eq_ok {α β : Type} {x : Except Error α} {f : α → Except Error β} {b : β} :
    (x >>= f) = .ok b ↔ ∃ a, x = .ok a ∧ f a = .ok b := by
  cases x with
  | error error => simp [bind, Except.bind]
  | ok a => simp [bind, Except.bind]

theorem bind_eq_error {α β : Type} {x : Except Error α} {f : α → Except Error β} {error : Error} :
    (x >>= f) = .error error ↔ x = .error error ∨ ∃ a, x = .ok a ∧ f a = .error error := by
  cases x with
  | error error => simp [bind, Except.bind]
  | ok a => simp [bind, Except.bind]

theorem derives_of_derivative {e d : Expr} (h : e.derivative v = .ok d) : Derives v e d := by
  fun_induction derivative v e generalizing d with
  | case1 x => cases h; exact .number x
  | case2 name => cases h; exact .symbol name
  | case3 => cases h
  | case4 => cases h
  | case5 head a b hop iha ihb =>
    obtain rfl := eq_symbol_of_op? hop
    obtain ⟨da, ha, h⟩ := bind_eq_ok.1 h
    obtain ⟨db, hb, ⟨⟩⟩ := bind_eq_ok.1 h
    exact .add (iha ha) (ihb hb)
  | case6 head a b hop iha ihb =>
    obtain rfl := eq_symbol_of_op? hop
    obtain ⟨da, ha, h⟩ := bind_eq_ok.1 h
    obtain ⟨db, hb, ⟨⟩⟩ := bind_eq_ok.1 h
    exact .sub (iha ha) (ihb hb)
  | case7 head a b hop ihb iha =>
    obtain rfl := eq_symbol_of_op? hop
    -- a product is differentiated from its second factor on
    obtain ⟨db, hb, h⟩ := bind_eq_ok.1 h
    obtain ⟨da, ha, ⟨⟩⟩ := bind_eq_ok.1 h
    exact .mul (iha ha) (ihb hb)
  | case8 head a b hop iha ihb =>
    obtain rfl := eq_symbol_of_op? hop
    obtain ⟨da, ha, h⟩ := bind_eq_ok.1 h
    obtain ⟨db, hb, ⟨⟩⟩ := bind_eq_ok.1 h
    exact .div (iha ha) (ihb hb)
  | case9 head a b hop iha =>
    obtain rfl := eq_symbol_of_op? hop
    -- there is no derivative of the exponent to go on with
    obtain ⟨da, ha, ⟨⟩⟩ := bind_eq_ok.1 h
    exact .pow (iha ha)
  | case10 head a hop iha =>
    obtain rfl := eq_symbol_of_op? hop
    obtain ⟨da, ha, ⟨⟩⟩ := bind_eq_ok.1 h
    exact .sin (iha ha)
  | case11 head a hop iha =>
    obtain rfl := eq_symbol_of_op? hop
    obtain ⟨da, ha, ⟨⟩⟩ := bind_eq_ok.1 h
    exact .cos (iha ha)
  | case12 head a hop iha =>
    obtain rfl := eq_symbol_of_op? hop
    obtain ⟨da, ha, ⟨⟩⟩ := bind_eq_ok.1 h
    exact .tan (iha ha)
  | case13 head a hop iha =>
    obtain rfl := eq_symbol_of_op? hop
    obtain ⟨da, ha, ⟨⟩⟩ := bind_eq_ok.1 h
    exact .exp (iha ha)
  | case14 head a hop iha =>
    obtain rfl := eq_symbol_of_op? hop
    obtain ⟨da, ha, ⟨⟩⟩ := bind_eq_ok.1 h
    exact .ln (iha ha)
  | case15 => cases h

theorem derivative_of_derives {e d : Expr} (h : Derives v e d) : e.derivative v = .ok d := by
  induction h with
  | number x => rw [derivative]
  | symbol name => rw [derivative]
  | add _ _ iha ihb | sub _ _ iha ihb | mul _ _ iha ihb | div _ _ iha ihb =>
    simp only [binary, derivative, op?_symbol, iha, ihb]
    rfl
  | pow _ iha =>
    simp only [binary, derivative, op?_symbol, iha]
    rfl
  | sin _ iha | cos _ iha | tan _ iha | exp _ iha | ln _ iha =>
    simp only [unary, derivative, op?_symbol, iha]
    rfl

/-- **Differentiation follows the rules**, and succeeds wherever they do. -/
theorem derivative_eq_ok {e d : Expr} : e.derivative v = .ok d ↔ Derives v e d :=
  ⟨derives_of_derivative, derivative_of_derives⟩

/-! ### Where differentiation goes -/

/-- The operands that are differentiated along with an application: all of them, except the
exponent of a power. -/
def differentiatedOperands : Expr → List Expr
  | list [head, a, b] =>
    match head.op? with
    | some .add | some .sub | some .mul | some .div => [a, b]
    | some .pow => [a]
    | _ => []
  | list [head, a] =>
    match head.op? with
    | some .sin | some .cos | some .tan | some .exp | some .ln => [a]
    | _ => []
  | _ => []

@[simp] theorem differentiatedOperands_unary (op : Op) (a : Expr) :
    (unary op a).differentiatedOperands =
      match op with
      | .sin | .cos | .tan | .exp | .ln => [a]
      | _ => [] := by
  cases op <;> simp [unary, differentiatedOperands]

@[simp] theorem differentiatedOperands_binary (op : Op) (a b : Expr) :
    (binary op a b).differentiatedOperands =
      match op with
      | .add | .sub | .mul | .div => [a, b]
      | .pow => [a]
      | _ => [] := by
  cases op <;> simp [binary, differentiatedOperands]

/-- Differentiated operands are items. -/
theorem mem_items_of_mem_differentiatedOperands {a e : Expr} (h : a ∈ e.differentiatedOperands) :
    a ∈ e.items := by
  unfold differentiatedOperands at h
  split at h
  · split at h <;> simp_all [items]
  · split at h <;> simp_all [items]
  · cases h

/-- **The positions that differentiation reaches**, from the root through differentiated
operands. -/
inductive Visited : Expr → Expr → Prop
  | root (e : Expr) : Visited e e
  | operand {t a e : Expr} (ha : a ∈ e.differentiatedOperands) (h : Visited t a) : Visited t e

theorem visited_iff {t e : Expr} :
    Visited t e ↔ t = e ∨ ∃ a ∈ e.differentiatedOperands, Visited t a := by
  constructor
  · rintro (_ | ⟨ha, h⟩)
    · exact Or.inl rfl
    · exact Or.inr ⟨_, ha, h⟩
  · rintro (rfl | ⟨a, ha, h⟩)
    · exact .root t
    · exact .operand ha h

/-- At a leaf, differentiation goes no further. -/
theorem visited_number {t : Expr} {x : Float} : Visited t (number x) ↔ t = number x := by
  rw [visited_iff]
  simp [differentiatedOperands]

theorem visited_symbol {t : Expr} {name : String} : Visited t (symbol name) ↔ t = symbol name := by
  rw [visited_iff]
  simp [differentiatedOperands]

end Expr

end FormalCalculus
