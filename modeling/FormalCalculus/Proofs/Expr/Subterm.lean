import FormalCalculus.Expr.Basic

/-!
# Induction on expressions, and their subterms

An expression is a tree whose lists have any number of items, so a statement about all expressions
is proved for the numbers and the symbols, and for a list *from all of its items*
(`Expr.induction`). Everything that is said of a whole tree node by node goes through two notions:

* `Expr.subterms` — all subterms of an expression, the expression itself first;
* `Expr.Everywhere p` — `p` holds at every subterm; `Expr.everywhere_list` takes it apart at a list
  and puts it together again.
-/

namespace FormalCalculus

namespace Expr

/-! ### Induction -/

mutual

/-- **Induction on an expression**, a list being proved from its items. -/
@[elab_as_elim]
theorem induction {motive : Expr → Prop} (number : ∀ x, motive (number x))
    (symbol : ∀ name, motive (symbol name))
    (list : ∀ es : List Expr, (∀ e ∈ es, motive e) → motive (list es)) : ∀ e, motive e
  | .number x => number x
  | .symbol name => symbol name
  | .list es => list es (induction_items number symbol list es)

theorem induction_items {motive : Expr → Prop} (number : ∀ x, motive (Expr.number x))
    (symbol : ∀ name, motive (Expr.symbol name))
    (list : ∀ es : List Expr, (∀ e ∈ es, motive e) → motive (Expr.list es)) :
    ∀ es : List Expr, ∀ e ∈ es, motive e
  | [] => by simp
  | e :: es => List.forall_mem_cons.2
    ⟨induction number symbol list e, induction_items number symbol list es⟩

end

/-! ### Heads -/

/-- Only the symbol of an operator names it. -/
theorem eq_symbol_of_op? {head : Expr} {op : Op} (h : head.op? = some op) :
    head = symbol op.symbol := by
  cases head with
  | number x => cases h
  | symbol name => rw [Op.symbol_of_ofSymbol? (show Op.ofSymbol? name = some op from h)]
  | list es => cases h

@[simp] theorem items_unary (op : Op) (a : Expr) : (unary op a).items = [symbol op.symbol, a] := rfl

@[simp] theorem items_binary (op : Op) (a b : Expr) :
    (binary op a b).items = [symbol op.symbol, a, b] := rfl

/-! An application is determined by its operator and its operands. -/

@[simp] theorem unary_inj {op op' : Op} {a a' : Expr} :
    unary op a = unary op' a' ↔ op = op' ∧ a = a' := by
  simp only [unary, list.injEq, List.cons.injEq, symbol.injEq, and_true]
  exact and_congr_left' ⟨Op.symbol_injective, congrArg Op.symbol⟩

@[simp] theorem binary_inj {op op' : Op} {a b a' b' : Expr} :
    binary op a b = binary op' a' b' ↔ op = op' ∧ a = a' ∧ b = b' := by
  simp only [binary, list.injEq, List.cons.injEq, symbol.injEq, and_true]
  exact and_congr_left' ⟨Op.symbol_injective, congrArg Op.symbol⟩

@[simp] theorem unary_ne_binary {op op' : Op} {a a' b' : Expr} :
    unary op a ≠ binary op' a' b' := by
  simp [unary, binary]

/-! ### Subterms -/

mutual

/-- The subterms of an expression, itself first. -/
def subterms : Expr → List Expr
  | number x => [number x]
  | symbol name => [symbol name]
  | list es => list es :: subtermsList es

/-- The subterms of some expressions. -/
def subtermsList : List Expr → List Expr
  | [] => []
  | e :: es => e.subterms ++ subtermsList es

end

theorem mem_subtermsList {t : Expr} {es : List Expr} :
    t ∈ subtermsList es ↔ ∃ e ∈ es, t ∈ e.subterms := by
  induction es with
  | nil => simp [subtermsList]
  | cons e es ih => simp [subtermsList, ih]

theorem mem_subterms_list {t : Expr} {es : List Expr} :
    t ∈ (list es).subterms ↔ t = list es ∨ ∃ e ∈ es, t ∈ e.subterms := by
  rw [subterms, List.mem_cons, mem_subtermsList]

/-- Every expression is a subterm of itself. -/
theorem mem_subterms_self (e : Expr) : e ∈ e.subterms := by
  cases e <;> simp [subterms]

/-- **A property of all subterms** of an expression. -/
def Everywhere (p : Expr → Prop) (e : Expr) : Prop := ∀ t ∈ e.subterms, p t

instance (p : Expr → Prop) [DecidablePred p] : DecidablePred (Everywhere p) := fun e =>
  inferInstanceAs (Decidable (∀ t ∈ e.subterms, p t))

section Everywhere

variable {p : Expr → Prop}

@[simp] theorem everywhere_number {x : Float} : Everywhere p (number x) ↔ p (number x) := by
  simp [Everywhere, subterms]

@[simp] theorem everywhere_symbol {name : String} :
    Everywhere p (symbol name) ↔ p (symbol name) := by
  simp [Everywhere, subterms]

/-- A property holds everywhere in a list if it holds of the list and everywhere in its items. -/
theorem everywhere_list {es : List Expr} :
    Everywhere p (list es) ↔ p (list es) ∧ ∀ e ∈ es, Everywhere p e := by
  constructor
  · intro h
    refine ⟨h _ (mem_subterms_self _), fun e he t ht => h t ?_⟩
    exact mem_subterms_list.2 (Or.inr ⟨e, he, ht⟩)
  · rintro ⟨hlist, hitems⟩ t ht
    obtain rfl | ⟨e, he, ht⟩ := mem_subterms_list.1 ht
    · exact hlist
    · exact hitems e he t ht

/-- A property that holds everywhere in an expression holds everywhere in its items. -/
theorem Everywhere.of_mem_items {a e : Expr} (h : Everywhere p e) (ha : a ∈ e.items) :
    Everywhere p a := by
  cases e with
  | number x => cases ha
  | symbol name => cases ha
  | list es => exact (everywhere_list.1 h).2 a ha

theorem everywhere_binary {op : Op} {a b : Expr} :
    Everywhere p (binary op a b) ↔
      p (binary op a b) ∧ p (symbol op.symbol) ∧ Everywhere p a ∧ Everywhere p b := by
  simp [binary, everywhere_list]

/-- A property of all symbols holds everywhere in an application if it holds of the application and
everywhere in its operands. -/
theorem everywhere_unary_of_symbols (hsymbols : ∀ name, p (symbol name)) {op : Op} {a : Expr} :
    Everywhere p (unary op a) ↔ p (unary op a) ∧ Everywhere p a := by
  simp [unary, everywhere_list, hsymbols]

theorem everywhere_binary_of_symbols (hsymbols : ∀ name, p (symbol name)) {op : Op} {a b : Expr} :
    Everywhere p (binary op a b) ↔ p (binary op a b) ∧ Everywhere p a ∧ Everywhere p b := by
  simp [binary, everywhere_list, hsymbols]

end Everywhere

end Expr

end FormalCalculus
