import FormalCalculus.Proofs.Expr.Height
import FormalCalculus.Proofs.Numeral.Bits

/-!
# Expressions that compare equal

Comparing expressions as arithmetic does looks at their numbers, and there only: symbols have to be
the same, and lists are compared item by item. So two expressions that compare equal have one shape,
and a statement about such a pair is proved for two numbers that compare equal, for one symbol, and
for two lists *from all pairs of their items* (`Expr.equal_induction`).

Not every expression compares equal to itself, since a literal that is no number does not. But
comparing equal is symmetric and transitive, and so equal expressions can stand for each other
wherever expressions are compared (`Expr.equal_congr`).
-/

namespace FormalCalculus

namespace Expr

/-- Lists are compared item by item. -/
theorem equalList_eq_true_iff {as bs : List Expr} :
    equalList as bs = true ↔ List.Forall₂ (fun a b => a.equal b = true) as bs := by
  induction as generalizing bs with
  | nil => cases bs <;> simp [equalList]
  | cons a as ih => cases bs <;> simp [equalList, ih]

/-- Of two lists related item by item, each item of the first has a partner in the second. -/
theorem exists_partner {R : Expr → Expr → Prop} {es es' : List Expr} {e : Expr}
    (h : List.Forall₂ R es es') (he : e ∈ es) : ∃ e' ∈ es', R e e' := by
  induction h with
  | nil => cases he
  | @cons a a' as as' ha has ih =>
    obtain rfl | he := List.mem_cons.1 he
    · exact ⟨a', List.mem_cons_self, ha⟩
    · obtain ⟨e', he', hR⟩ := ih he
      exact ⟨e', List.mem_cons_of_mem _ he', hR⟩

/-- What carries over from every item to its partner carries over from all items to all. -/
theorem forall_mem_of_forall₂ {p q : Expr → Prop} {es es' : List Expr}
    (h : List.Forall₂ (fun e e' => p e → q e') es es') (hp : ∀ e ∈ es, p e) : ∀ e' ∈ es', q e' := by
  intro e' he'
  obtain ⟨e, he, himp⟩ := exists_partner h.flip he'
  exact himp (hp e he)

/-- **Induction on expressions that compare equal.** -/
theorem equal_induction {motive : Expr → Expr → Prop}
    (number : ∀ x y : Float, (x == y) = true → motive (number x) (number y))
    (symbol : ∀ name, motive (symbol name) (symbol name))
    (list : ∀ as bs, List.Forall₂ (fun a b => a.equal b = true ∧ motive a b) as bs →
      motive (list as) (list bs))
    {a b : Expr} (h : a.equal b = true) : motive a b := by
  induction a using Expr.induction generalizing b with
  | number x =>
    cases b with
    | number y => exact number x y h
    | symbol name => cases h
    | list bs => cases h
  | symbol name =>
    cases b with
    | number y => cases h
    | symbol name' =>
      obtain rfl : name = name' := by simpa [equal] using h
      exact symbol name
    | list bs => cases h
  | list as ih =>
    cases b with
    | number y => cases h
    | symbol name => cases h
    | list bs =>
      have hitems := equalList_eq_true_iff.1 (show equalList as bs = true from h)
      have hmotive := (List.forall₂_and_left (p := fun a => ∀ {b}, a.equal b = true → motive a b)
        as bs).2 ⟨fun a ha => ih a ha, hitems⟩
      exact list as bs (hmotive.imp fun a b hab => ⟨hab.2, hab.1 hab.2⟩)

/-- Equal heads name the same operator. -/
theorem op?_eq_of_equal {a b : Expr} (h : a.equal b = true) : a.op? = b.op? := by
  refine equal_induction (motive := fun a b => a.op? = b.op?) ?number ?symbol ?list h
  case number => exact fun _ _ _ => rfl
  case symbol => exact fun _ => rfl
  case list => exact fun _ _ _ => rfl

/-- Expressions that compare equal are equally high. -/
theorem height_eq_of_equal {a b : Expr} (h : a.equal b = true) : a.height = b.height := by
  refine equal_induction (motive := fun a b => a.height = b.height) ?number ?symbol ?list h
  case number => exact fun x y _ => by rw [height_number, height_number]
  case symbol => exact fun _ => rfl
  case list =>
    intro as bs hitems
    rw [height, height]
    refine congrArg (· + 1) ?_
    induction hitems with
    | nil => rfl
    | cons hab _ ih => rw [heightList, heightList, hab.2, ih]

section

variable {a a' b b' : Expr}

/-! ### Comparing equal is an equivalence where it holds -/

theorem equal_symm (h : a.equal b = true) : b.equal a = true := by
  refine equal_induction (motive := fun a b => b.equal a = true) ?number ?symbol ?list h
  case number => exact fun x y hxy => BEq.symm hxy
  case symbol => exact fun name => beq_self_eq_true name
  case list =>
    intro as bs hitems
    refine equalList_eq_true_iff.2 (List.Forall₂.flip (hitems.imp fun a b hab => ?_))
    exact hab.2

theorem equal_trans {c : Expr} (h : a.equal b = true) (h' : b.equal c = true) :
    a.equal c = true := by
  refine equal_induction (motive := fun a b => ∀ c, b.equal c = true → a.equal c = true)
    ?number ?symbol ?list h c h'
  case number =>
    intro x y hxy c hyc
    cases c with
    | number z => exact BEq.trans hxy hyc
    | symbol name => cases hyc
    | list es => cases hyc
  case symbol => exact fun name c hc => hc
  case list =>
    intro as bs hitems c hbc
    cases c with
    | number z => cases hbc
    | symbol name => cases hbc
    | list cs =>
      have hbs := equalList_eq_true_iff.1 (show equalList bs cs = true from hbc)
      refine equalList_eq_true_iff.2 ?_
      clear hbc
      -- the items are linked in pairs, and the rows end together
      induction hitems generalizing cs with
      | nil => exact hbs
      | cons hab _ ih =>
        obtain _ | ⟨hb, hrest⟩ := hbs
        exact .cons (hab.2 _ hb) (ih _ hrest)

/-- Whether two expressions are equal does not change if both are replaced by equal ones. -/
theorem equal_congr (ha : a.equal a' = true) (hb : b.equal b' = true) :
    a.equal b = a'.equal b' := by
  refine Bool.eq_iff_iff.2 ⟨fun h => ?_, fun h => ?_⟩
  · exact equal_trans (equal_symm ha) (equal_trans h hb)
  · exact equal_trans ha (equal_trans h (equal_symm hb))

/-- Whether an expression is a certain number does not change either. -/
theorem isNumber_congr (h : a.equal a' = true) (x : Float) : a.isNumber x = a'.isNumber x := by
  refine equal_induction (motive := fun a a' => a.isNumber x = a'.isNumber x)
    ?number ?symbol ?list h
  case number => exact fun y y' hy => BEq.congr_left hy
  case symbol => exact fun _ => rfl
  case list => exact fun _ _ _ => rfl

theorem equal_binary (op : Op) (ha : a.equal a' = true) (hb : b.equal b' = true) :
    (binary op a b).equal (binary op a' b') = true :=
  equalList_eq_true_iff.2 (.cons (beq_self_eq_true _) (.cons ha (.cons hb .nil)))

end

end Expr

end FormalCalculus
