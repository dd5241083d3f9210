import FormalCalculus.Proofs.Simplify.NormalForm

/-!
# Simplifying a part first

Simplification works from the leaves to the root, so it comes by every part of an expression in the
end. It makes no difference if a part has been simplified before: the part is found in its normal
form, nothing is done there, and everything else goes on as it would have.

* `Expr.subterm?`, `Expr.replaceAt` — the subterm at a position, and another one put there. Whatever
  is to be shown of an expression and of the same expression with another part is shown of the two
  parts, and for a list from one of its items (`Expr.replaceAt_induction`);
* `Traced.Omits` — a run does what another one does, and leaves out a block of its steps. Runs that
  go on alike keep this relation, whether the block lies in what they have done already
  (`Traced.Omits.bind`) or in what is still to come (`Traced.Omits.bind_right`).

That the part itself takes no step any more is idempotence (`Expr.simplify_of_normal`), and needs of
arithmetic what idempotence needs. Main statement: `Expr.simplify_replaceAt`.
-/

namespace FormalCalculus

/-! ### Positions -/

namespace Expr

/-- **The subterm at a position.** A position tells the way down from the root by the numbers of the
items to go to; the head of a list is its item `0`. -/
def subterm? : Expr → List Nat → Option Expr
  | e, [] => some e
  | e, i :: position => e.items[i]?.bind fun a => a.subterm? position

/-- **An expression with another subterm at a position.** Where it has no such position, it stays as
it is. -/
def replaceAt : Expr → List Nat → Expr → Expr
  | _, [], t => t
  | list es, i :: position, t => list (es.modify i fun a => a.replaceAt position t)
  | number x, _ :: _, _ => number x
  | symbol name, _ :: _, _ => symbol name

/-- **Induction on a position**, for an expression and the same expression with another subterm
there: what holds of the two subterms, and of two lists that differ in one item if it holds of the
item, holds of the two expressions. -/
theorem replaceAt_induction {motive : Expr → Expr → Prop} {t t' : Expr} (part : motive t t')
    (item : ∀ (before after : List Expr) (a a' : Expr), motive a a' →
      motive (list (before ++ a :: after)) (list (before ++ a' :: after)))
    {e : Expr} {position : List Nat} (h : e.subterm? position = some t) :
    motive e (e.replaceAt position t') := by
  induction position generalizing e with
  | nil =>
    obtain rfl : e = t := Option.some.inj h
    exact part
  | cons i position ih =>
    obtain ⟨a, ha, hat⟩ := Option.bind_eq_some_iff.1 h
    cases e with
    | number x => cases ha
    | symbol name => cases ha
    | list es =>
      have ha : es[i]? = some a := ha
      obtain ⟨hi, -⟩ := List.getElem?_eq_some_iff.1 ha
      obtain ⟨before, a', after, hes, hlength, hmodify⟩ :=
        List.exists_of_modify (fun a => a.replaceAt position t') hi
      -- the item that is modified is the one on the way to the position
      obtain rfl : a' = a := by
        rw [hes, ← hlength, List.getElem?_append_right (Nat.le_refl _), Nat.sub_self] at ha
        exact Option.some.inj ha
      rw [replaceAt, hmodify, hes]
      exact item before after a' _ (ih hat)

end Expr

/-! ### Runs without a block of steps -/

namespace Traced

variable {α β : Type} {block : List Step}

/-- **The second run omits a block of the first**: it comes to the same outcome, and if that is a
value, its record is the record of the first without the block. -/
structure Omits (block : List Step) (x y : Traced α) : Prop where
  outcome_eq : y.outcome = x.outcome
  steps_eq : ∀ a, x.outcome = .ok a →
    ∃ before after, x.steps = before ++ block ++ after ∧ y.steps = before ++ after

/-- The block stays omitted if both runs go on alike. -/
theorem Omits.bind {x y : Traced α} (h : Omits block x y) (f : α → Traced β) :
    Omits block (x.bind f) (y.bind f) where
  outcome_eq := by rw [outcome_bind, outcome_bind, h.outcome_eq]
  steps_eq := by
    intro b hb
    obtain ⟨a, ha, -⟩ := outcome_bind_eq_ok.1 hb
    obtain ⟨before, after, hx, hy⟩ := h.steps_eq a ha
    -- what comes after the block is followed by the steps of the continuation
    refine ⟨before, after ++ (f a).steps, ?_, ?_⟩
    · rw [bind_of_ok ha, hx, List.append_assoc]
    · rw [bind_of_ok (h.outcome_eq.trans ha), hy, List.append_assoc]

/-- The block may be omitted after the same beginning. -/
theorem Omits.bind_right (x : Traced α) {f g : α → Traced β} (h : ∀ a, Omits block (f a) (g a)) :
    Omits block (x.bind f) (x.bind g) where
  outcome_eq := by
    rw [outcome_bind, outcome_bind]
    cases x.outcome with
    | ok a => exact (h a).outcome_eq
    | error error => rfl
  steps_eq := by
    intro b hb
    obtain ⟨a, ha, hb⟩ := outcome_bind_eq_ok.1 hb
    obtain ⟨before, after, hf, hg⟩ := (h a).steps_eq b hb
    refine ⟨x.steps ++ before, after, ?_, ?_⟩
    · rw [bind_of_ok ha, hf, List.append_assoc, List.append_assoc, List.append_assoc]
    · rw [bind_of_ok ha, hg, List.append_assoc]

end Traced

namespace Expr

variable {arith : Arithmetic} {block : List Step}

/-- What is omitted in an item is omitted in the row of items: those before it are simplified alike,
and so are those behind it. -/
theorem omits_simplifyItems {a a' : Expr}
    (h : Traced.Omits block (a.simplify arith) (a'.simplify arith)) (before after : List Expr) :
    Traced.Omits block (simplifyItems arith (before ++ a :: after))
      (simplifyItems arith (before ++ a' :: after)) := by
  induction before with
  | nil =>
    rw [List.nil_append, List.nil_append, simplifyItems, simplifyItems]
    exact h.bind _
  | cons b before ih =>
    rw [List.cons_append, List.cons_append, simplifyItems, simplifyItems]
    exact .bind_right _ fun b' => ih.bind _

/-- What is omitted in an item is omitted in the list, since the rules are tried on the same
items in the end. -/
theorem omits_simplify_list {a a' : Expr}
    (h : Traced.Omits block (a.simplify arith) (a'.simplify arith)) (before after : List Expr) :
    Traced.Omits block ((list (before ++ a :: after)).simplify arith)
      ((list (before ++ a' :: after)).simplify arith) := by
  rw [simplify, simplify]
  exact (omits_simplifyItems h before after).bind _

/-- Of an expression that is simplified already, all of the record is omitted. -/
theorem omits_of_simplifiesTo (harith : arith.SquaresOverflow) {t t' : Expr}
    (h : t.SimplifiesTo arith t') :
    Traced.Omits (t.simplify arith).steps (t.simplify arith) (t'.simplify arith) := by
  rw [simplify_of_normal (h.normal harith)]
  exact ⟨Eq.symm h, fun _ _ => ⟨[], [], by rw [List.nil_append, List.append_nil], rfl⟩⟩

/-- **Simplifying a part first does not change the whole.** Let a subterm, at any position, be
replaced by what it is simplified to. Then the whole is simplified to the same expression as before,
or fails with the same error; and if it does not fail, its record is the record of the replaced
expression with the record of the subterm put in as one block. -/
theorem simplify_replaceAt (arith : Arithmetic) (harith : arith.SquaresOverflow) (e t t' : Expr)
    (position : List Nat) (hposition : e.subterm? position = some t)
    (ht : (t.simplify arith).outcome = .ok t') :
    ((e.replaceAt position t').simplify arith).outcome = (e.simplify arith).outcome ∧
      ∀ s, (e.simplify arith).outcome = .ok s →
        ∃ before after,
          (e.simplify arith).steps = before ++ (t.simplify arith).steps ++ after ∧
          ((e.replaceAt position t').simplify arith).steps = before ++ after := by
  have homits : Traced.Omits (t.simplify arith).steps (e.simplify arith)
      ((e.replaceAt position t').simplify arith) := by
    refine replaceAt_induction (motive := fun e e' =>
      Traced.Omits (t.simplify arith).steps (e.simplify arith) (e'.simplify arith)) ?part ?item
      hposition
    case part => exact omits_of_simplifiesTo harith ht
    case item => exact fun before after a a' h => omits_simplify_list h before after
  exact ⟨homits.outcome_eq, homits.steps_eq⟩

/-- The head of a list may be a part, and only become an operator when it is simplified. -/
theorem simplify_replaceAt_of_head :
    let t := binary .mul (number 1) (symbol "+")
    let e := list [t, binary .mul (symbol "x") (symbol "x"), number 0]
    let e' := list [symbol "+", binary .mul (symbol "x") (symbol "x"), number 0]
    let s := binary .pow (symbol "x") (number 2)
    Arithmetic.squaring.SquaresOverflow ∧ e.subterm? [0] = some t ∧
      (t.simplify .squaring).outcome = .ok (symbol "+") ∧
      e.replaceAt [0] (symbol "+") = e' ∧ (e.simplify .squaring).outcome = .ok s ∧
      (e'.simplify .squaring).outcome = (e.simplify .squaring).outcome ∧
      ∃ before after,
        (e.simplify .squaring).steps = before ++ (t.simplify .squaring).steps ++ after ∧
        (e'.simplify .squaring).steps = before ++ after := by
  intro t e e' s
  have ht : (t.simplify .squaring).outcome = .ok (symbol "+") := by decide +kernel
  have hs : (e.simplify .squaring).outcome = .ok s := by decide +kernel
  obtain ⟨houtcome, hsteps⟩ := simplify_replaceAt .squaring Arithmetic.squaring_squaresOverflow e t
    (symbol "+") [0] rfl ht
  exact ⟨Arithmetic.squaring_squaresOverflow, rfl, ht, rfl, hs, houtcome, hsteps s hs⟩

end Expr

end FormalCalculus
