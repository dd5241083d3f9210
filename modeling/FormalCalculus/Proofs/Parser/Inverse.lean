import FormalCalculus.Proofs.Expr.Equality
import FormalCalculus.Proofs.Parser.Yield

/-!
# Printing and parsing are inverse

An expression in print is a text like any other, and it may be read as another expression, or not at
all: a symbol with a blank in it falls apart, a symbol that looks like a number becomes one, and
what is printed for infinity is a name. None of these comes back as itself.

The reason is the same for all of them. Whatever is parsed is readable, and an expression that
compares equal to a readable one is readable itself (`Expr.readable_of_equal`): it has the same
shape and the same symbols, and numbers that compare equal are finite together. So what comes back
at all is readable, and the readable expressions come back if the limit has room for them.

Main statement: `Expr.reads_back_iff`.
-/

namespace FormalCalculus

namespace Expr

/-- **What compares equal to a readable expression is readable.** -/
theorem readable_of_equal {a b : Expr} (h : a.equal b = true) (ha : a.Readable) : b.Readable := by
  refine equal_induction (motive := fun a b => a.Readable → b.Readable) ?number ?symbol ?list h ha
  case number =>
    intro x y hxy hx
    exact readable_number.2 (Numeral.isFinite_of_beq hxy (readable_number.1 hx))
  case symbol => exact fun _ h => h
  case list =>
    intro as bs hitems has
    obtain ⟨hne, has⟩ := readable_list.1 has
    refine readable_list.2 ⟨?_, forall_mem_of_forall₂ (hitems.imp fun _ _ hab => hab.2) has⟩
    rintro rfl
    exact hne (List.forall₂_nil_right_iff.1 hitems)

/-- A readable expression compares equal to itself. -/
theorem Readable.equal_self {e : Expr} (he : e.Readable) : e.equal e = true := by
  induction e using Expr.induction with
  | number x => exact Numeral.beq_self_of_isFinite (readable_number.1 he)
  | symbol name => simp [equal]
  | list es ih =>
    obtain ⟨-, hitems⟩ := readable_list.1 he
    exact equalList_eq_true_iff.2 (List.forall₂_same.2 fun e he => ih e he (hitems e he))

/-- **Printing and parsing are inverse exactly on the readable expressions** that keep the limit.
An expression in print is parsed as one that compares equal to it if and only if its numbers are
finite, its symbols are names, its lists are not empty, and it is at most one deeper than the limit.
What is parsed then is the same expression, down to the sign of every zero, and in print it is the
same text. -/
theorem reads_back_iff (e : Expr) (limit : Nat) :
    ((∃ e', ofText limit e.text = .ok e' ∧ e'.equal e = true) ↔
        e.Readable ∧ e.depth ≤ limit + 1) ∧
      ∀ e', ofText limit e.text = .ok e' → e'.equal e = true → e' = e ∧ e'.text = e.text := by
  have hback : ∀ e', ofText limit e.text = .ok e' → e'.equal e = true →
      e.Readable ∧ e.height ≤ limit + 1 := by
    intro e' hparse hequal
    obtain ⟨-, hheight, -⟩ := ofText_eq_ok_iff.1 hparse
    rw [height_eq_of_equal hequal] at hheight
    exact ⟨readable_of_equal hequal (readable_of_ofText hparse), hheight⟩
  rw [depth_eq_height]
  refine ⟨⟨?_, ?_⟩, ?_⟩
  · rintro ⟨e', hparse, hequal⟩
    exact hback e' hparse hequal
  · rintro ⟨hreadable, hheight⟩
    exact ⟨e, ofText_text hreadable hheight, hreadable.equal_self⟩
  · intro e' hparse hequal
    obtain ⟨hreadable, hheight⟩ := hback e' hparse hequal
    obtain rfl : e' = e :=
      Except.ok.inj (hparse.symm.trans (ofText_text hreadable hheight))
    exact ⟨rfl, rfl⟩

/-- A symbol with a blank in it is read as two. -/
example : ofText 256 (list [symbol "a b"]).text = .ok (list [symbol "a", symbol "b"]) := by
  decide +kernel

end Expr

end FormalCalculus
