import FormalCalculus.Text.EditDistance

/-!
# Edit distance counts edits

`editDistance` fills rows with numbers. That it is the least number of edits that lead from one word
to the other is proved here, where an edit (`Text.Edit`) is done to a single character anywhere in a
word, and `Text.Edits n` is a series of `n` edits.

The rows come down to an equation for two words that begin with a character each
(`editDistance_cons_cons`): equal characters are passed over, and otherwise one edit is spent on
them. The two directions read it differently.

* *A series as long as the distance exists* (`edits_editDistance`). The equation says which edit
  comes first, and the others are those of shorter words.
* *No series is shorter* (`editDistance_le_of_edits`). One edit, wherever it is done, takes a word
  at most one further away from any other word (`Edit.editDistance_le`). The equation passes over
  equal characters without a look at the alternatives, so what they would have cost has to be
  bounded; `editDistance_le_cons_right` does this.

Main statements: `editDistance_le_iff`, and `editDistance_lt_two_iff` for a single edit.
-/

namespace FormalCalculus.Text

/-! ### Edits -/

/-- **One edit**: a character is inserted, deleted, or replaced by another one. -/
inductive Edit : List Char → List Char → Prop
  | insertion (before : List Char) (c : Char) (after : List Char) :
      Edit (before ++ after) (before ++ c :: after)
  | deletion (before : List Char) (c : Char) (after : List Char) :
      Edit (before ++ c :: after) (before ++ after)
  | substitution (before : List Char) {c d : Char} (h : c ≠ d) (after : List Char) :
      Edit (before ++ c :: after) (before ++ d :: after)

/-- **A series of edits**, one after the other. -/
inductive Edits : Nat → List Char → List Char → Prop
  | nil (s : List Char) : Edits 0 s s
  | cons {n : Nat} {s s' t : List Char} (h : Edit s s') (hs : Edits n s' t) : Edits (n + 1) s t

variable {n : Nat} {s s' t : List Char}

/-- An edit behind a character. -/
theorem Edit.behind (a : Char) (h : Edit s t) : Edit (a :: s) (a :: t) := by
  cases h with
  | insertion before c after => exact .insertion (a :: before) c after
  | deletion before c after => exact .deletion (a :: before) c after
  | substitution before h after => exact .substitution (a :: before) h after

/-- A series of edits behind a character. -/
theorem Edits.behind (a : Char) (h : Edits n s t) : Edits n (a :: s) (a :: t) := by
  induction h with
  | nil s => exact .nil (a :: s)
  | cons h _ ih => exact .cons (h.behind a) ih

/-- A word is built up from nothing, from its end on. -/
theorem edits_nil_left (t : List Char) : Edits t.length [] t := by
  induction t with
  | nil => exact .nil []
  | cons c t ih => exact .cons (.insertion [] c []) (ih.behind c)

/-- A word is taken down to nothing, from its front on. -/
theorem edits_nil_right (s : List Char) : Edits s.length s [] := by
  induction s with
  | nil => exact .nil []
  | cons a s ih => exact .cons (.deletion [] a s) ih

/-! ### Rows -/

/-- **A row holds the distances of all suffixes** of a pattern. -/
theorem distanceRow_cons (a : Char) (s t : List Char) :
    distanceRow (a :: s) t = editDistance (a :: s) t :: distanceRow s t := by
  induction t with
  | nil => rfl
  | cons c t ih =>
    have hrow : distanceRow (a :: s) (c :: t) = prependRow c (a :: s) (distanceRow (a :: s) t) :=
      rfl
    rw [editDistance, hrow, ih]
    rfl

theorem editDistance_nil_left (t : List Char) : editDistance [] t = t.length := by
  have hrow : distanceRow [] t = [t.length] := by
    induction t with
    | nil => rfl
    | cons c t ih =>
      have hrow : distanceRow [] (c :: t) = (distanceRow [] t).map (· + 1) := rfl
      rw [hrow, ih]
      rfl
  rw [editDistance, hrow]
  rfl

theorem editDistance_nil_right (s : List Char) : editDistance s [] = s.length := by
  cases s <;> rfl

/-- **The distance of two words that begin with a character each.** -/
theorem editDistance_cons_cons (a c : Char) (s t : List Char) :
    editDistance (a :: s) (c :: t) =
      if a = c then editDistance s t
      else 1 + min (editDistance (a :: s) t)
        (min (editDistance s (c :: t)) (editDistance s t)) := by
  have hrow : distanceRow (a :: s) (c :: t) =
      prependRow c (a :: s) (editDistance (a :: s) t :: distanceRow s t) := by
    rw [← distanceRow_cons]
    rfl
  rw [editDistance, hrow]
  rfl

/-! ### A series as long as the distance -/

/-- **There is a series of edits as long as the distance.** -/
theorem edits_editDistance (s t : List Char) : Edits (editDistance s t) s t := by
  induction s generalizing t with
  | nil =>
    rw [editDistance_nil_left]
    exact edits_nil_left t
  | cons a s ihs =>
    induction t with
    | nil =>
      rw [editDistance_nil_right]
      exact edits_nil_right (a :: s)
    | cons c t iht =>
      by_cases h : a = c
      · subst h
        rw [editDistance_cons_cons, if_pos rfl]
        exact (ihs t).behind a
      · -- the least of the three distances tells what is done first
        have hmin : editDistance (a :: s) (c :: t) = editDistance (a :: s) t + 1 ∨
            editDistance (a :: s) (c :: t) = editDistance s (c :: t) + 1 ∨
              editDistance (a :: s) (c :: t) = editDistance s t + 1 := by
          rw [editDistance_cons_cons, if_neg h]
          omega
        obtain hinsert | hdelete | hreplace := hmin
        · rw [hinsert]
          exact .cons (.insertion [] c (a :: s)) (iht.behind c)
        · rw [hdelete]
          exact .cons (.deletion [] a s) (ihs (c :: t))
        · rw [hreplace]
          exact .cons (.substitution [] h s) ((ihs t).behind c)

/-! ### No shorter series -/

theorem editDistance_self (s : List Char) : editDistance s s = 0 := by
  induction s with
  | nil => rfl
  | cons a s ih => rw [editDistance_cons_cons, if_pos rfl, ih]

theorem editDistance_comm (s t : List Char) : editDistance s t = editDistance t s := by
  induction s generalizing t with
  | nil => rw [editDistance_nil_left, editDistance_nil_right]
  | cons a s ihs =>
    induction t with
    | nil => rw [editDistance_nil_left, editDistance_nil_right]
    | cons c t iht =>
      rw [editDistance_cons_cons, editDistance_cons_cons, iht, ihs (c :: t), ihs t]
      by_cases h : a = c
      · rw [if_pos h, if_pos h.symm]
      · rw [if_neg h, if_neg (Ne.symm h)]
        omega

/-- If a character in front of the text costs one at most, then so does one in front of the
pattern. -/
theorem editDistance_cons_left_le (h : ∀ t c, editDistance s t ≤ editDistance s (c :: t) + 1)
    (a : Char) (t : List Char) : editDistance (a :: s) t ≤ editDistance s t + 1 := by
  cases t with
  | nil =>
    rw [editDistance_nil_right, editDistance_nil_right]
    exact Nat.le_refl _
  | cons c t =>
    have htext := h t c
    rw [editDistance_cons_cons]
    split <;> omega

/-- **A character in front of the text** takes away one at most. -/
theorem editDistance_le_cons_right (s t : List Char) (c : Char) :
    editDistance s t ≤ editDistance s (c :: t) + 1 := by
  induction s generalizing t c with
  | nil =>
    rw [editDistance_nil_left, editDistance_nil_left, List.length_cons]
    omega
  | cons a s ih =>
    -- if `c` is passed over with `a`, what is left is the distance of `s` and `t`
    have hpattern := editDistance_cons_left_le ih a t
    have htext := ih t c
    rw [editDistance_cons_cons]
    split <;> omega

theorem editDistance_le_cons_left (s t : List Char) (a : Char) :
    editDistance s t ≤ editDistance (a :: s) t + 1 := by
  rw [editDistance_comm s, editDistance_comm (a :: s)]
  exact editDistance_le_cons_right t s a

theorem editDistance_replace_le (s t : List Char) (a b : Char) :
    editDistance (a :: s) t ≤ editDistance (b :: s) t + 1 := by
  induction t with
  | nil =>
    rw [editDistance_nil_right, editDistance_nil_right, List.length_cons, List.length_cons]
    omega
  | cons c t ih =>
    -- only one of `a` and `b` can be passed over with `c`, and then an edit is spent on the other
    have htext := editDistance_le_cons_right s t c
    have hpattern := editDistance_le_cons_left s t b
    rw [editDistance_cons_cons, editDistance_cons_cons]
    split <;> split <;> omega

/-- Behind a character, words are no further apart from any other. -/
theorem editDistance_behind_le (h : ∀ t, editDistance s t ≤ editDistance s' t + 1) (a : Char)
    (t : List Char) : editDistance (a :: s) t ≤ editDistance (a :: s') t + 1 := by
  induction t with
  | nil =>
    have hnil := h []
    rw [editDistance_nil_right, editDistance_nil_right] at hnil
    rw [editDistance_nil_right, editDistance_nil_right, List.length_cons, List.length_cons]
    omega
  | cons c t ih =>
    have htail := h t
    have hwhole := h (c :: t)
    rw [editDistance_cons_cons, editDistance_cons_cons]
    split <;> omega

/-- **One edit** takes a word at most one further away from any other, by induction on the
characters in front of it. -/
theorem Edit.editDistance_le (h : Edit s s') (t : List Char) :
    editDistance s t ≤ editDistance s' t + 1 := by
  cases h with
  | insertion before c after =>
    induction before generalizing t with
    | nil => exact editDistance_le_cons_left after t c
    | cons b before ih => exact editDistance_behind_le ih b t
  | deletion before c after =>
    induction before generalizing t with
    | nil => exact editDistance_cons_left_le (editDistance_le_cons_right after) c t
    | cons b before ih => exact editDistance_behind_le ih b t
  | @substitution before c d _ after =>
    induction before generalizing t with
    | nil => exact editDistance_replace_le after t c d
    | cons b before ih => exact editDistance_behind_le ih b t

/-- **No series of edits is shorter than the distance.** -/
theorem editDistance_le_of_edits (h : Edits n s t) : editDistance s t ≤ n := by
  induction h with
  | nil s => exact Nat.le_of_eq (editDistance_self s)
  | @cons n s s' t h _ ih =>
    calc editDistance s t ≤ editDistance s' t + 1 := h.editDistance_le t
      _ ≤ n + 1 := Nat.succ_le_succ ih

/-! ### The least number of edits -/

/-- **Edit distance is the least number of edits** that lead from one word to the other. -/
theorem editDistance_le_iff : editDistance s t ≤ n ↔ ∃ k ≤ n, Edits k s t := by
  constructor
  · intro h
    exact ⟨editDistance s t, h, edits_editDistance s t⟩
  · rintro ⟨k, hk, h⟩
    exact Nat.le_trans (editDistance_le_of_edits h) hk

/-- **Words at a distance below two** are the same, or one edit apart. -/
theorem editDistance_lt_two_iff : editDistance s t < 2 ↔ s = t ∨ Edit s t := by
  rw [Nat.lt_succ_iff, editDistance_le_iff]
  constructor
  · rintro ⟨k, hk, h⟩
    cases h with
    | nil s => exact Or.inl rfl
    | cons h hs =>
      -- nothing is left to be done after the first edit
      cases hs with
      | nil _ => exact Or.inr h
      | cons _ _ => omega
  · rintro (rfl | h)
    · exact ⟨0, Nat.zero_le 1, .nil s⟩
    · exact ⟨1, Nat.le_refl 1, .cons h (.nil t)⟩

end FormalCalculus.Text
