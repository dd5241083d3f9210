import FormalCalculus.Proofs.Expr.Yield

/-!
# The blanks of an expression in print

The only blanks that printing puts between atoms and parentheses are single spaces, each between two
items of a list. This is said of the characters alone, so that it can be checked without knowing
which expression is printed: at a space some list is open, the character before it ends an item and
the character behind it begins one (`BetweenItems`). A text is `Spaced` if all of its blanks are of
this kind.

A blank of the expression itself would be in print too. A readable expression has none, its names
and numerals being atoms, and so it is spaced in print (`Expr.spaced_render`).

What stands on either side of a blank may belong to another part of the text, and the list that is
open there may have been opened long before. So the parts of a text are looked at together with what
surrounds them (`SpacedIn`), and that is all it takes for a text to be spaced if its parts are
(`SpacedIn.append`).
-/

namespace FormalCalculus

open Text (isBlank)

/-! ### Places between items -/

/-- The text ends with the end of an item: the last character of an atom or of a list. -/
def EndsItem (text : List Char) : Prop :=
  ∃ c ∈ text.getLast?, Piece.isAtomChar c = true ∨ c = ')'

/-- The text begins with the beginning of an item. -/
def BeginsItem (text : List Char) : Prop :=
  ∃ c ∈ text.head?, Piece.isAtomChar c = true ∨ c = '('

/-- **A place between two items of a list**, given by all that stands before and after it. -/
structure BetweenItems (before after : List Char) : Prop where
  /-- Some list is open. -/
  inside : before.count ')' < before.count '('
  /-- An item ends before the place. -/
  ends : EndsItem before
  /-- Another item begins behind it. -/
  begins : BeginsItem after

/-- **Single spaces between items**: every blank is a space, and it is all that stands between two
items of a list. -/
def Spaced (text : List Char) : Prop :=
  ∀ before c after, text = before ++ c :: after → isBlank c = true →
    c = ' ' ∧ BetweenItems before after

/-- **A part of a text is spaced**, with `front` before it and `rest` behind it. -/
def SpacedIn (front part rest : List Char) : Prop :=
  ∀ before c after, part = before ++ c :: after → isBlank c = true →
    c = ' ' ∧ BetweenItems (front ++ before) (after ++ rest)

variable {front rest before after : List Char}

theorem EndsItem.append_left (h : EndsItem before) (front : List Char) :
    EndsItem (front ++ before) := by
  obtain ⟨c, hc, hends⟩ := h
  have hne : before ≠ [] := by
    rintro rfl
    cases hc
  exact ⟨c, by rwa [List.getLast?_append_of_ne_nil _ hne], hends⟩

theorem BeginsItem.append_right (h : BeginsItem after) (rest : List Char) :
    BeginsItem (after ++ rest) := by
  obtain ⟨c, hc, hbegins⟩ := h
  have hne : after ≠ [] := by
    rintro rfl
    cases hc
  exact ⟨c, by rwa [List.head?_append_of_ne_nil _ hne], hbegins⟩

/-- All blanks of a spaced text are spaces. -/
theorem Spaced.eq_space {text : List Char} (h : Spaced text) {c : Char} (hc : c ∈ text)
    (hblank : isBlank c = true) : c = ' ' := by
  obtain ⟨before, after, htext⟩ := List.append_of_mem hc
  exact (h before c after htext hblank).1

/-! ### Putting parts together -/

/-- **Two parts that follow each other** are spaced together if each is, next to the other. -/
theorem SpacedIn.append {as bs : List Char} (has : SpacedIn front as (bs ++ rest))
    (hbs : SpacedIn (front ++ as) bs rest) : SpacedIn front (as ++ bs) rest := by
  intro before c after hsplit hblank
  obtain ⟨middle, rfl, hmiddle⟩ | ⟨middle, rfl, hmiddle⟩ := List.append_eq_append_iff.1 hsplit
  · -- the blank is behind the first part
    rw [← List.append_assoc]
    exact hbs middle c after hmiddle hblank
  · cases middle with
    | nil =>
      -- it is the first character of the second part
      have hplace := hbs [] c after hmiddle.symm hblank
      rwa [List.append_nil, List.append_nil] at hplace
    | cons d middle =>
      obtain ⟨rfl, hafter⟩ := List.cons.inj hmiddle
      rw [show after = middle ++ bs from hafter, List.append_assoc]
      exact has before c middle rfl hblank

/-- A part without blanks is spaced. -/
theorem spacedIn_of_forall {part : List Char} (h : ∀ c ∈ part, isBlank c = false) :
    SpacedIn front part rest := by
  rintro before c after rfl hblank
  rw [h c (by simp)] at hblank
  cases hblank

theorem spacedIn_atom {cs : List Char} (hcs : ∀ c ∈ cs, Piece.isAtomChar c = true) :
    SpacedIn front cs rest := by
  refine spacedIn_of_forall fun c hc => ?_
  rw [← Bool.not_eq_true]
  intro hblank
  have hatom := hcs c hc
  rw [isAtomChar_of_isBlank hblank] at hatom
  exact absurd hatom Bool.false_ne_true

/-- A space between two items is spaced. -/
theorem spacedIn_space (h : BetweenItems front rest) : SpacedIn front [' '] rest := by
  intro before c after hsplit _
  obtain ⟨rfl, hchar⟩ | ⟨_, -, hnil⟩ := List.append_eq_cons_iff.1 hsplit.symm
  · obtain ⟨rfl, rfl⟩ := List.cons.inj hchar
    rw [List.append_nil]
    exact ⟨rfl, h⟩
  · -- there is no other character
    simp at hnil

/-! ### Expressions in print -/

theorem endsItem_of_atom {cs : List Char} (hne : cs ≠ [])
    (hcs : ∀ c ∈ cs, Piece.isAtomChar c = true) : EndsItem cs :=
  ⟨cs.getLast hne, List.getLast?_eq_some_getLast hne, Or.inl (hcs _ (List.getLast_mem hne))⟩

theorem beginsItem_of_atom {cs : List Char} (hne : cs ≠ [])
    (hcs : ∀ c ∈ cs, Piece.isAtomChar c = true) : BeginsItem cs :=
  ⟨cs.head hne, List.head?_eq_some_head hne, Or.inl (hcs _ (List.head_mem hne))⟩

/-- There is no parenthesis in an atom, so that it opens as many lists as it closes. -/
theorem count_paren_of_atom {cs : List Char} (hcs : ∀ c ∈ cs, Piece.isAtomChar c = true) :
    cs.count '(' = cs.count ')' := by
  have hnone {paren : Char} (hparen : Piece.isAtomChar paren = false) : cs.count paren = 0 := by
    refine List.count_eq_zero.2 fun hmem => ?_
    rw [hcs paren hmem] at hparen
    cases hparen
  rw [hnone (by decide), hnone (by decide)]

namespace Expr

/-- **Leaves in print are atoms**: the only other expressions are lists. -/
theorem Readable.atom_or_list {e : Expr} (he : e.Readable) :
    (e.render ≠ [] ∧ ∀ c ∈ e.render, Piece.isAtomChar c = true) ∨ ∃ es, e = list es := by
  cases e with
  | number x =>
    have hx := readable_number.1 he
    exact Or.inl ⟨Numeral.render_ne_nil hx, fun _ => isAtomChar_of_mem_render hx⟩
  | symbol name =>
    have hname := readable_symbol.1 he
    exact Or.inl ⟨hname.1, hname.2.1⟩
  | list es => exact Or.inr ⟨es, rfl⟩

theorem endsItem_render {e : Expr} (he : e.Readable) : EndsItem e.render := by
  obtain ⟨hne, hatom⟩ | ⟨es, rfl⟩ := he.atom_or_list
  · exact endsItem_of_atom hne hatom
  · refine ⟨')', ?_, Or.inr rfl⟩
    rw [render, ← List.cons_append, List.getLast?_concat]
    rfl

theorem beginsItem_render {e : Expr} (he : e.Readable) : BeginsItem e.render := by
  obtain ⟨hne, hatom⟩ | ⟨es, rfl⟩ := he.atom_or_list
  · exact beginsItem_of_atom hne hatom
  · exact ⟨'(', rfl, Or.inr rfl⟩

/-- Items in print begin as the first of them does. -/
theorem beginsItem_renderItems {e : Expr} {es : List Expr} (he : e.Readable) :
    BeginsItem (renderItems (e :: es)) := by
  cases es with
  | nil => exact beginsItem_render he
  | cons e' es =>
    rw [renderItems_cons_cons]
    exact (beginsItem_render he).append_right _

theorem count_renderItems {es : List Expr}
    (h : ∀ e ∈ es, e.render.count '(' = e.render.count ')') :
    (renderItems es).count '(' = (renderItems es).count ')' := by
  induction es with
  | nil => rfl
  | cons e es ih =>
    obtain ⟨he, hes⟩ := List.forall_mem_cons.1 h
    cases es with
    | nil => exact he
    | cons e' es =>
      rw [renderItems_cons_cons]
      simp [List.count_append, he, ih hes]

/-- **Every list that is opened in print is closed.** -/
theorem count_render {e : Expr} (he : e.Readable) : e.render.count '(' = e.render.count ')' := by
  induction e using Expr.induction with
  | number x => exact count_paren_of_atom fun _ => isAtomChar_of_mem_render (readable_number.1 he)
  | symbol name => exact count_paren_of_atom (readable_symbol.1 he).2.1
  | list es ih =>
    have hitems := count_renderItems fun e hmem => ih e hmem ((readable_list.1 he).2 e hmem)
    simp [render, List.count_append, hitems]

/-- Items in print are spaced inside of a list, if each of them is. -/
theorem spacedIn_renderItems {es : List Expr} (hreadable : ∀ e ∈ es, e.Readable)
    (h : ∀ e ∈ es, ∀ front rest, front.count ')' ≤ front.count '(' → SpacedIn front e.render rest)
    (hfront : front.count ')' < front.count '(') : SpacedIn front (renderItems es) rest := by
  induction es generalizing front with
  | nil => exact spacedIn_of_forall (by simp [renderItems])
  | cons e es ih =>
    obtain ⟨he, hes⟩ := List.forall_mem_cons.1 hreadable
    obtain ⟨hspaced, hspaceds⟩ := List.forall_mem_cons.1 h
    cases es with
    | nil => exact hspaced front rest (Nat.le_of_lt hfront)
    | cons e' es =>
      -- the lists that are open behind the item are those that were open before it
      have hcount := count_render he
      have hinside : (front ++ e.render).count ')' < (front ++ e.render).count '(' := by
        rw [List.count_append, List.count_append]
        omega
      have hplace : BetweenItems (front ++ e.render) (renderItems (e' :: es) ++ rest) :=
        ⟨hinside, (endsItem_render he).append_left front,
          (beginsItem_renderItems (hes e' List.mem_cons_self)).append_right rest⟩
      rw [renderItems_cons_cons]
      refine (hspaced front _ (Nat.le_of_lt hfront)).append ?_
      refine (spacedIn_space hplace).append (ih hes hspaceds ?_)
      simpa [List.count_append] using hinside

/-- **An expression in print is spaced** wherever it stands, if no list is closed before it that was
not opened. -/
theorem spacedIn_render {e : Expr} (he : e.Readable) (front rest : List Char)
    (hfront : front.count ')' ≤ front.count '(') : SpacedIn front e.render rest := by
  induction e using Expr.induction generalizing front rest with
  | number x => exact spacedIn_atom fun _ => isAtomChar_of_mem_render (readable_number.1 he)
  | symbol name => exact spacedIn_atom (readable_symbol.1 he).2.1
  | list es ih =>
    obtain ⟨-, hitems⟩ := readable_list.1 he
    have hopen : SpacedIn front ['('] (renderItems es ++ [')'] ++ rest) :=
      spacedIn_of_forall (by simpa using Paren.opening.isBlank_char)
    have hclose : SpacedIn (front ++ ['('] ++ renderItems es) [')'] rest :=
      spacedIn_of_forall (by simpa using Paren.closing.isBlank_char)
    -- the items stand inside of the list that the parenthesis opens
    have hinside : (front ++ ['(']).count ')' < (front ++ ['(']).count '(' := by
      simp only [List.count_append]
      exact Nat.lt_succ_of_le hfront
    have hrow : SpacedIn (front ++ ['(']) (renderItems es) ([')'] ++ rest) :=
      spacedIn_renderItems hitems (fun e hmem => ih e hmem (hitems e hmem)) hinside
    rw [render]
    exact hopen.append (hrow.append hclose)

/-- **The blanks of a readable expression in print** are single spaces between items. -/
theorem spaced_render {e : Expr} (he : e.Readable) : Spaced e.render := by
  intro before c after hsplit hblank
  have hplace := spacedIn_render he [] [] (Nat.le_refl _) before c after hsplit hblank
  rwa [List.nil_append, List.append_nil] at hplace

end Expr

end FormalCalculus
