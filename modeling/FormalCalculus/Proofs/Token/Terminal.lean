import FormalCalculus.Token.Basic

/-!
# Terminals

A token says three things: what it is, where it stands, and how it is written. An expression keeps
of this what the token *means*: a parenthesis, the value of a number, or the name of a symbol. That
is its terminal, and two texts with the same terminals are the same expression.

* `terminals cs` — the terminals of a text, read off its pieces; `Token.map_terminal_ofText` says
  that they are those of its tokens;
* `terminals_cons_paren`, `terminals_cons_blank`, `terminals_append_atom` — how they come apart at
  the front of a text. What holds of one parenthesis holds of the other (`Paren`). An atom ends
  where something other than an atom begins, so it is split off only there;
* `readable_of_mem_terminals` — what can be read: finite numbers, and names that are runs of atom
  characters and not themselves numbers.
-/

namespace FormalCalculus

/-- What a token means. -/
inductive Terminal where
  | openParen
  | closeParen
  | number (value : Float)
  | symbol (name : String)
deriving DecidableEq

namespace Token

/-- What a token of this kind means, if it is written so. -/
def Kind.terminal (lexeme : String) : Kind → Terminal
  | .openParen => .openParen
  | .closeParen => .closeParen
  | .number value => .number value
  | .symbol => .symbol lexeme

/-- What a token means. -/
def terminal (token : Token) : Terminal := token.kind.terminal token.lexeme

end Token

/-! ### Parentheses -/

/-- The two parentheses. -/
inductive Paren where
  | opening
  | closing

namespace Paren

/-- How a parenthesis is written. -/
abbrev char : Paren → Char
  | opening => '('
  | closing => ')'

/-- The piece that a parenthesis is. -/
abbrev piece : Paren → Piece
  | opening => .openParen
  | closing => .closeParen

/-- The kind of token that a parenthesis is. -/
abbrev kind : Paren → Token.Kind
  | opening => .openParen
  | closing => .closeParen

/-- What a parenthesis means. -/
abbrev terminal : Paren → Terminal
  | opening => .openParen
  | closing => .closeParen

theorem isBlank_char (paren : Paren) : Text.isBlank paren.char = false := by
  cases paren <;> decide

theorem isAtomChar_char (paren : Paren) : Piece.isAtomChar paren.char = false := by
  cases paren <;> decide

/-- A parenthesis in front of a text is a piece by itself. -/
theorem prepend_char (paren : Paren) (pieces : List Piece) :
    Piece.prepend paren.char pieces = paren.piece :: pieces := by
  unfold Piece.prepend
  rw [paren.isBlank_char, if_neg Bool.false_ne_true]
  cases paren <;> rfl

end Paren

/-! ### The terminals of a text -/

namespace Piece

/-- Atoms are made of the characters that are neither blank nor parentheses. -/
theorem isAtomChar_iff {c : Char} :
    isAtomChar c = true ↔ Text.isBlank c = false ∧ ∀ paren : Paren, c ≠ paren.char := by
  constructor
  · intro hc
    refine ⟨?_, fun paren => ?_⟩
    · rw [isAtomChar, Bool.and_assoc, Bool.and_eq_true, Bool.not_eq_true'] at hc
      exact hc.1
    · rintro rfl
      rw [paren.isAtomChar_char] at hc
      cases hc
  · rintro ⟨hblank, hparen⟩
    simp [isAtomChar, hblank, hparen .opening, hparen .closing]

/-- The terminal that a piece is; a blank is none. -/
def terminal? (piece : Piece) : Option Terminal :=
  (Token.Kind.ofPiece? piece).map (Token.Kind.terminal (String.ofList piece.chars))

end Piece

/-- **The terminals of a text.** -/
def terminals (cs : List Char) : List Terminal := (Piece.ofChars cs).filterMap Piece.terminal?

/-- Tokens without their places are read off the pieces one by one. -/
theorem Token.map_ofPieces {α : Type} (f : Token.Kind → String → α) (offset : Nat)
    (pieces : List Piece) :
    (Token.ofPieces offset pieces).map (fun token => f token.kind token.lexeme) =
      pieces.filterMap fun piece =>
        (Token.Kind.ofPiece? piece).map fun kind => f kind (String.ofList piece.chars) := by
  induction pieces generalizing offset with
  | nil => rfl
  | cons piece pieces ih =>
    rw [Token.ofPieces, List.filterMap_cons]
    cases Token.Kind.ofPiece? piece with
    | none => exact ih _
    | some kind => simp [ih]

/-- **The terminals of a text are those of its tokens.** -/
theorem Token.map_terminal_ofText (text : String) :
    (Token.ofText text).map Token.terminal = terminals text.toList :=
  Token.map_ofPieces (fun kind lexeme => kind.terminal lexeme) 0 _

/-! ### At the front of a text -/

@[simp] theorem terminals_nil : terminals [] = [] := rfl

theorem terminals_cons_paren (paren : Paren) (cs : List Char) :
    terminals (paren.char :: cs) = paren.terminal :: terminals cs := by
  rw [terminals, Piece.ofChars_cons, paren.prepend_char]
  cases paren <;> rfl

theorem terminals_cons_blank {c : Char} (hc : Text.isBlank c = true) (cs : List Char) :
    terminals (c :: cs) = terminals cs := by
  have hnone : (Piece.blank c).terminal? = none := rfl
  simp [terminals, Piece.prepend, hc, hnone]

/-- Blanks are no part of an atom. -/
theorem isAtomChar_of_isBlank {c : Char} (hc : Text.isBlank c = true) :
    Piece.isAtomChar c = false := by
  simp [Piece.isAtomChar, hc]

/-- The rest of a text behind an atom: nothing, or a blank or parenthesis first. -/
def EndsAtom (rest : List Char) : Prop := ∀ c ∈ rest.head?, Piece.isAtomChar c = false

theorem prepend_atomChar {c : Char} (hc : Piece.isAtomChar c = true) (pieces : List Piece) :
    Piece.prepend c pieces =
      match pieces with
      | .atom cs :: rest => .atom (c :: cs) :: rest
      | rest => .atom [c] :: rest := by
  simp only [Piece.isAtomChar, Bool.and_eq_true, Bool.not_eq_true', bne_iff_ne] at hc
  unfold Piece.prepend
  rw [hc.1.1, if_neg Bool.false_ne_true, if_neg hc.1.2]
  exact if_neg hc.2

/-- The pieces behind an atom do not begin with another. -/
theorem head?_ofChars_of_endsAtom {rest : List Char} (h : EndsAtom rest) (cs : List Char) :
    (Piece.ofChars rest).head? ≠ some (.atom cs) := by
  cases rest with
  | nil => simp
  | cons c rest =>
    have hc : Piece.isAtomChar c = false := h c rfl
    rw [Piece.ofChars_cons]
    unfold Piece.prepend
    split
    · simp
    · split
      · simp
      · split
        · simp
        · simp_all [Piece.isAtomChar]

/-- **An atom is one piece** where something else follows. -/
theorem ofChars_append_atom {cs rest : List Char} (hne : cs ≠ [])
    (hcs : ∀ c ∈ cs, Piece.isAtomChar c = true) (hrest : EndsAtom rest) :
    Piece.ofChars (cs ++ rest) = .atom cs :: Piece.ofChars rest := by
  induction cs with
  | nil => exact absurd rfl hne
  | cons c cs ih =>
    rw [List.cons_append, Piece.ofChars_cons, prepend_atomChar (hcs c List.mem_cons_self)]
    cases cs with
    | nil =>
      -- the last character of the atom begins it, because no atom follows
      have hhead := head?_ofChars_of_endsAtom hrest
      rw [List.nil_append]
      split
      · rename_i ds rest' heq
        exact absurd (by rw [heq]; rfl) (hhead ds)
      · rfl
    | cons c' cs =>
      rw [ih (by simp) fun d hd => hcs d (List.mem_cons_of_mem _ hd)]

/-- The terminal that an atom is. -/
def Terminal.ofAtom (cs : List Char) : Terminal :=
  (Token.Kind.ofAtom cs).terminal (String.ofList cs)

theorem terminals_append_atom {cs rest : List Char} (hne : cs ≠ [])
    (hcs : ∀ c ∈ cs, Piece.isAtomChar c = true) (hrest : EndsAtom rest) :
    terminals (cs ++ rest) = Terminal.ofAtom cs :: terminals rest := by
  rw [terminals, ofChars_append_atom hne hcs hrest]
  rfl

/-! ### What can be read -/

/-- The names that can be read: runs of atom characters that are no numbers. -/
def IsName (name : String) : Prop :=
  name.toList ≠ [] ∧ (∀ c ∈ name.toList, Piece.isAtomChar c = true) ∧
    Token.Kind.ofAtom name.toList = .symbol

instance : DecidablePred IsName := fun name =>
  haveI := List.decidableBAll (fun c => Piece.isAtomChar c = true) name.toList
  inferInstanceAs (Decidable (_ ∧ _ ∧ _))

/-- The terminals that can be read. -/
def Terminal.Readable : Terminal → Prop
  | .openParen => True
  | .closeParen => True
  | .number value => value.isFinite = true
  | .symbol name => IsName name

/-- Pieces as they are cut from a text: an atom is a run of atom characters. -/
def Piece.Proper : Piece → Prop
  | .atom cs => cs ≠ [] ∧ ∀ c ∈ cs, Piece.isAtomChar c = true
  | _ => True

theorem proper_of_mem_prepend {c : Char} {pieces : List Piece}
    (h : ∀ piece ∈ pieces, piece.Proper) : ∀ piece ∈ Piece.prepend c pieces, piece.Proper := by
  unfold Piece.prepend
  split
  · simpa [Piece.Proper] using h
  · rename_i hblank
    split
    · simpa [Piece.Proper] using h
    · rename_i hopen
      split
      · simpa [Piece.Proper] using h
      · rename_i hclose
        have hc : Piece.isAtomChar c = true := by
          simp [Piece.isAtomChar, hblank, hopen, hclose]
        split
        · rename_i cs rest
          -- the character joins the atom that follows it
          have hatom : (Piece.atom cs).Proper := h _ List.mem_cons_self
          refine List.forall_mem_cons.2 ⟨⟨by simp, ?_⟩, fun p hp => h p (List.mem_cons_of_mem _ hp)⟩
          exact List.forall_mem_cons.2 ⟨hc, hatom.2⟩
        · exact List.forall_mem_cons.2 ⟨⟨by simp, by simpa using hc⟩, h⟩

theorem proper_of_mem_ofChars (cs : List Char) : ∀ piece ∈ Piece.ofChars cs, piece.Proper := by
  induction cs with
  | nil => simp
  | cons c cs ih => exact proper_of_mem_prepend ih

/-- Number tokens are finite. -/
theorem isFinite_of_ofAtom {cs : List Char} {value : Float}
    (h : Token.Kind.ofAtom cs = .number value) : value.isFinite = true := by
  unfold Token.Kind.ofAtom at h
  split at h
  · split at h
    · rename_i hfinite
      cases h
      exact hfinite
    · cases h
  · cases h

/-- An atom is a number or a symbol. -/
theorem readable_ofAtom {cs : List Char} (hne : cs ≠ [])
    (hcs : ∀ c ∈ cs, Piece.isAtomChar c = true) : (Terminal.ofAtom cs).Readable := by
  unfold Terminal.ofAtom
  cases h : Token.Kind.ofAtom cs with
  | openParen => trivial
  | closeParen => trivial
  | number value => exact isFinite_of_ofAtom h
  | symbol =>
    have hlist : (String.ofList cs).toList = cs := String.toList_ofList
    simp only [Token.Kind.terminal, Terminal.Readable, IsName, hlist]
    exact ⟨hne, hcs, h⟩

/-- **Every terminal of a text is readable.** -/
theorem readable_of_mem_terminals {cs : List Char} {t : Terminal} (h : t ∈ terminals cs) :
    t.Readable := by
  obtain ⟨piece, hpiece, ht⟩ := List.mem_filterMap.1 h
  have hproper := proper_of_mem_ofChars cs piece hpiece
  cases piece with
  | blank c => cases ht
  | openParen => cases ht; trivial
  | closeParen => cases ht; trivial
  | atom cs =>
    cases ht
    exact readable_ofAtom hproper.1 hproper.2

end FormalCalculus
