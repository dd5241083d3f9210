import FormalCalculus.Differentiate
import FormalCalculus.Proofs.Parser.Unplaced
import FormalCalculus.Proofs.Token.LongestMatch
import Mathlib.Logic.Relation

/-!
# The layout of a text

What comes of a text depends on its lexemes, and on nothing else of it: not on where they stand, and
not on what keeps them apart.

* The kind of a token is said by its lexeme (`Token.kind_eq_ofLexeme`), so that apart from their
  spans the tokens of a text are its lexemes (`Token.map_unplaced_ofText`); and parsing takes no
  notice of spans (`Parser.parseAll_unplaced`). Behind the parser there are no spans.
* The lexemes of a text stay what they are if the blanks in a gap are replaced by others
  (`Respaced`), a gap being any place where no atom is cut in two or joined to another. The text
  falls apart there, and its lexemes with it (`lexemes_gap`).

Main statement: `differentiateText_depends_on_lexemes`.
-/

namespace FormalCalculus

open Text (Span isBlank)

/-! ### Lexemes say it all -/

namespace Token

/-- The kind of token that is written in this way. -/
def Kind.ofLexeme (lexeme : String) : Kind :=
  if lexeme = "(" then openParen else if lexeme = ")" then closeParen else ofAtom lexeme.toList

/-- **The kind of a token is that of its lexeme.** -/
theorem kind_eq_ofLexeme {text : String} {token : Token} (h : token ∈ ofText text) :
    token.kind = Kind.ofLexeme token.lexeme := by
  unfold Kind.ofLexeme
  obtain ⟨hkind, hlexeme⟩ | ⟨hkind, hlexeme⟩ | hatom := (partition_ofText text).kinds token h
  · rw [if_pos hlexeme, hkind]
  · rw [hlexeme, if_neg (by decide), if_pos rfl, hkind]
  · have hopen : token.lexeme ≠ "(" := fun h => hatom.no_openParen (by simp [h])
    have hclose : token.lexeme ≠ ")" := fun h => hatom.no_closeParen (by simp [h])
    rw [if_neg hopen, if_neg hclose, hatom.kind_eq]

/-- The token that is written in this way, wherever it stands. -/
def ofLexeme (lexeme : String) : Token := ⟨.ofLexeme lexeme, ⟨0, 0⟩, lexeme⟩

/-- **Apart from their spans, the tokens of a text are its lexemes.** -/
theorem map_unplaced_ofText (text : String) :
    (ofText text).map unplaced = ((ofText text).map lexeme).map ofLexeme := by
  rw [List.map_map]
  refine List.map_congr_left fun token htoken => ?_
  rw [unplaced, kind_eq_ofLexeme htoken]
  rfl

end Token

/-- A text is parsed alike if its lexemes are the same: as the same expression, or with an error
that differs in its spans only. -/
theorem Expr.ofText_congr {text text' : String} (limit : Nat)
    (h : (Token.ofText text).map Token.lexeme = (Token.ofText text').map Token.lexeme) :
    (ofText limit text).mapError Error.cause = (ofText limit text').mapError Error.cause := by
  have hparse : ∀ text, (ofText limit text).mapError Error.cause =
      (((Parser.ofText text).withMaxDepth limit).unplaced.parseAll.1).mapError Error.cause := by
    intro text
    rw [Parser.parseAll_unplaced, ofText]
    cases ((Parser.ofText text).withMaxDepth limit).parseAll.1 <;> rfl
  have hunplaced : ((Parser.ofText text).withMaxDepth limit).unplaced =
      ((Parser.ofText text').withMaxDepth limit).unplaced := by
    simp only [Parser.unplaced, Parser.withMaxDepth, Parser.ofText, Token.map_unplaced_ofText, h]
  rw [hparse, hparse, hunplaced]

/-- **The same lexemes have the same outcome.** -/
theorem differentiateText_congr (arith : Arithmetic) (options : Options) {text text' : String}
    (h : (Token.ofText text).map Token.lexeme = (Token.ofText text').map Token.lexeme) :
    (differentiateText arith options text).mapError Error.cause =
      (differentiateText arith options text').mapError Error.cause := by
  have hparse := Expr.ofText_congr options.maxDepth h
  unfold differentiateText differentiate
  cases he : Expr.ofText options.maxDepth text with
  | error error =>
    cases he' : Expr.ofText options.maxDepth text' with
    | error error' =>
      rw [he, he'] at hparse
      exact congrArg Except.error (Except.error.inj hparse)
    | ok e' =>
      rw [he, he'] at hparse
      cases hparse
  | ok e =>
    cases he' : Expr.ofText options.maxDepth text' with
    | error error' =>
      rw [he, he'] at hparse
      cases hparse
    | ok e' =>
      rw [he, he'] at hparse
      -- from here on, the texts are no longer there
      cases hparse
      rfl

/-! ### Gaps -/

namespace Piece

/-- How a piece is written; a blank is not taken note of. -/
def lexeme? (piece : Piece) : Option String :=
  (Token.Kind.ofPiece? piece).map fun _ => String.ofList piece.chars

end Piece

/-- **The lexemes of a text.** -/
def lexemes (cs : List Char) : List String := (Piece.ofChars cs).filterMap Piece.lexeme?

theorem Token.map_lexeme_ofText (text : String) :
    (Token.ofText text).map Token.lexeme = lexemes text.toList :=
  Token.map_ofPieces (fun _ lexeme => lexeme) 0 _

/-- A place is **inside of an atom** if atom characters stand on both sides of it. -/
def InsideAtom (before after : List Char) : Prop :=
  (∃ c ∈ before.getLast?, Piece.isAtomChar c = true) ∧ ∃ c ∈ after.head?, Piece.isAtomChar c = true

theorem prepend_append (c : Char) {pieces : List Piece} (hne : pieces ≠ []) (later : List Piece) :
    Piece.prepend c (pieces ++ later) = Piece.prepend c pieces ++ later := by
  obtain ⟨piece, pieces, rfl⟩ := List.exists_cons_of_ne_nil hne
  unfold Piece.prepend
  split
  · rfl
  · split
    · rfl
    · split
      · rfl
      · cases piece <;> rfl

theorem ofChars_ne_nil {cs : List Char} (h : cs ≠ []) : Piece.ofChars cs ≠ [] := by
  intro hnil
  have hchars := Piece.flatMap_chars_ofChars cs
  rw [hnil] at hchars
  exact h hchars.symm

/-- **A text falls apart** at a place that is not inside of an atom. -/
theorem ofChars_append {before after : List Char} (h : ¬ InsideAtom before after) :
    Piece.ofChars (before ++ after) = Piece.ofChars before ++ Piece.ofChars after := by
  induction before with
  | nil => rfl
  | cons c before ih =>
    rw [List.cons_append, Piece.ofChars_cons, Piece.ofChars_cons]
    cases before with
    | cons d before =>
      rw [ih (by rwa [InsideAtom, List.getLast?_cons_cons] at h),
        prepend_append c (ofChars_ne_nil (List.cons_ne_nil d before))]
    | nil =>
      cases hc : Piece.isAtomChar c with
      | true =>
        -- what follows does not begin with an atom that the character could join
        have hends : EndsAtom after := by
          intro d hd
          rw [← Bool.not_eq_true]
          exact fun hatom => h ⟨⟨c, rfl, hc⟩, d, hd, hatom⟩
        have hhead := head?_ofChars_of_endsAtom hends
        rw [List.nil_append, prepend_atomChar hc, prepend_atomChar hc, Piece.ofChars_nil]
        split
        · rename_i ds rest heq
          exact absurd (by rw [heq]; rfl) (hhead ds)
        · rfl
      | false =>
        -- a blank or a parenthesis is a piece by itself
        unfold Piece.prepend
        split
        · rfl
        · split
          · rfl
          · split
            · rfl
            · simp_all [Piece.isAtomChar]

/-! ### Respacing -/

/-- **Other blanks in a gap.** The blanks between two parts of a text are replaced by others. There
may be none before or after, unless the place is inside of an atom. -/
inductive Respaced : String → String → Prop
  | gap (before after blanks blanks' : String) (hblanks : ∀ c ∈ blanks.toList, isBlank c = true)
      (hblanks' : ∀ c ∈ blanks'.toList, isBlank c = true)
      (hkeep : blanks = "" ∨ blanks' = "" → ¬ InsideAtom before.toList after.toList) :
      Respaced (before ++ blanks ++ after) (before ++ blanks' ++ after)

theorem lexemes_append {before after : List Char} (h : ¬ InsideAtom before after) :
    lexemes (before ++ after) = lexemes before ++ lexemes after := by
  rw [lexemes, ofChars_append h, List.filterMap_append]
  rfl

theorem lexemes_blanks {cs : List Char} (hcs : ∀ c ∈ cs, isBlank c = true) : lexemes cs = [] := by
  induction cs with
  | nil => rfl
  | cons c cs ih =>
    obtain ⟨hc, hcs⟩ := List.forall_mem_cons.1 hcs
    have hnone : (Piece.blank c).lexeme? = none := rfl
    have hskip : lexemes (c :: cs) = lexemes cs := by simp [lexemes, Piece.prepend, hc, hnone]
    rw [hskip, ih hcs]

/-- **A gap** adds nothing to the lexemes before and after it. -/
theorem lexemes_gap {before blanks after : List Char} (hblanks : ∀ c ∈ blanks, isBlank c = true)
    (hkeep : blanks = [] → ¬ InsideAtom before after) :
    lexemes (before ++ blanks ++ after) = lexemes before ++ lexemes after := by
  cases blanks with
  | nil => rw [List.append_nil, lexemes_append (hkeep rfl)]
  | cons c blanks =>
    -- the text falls apart on both sides of the blanks
    have hleft : ¬ InsideAtom before (c :: blanks) := by
      rintro ⟨-, d, hd, hatom⟩
      obtain rfl := Option.some.inj hd
      rw [isAtomChar_of_isBlank (hblanks c List.mem_cons_self)] at hatom
      cases hatom
    have hright : ¬ InsideAtom (before ++ c :: blanks) after := by
      rintro ⟨⟨d, hd, hatom⟩, -⟩
      rw [List.getLast?_append_of_ne_nil _ (List.cons_ne_nil c blanks)] at hd
      rw [isAtomChar_of_isBlank (hblanks d (List.mem_of_getLast? hd))] at hatom
      cases hatom
    rw [lexemes_append hright, lexemes_append hleft, lexemes_blanks hblanks, List.append_nil]

theorem Respaced.lexemes_eq {text text' : String} (h : Respaced text text') :
    (Token.ofText text).map Token.lexeme = (Token.ofText text').map Token.lexeme := by
  cases h with
  | gap before after blanks blanks' hblanks hblanks' hkeep =>
    simp only [Token.map_lexeme_ofText, String.toList_append]
    rw [lexemes_gap hblanks fun h => hkeep (Or.inl (by simpa using h)),
      lexemes_gap hblanks' fun h => hkeep (Or.inr (by simpa using h))]

/-- **The outcome depends on the lexemes only.** Texts of the same lexemes have the same outcome:
the same derivative in print, or an error of the same cause. In particular blanks can be changed,
added and removed wherever no atom is cut in two or joined to another. -/
theorem differentiateText_depends_on_lexemes (arith : Arithmetic) (options : Options) :
    (∀ text text',
      (Token.ofText text).map Token.lexeme = (Token.ofText text').map Token.lexeme →
        (differentiateText arith options text).mapError Error.cause =
          (differentiateText arith options text').mapError Error.cause) ∧
    ∀ text text', Relation.ReflTransGen Respaced text text' →
      (differentiateText arith options text).mapError Error.cause =
        (differentiateText arith options text').mapError Error.cause := by
  refine ⟨fun text text' h => differentiateText_congr arith options h, fun text text' h => ?_⟩
  induction h with
  | refl => rfl
  | tail _ hstep ih => rw [ih, differentiateText_congr arith options hstep.lexemes_eq]

/-- Texts of the same lexemes, and a list that is not closed, however it is spaced; the parenthesis
is found elsewhere. -/
theorem differentiateText_depends_on_lexemes_of_unclosed :
    let sine := "(sin x)"
    let sine' := "( sin\n x )"
    let text := "(+ x"
    let text' := " (+\u00A0x"
    ((Token.ofText sine).map Token.lexeme = (Token.ofText sine').map Token.lexeme ∧
      (differentiateText .platform {} sine).mapError Error.cause =
        (differentiateText .platform {} sine').mapError Error.cause) ∧
    differentiateText .platform {} text = .error ⟨.unclosedParenthesis true, [⟨0, 1⟩]⟩ ∧
      differentiateText .platform {} text' = .error ⟨.unclosedParenthesis true, [⟨1, 2⟩]⟩ ∧
      Relation.ReflTransGen Respaced text text' ∧
      (differentiateText .platform {} text).mapError Error.cause =
        (differentiateText .platform {} text').mapError Error.cause := by
  intro sine sine' text text'
  have hlexemes : (Token.ofText sine).map Token.lexeme = (Token.ofText sine').map Token.lexeme := by
    decide +kernel
  have hblank : ∀ blanks : String, blanks.toList.all isBlank = true →
      ∀ c ∈ blanks.toList, isBlank c = true := fun _ h => List.all_eq_true.1 h
  have hfront : Respaced text " (+ x" :=
    .gap "" "(+ x" "" " " (hblank _ rfl) (hblank _ rfl) fun _ h => by simp [InsideAtom] at h
  have hgap : Respaced " (+ x" text' :=
    .gap " (+" "x" " " "\u00A0" (hblank _ rfl) (hblank _ rfl) fun h => by simp at h
  have hrespaced : Relation.ReflTransGen Respaced text text' := .tail (.single hfront) hgap
  exact ⟨⟨hlexemes, (differentiateText_depends_on_lexemes .platform {}).1 _ _ hlexemes⟩,
    by decide +kernel, by decide +kernel, hrespaced,
    (differentiateText_depends_on_lexemes .platform {}).2 _ _ hrespaced⟩

end FormalCalculus
