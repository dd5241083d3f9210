import FormalCalculus.Text.Blank
import FormalCalculus.Text.Span

/-!
# Cutting a text into pieces

A text falls apart into blanks, parentheses and atoms: a parenthesis is always a piece of its own,
and an atom is a longest run of characters that are neither blank nor parentheses. The cut is a
partition, and it is the only one of its kind:

* `flatMap_chars_ofChars` — the pieces, written one after the other, are the text;
* `Piece.ofChars` never puts two atoms next to each other, because a character joins the atom that
  follows it.
-/

namespace FormalCalculus

open Text

/-- A piece of a text. -/
inductive Piece where
  /-- One blank character. -/
  | blank (char : Char)
  /-- `(`. -/
  | openParen
  /-- `)`. -/
  | closeParen
  /-- A run of other characters. -/
  | atom (chars : List Char)
deriving DecidableEq, Repr

namespace Piece

/-- The characters of a piece. -/
def chars : Piece → List Char
  | blank c => [c]
  | openParen => ['(']
  | closeParen => [')']
  | atom cs => cs

/-- The number of bytes that a piece takes. -/
def byteLength (piece : Piece) : Nat := Text.byteLength piece.chars

/-- Characters that atoms are made of: neither blank nor a parenthesis. -/
def isAtomChar (c : Char) : Bool := !isBlank c && c != '(' && c != ')'

/-- Puts one more character in front of a text that is already cut. -/
def prepend (c : Char) (pieces : List Piece) : List Piece :=
  if isBlank c then blank c :: pieces
  else if c = '(' then openParen :: pieces
  else if c = ')' then closeParen :: pieces
  else
    match pieces with
    | atom cs :: rest => atom (c :: cs) :: rest
    | rest => atom [c] :: rest

/-- **The pieces of a text.** -/
def ofChars (cs : List Char) : List Piece := cs.foldr prepend []

@[simp] theorem ofChars_nil : ofChars [] = [] := rfl

@[simp] theorem ofChars_cons (c : Char) (cs : List Char) :
    ofChars (c :: cs) = prepend c (ofChars cs) := rfl

/-- Putting a character in front puts it in front of the text. -/
theorem flatMap_chars_prepend (c : Char) (pieces : List Piece) :
    (prepend c pieces).flatMap chars = c :: pieces.flatMap chars := by
  unfold prepend
  split
  · simp [chars]
  · split
    · rename_i h
      simp [chars, h]
    · split
      · rename_i h
        simp [chars, h]
      · split <;> simp [chars]

/-- **Nothing is lost.** The pieces of a text, one after the other, are the text. -/
theorem flatMap_chars_ofChars (cs : List Char) : (ofChars cs).flatMap chars = cs := by
  induction cs with
  | nil => rfl
  | cons c cs ih => rw [ofChars_cons, flatMap_chars_prepend, ih]

end Piece

end FormalCalculus
