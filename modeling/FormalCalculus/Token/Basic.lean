import FormalCalculus.Numeral.Reader
import FormalCalculus.Token.Piece

/-!
# Tokens

The pieces of a text that are not blank, each with the span of bytes it takes. An atom that reads
as a **finite** number is a number token; every other atom is a symbol, also one such as `1e999`
or `inf` that names a value but no finite one. Every text has tokens: nothing is refused here.
-/

namespace FormalCalculus

open Text

namespace Token

/-- The kinds of tokens. -/
inductive Kind where
  | openParen
  | closeParen
  | number (value : Float)
  | symbol
deriving DecidableEq, Repr

/-- **Numbers and symbols.** An atom is a number if it reads as a finite one. -/
def Kind.ofAtom (cs : List Char) : Kind :=
  match Numeral.read? cs with
  | some value => if value.isFinite then number value else symbol
  | none => symbol

/-- The kind of token that a piece is; a blank is none. -/
def Kind.ofPiece? : Piece → Option Kind
  | .blank _ => none
  | .openParen => some openParen
  | .closeParen => some closeParen
  | .atom cs => some (ofAtom cs)

end Token

/-- A token: what it is, where it stands, and how it is written. -/
structure Token where
  kind : Token.Kind
  span : Span
  lexeme : String
deriving DecidableEq, Repr

namespace Token

/-- The tokens among pieces of which the first stands at a given offset. -/
def ofPieces : Nat → List Piece → List Token
  | _, [] => []
  | offset, piece :: pieces =>
    let stop := offset + piece.byteLength
    match Kind.ofPiece? piece with
    | none => ofPieces stop pieces
    | some kind => ⟨kind, ⟨offset, stop⟩, String.ofList piece.chars⟩ :: ofPieces stop pieces

/-- **The tokens of a text**, in order. -/
def ofText (text : String) : List Token := ofPieces 0 (Piece.ofChars text.toList)

end Token

end FormalCalculus
