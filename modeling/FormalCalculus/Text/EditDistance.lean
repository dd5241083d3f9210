/-!
# Edit distance

The least number of insertions, deletions and substitutions of single characters that turn one
word into another. The distances of *all suffixes* of a pattern to a text form a row; taking one
more character in front of the text turns a row into the next, so the distance of the whole pattern
is the head of the last row.
-/

namespace FormalCalculus.Text

/-- The row of a text with `c` put in front, from the row of the text: each suffix of the pattern
either matches `c` with its first character, or spends one edit on it. -/
def prependRow (c : Char) : List Char → List Nat → List Nat
  | a :: pattern, d :: ds =>
    let row := prependRow c pattern ds
    let distance :=
      if a = c then ds.headD 0 else 1 + min d (min (row.headD 0) (ds.headD 0))
    distance :: row
  | _, ds => ds.map (· + 1)

/-- The distances of the suffixes of a pattern, longest first, to the empty text. -/
def emptyRow : List Char → List Nat
  | [] => [0]
  | a :: pattern => (a :: pattern).length :: emptyRow pattern

/-- The distances of the suffixes of a pattern, longest first, to a text. -/
def distanceRow (pattern text : List Char) : List Nat :=
  text.foldr (fun c row => prependRow c pattern row) (emptyRow pattern)

/-- **Edit distance**, counted in characters. -/
def editDistance (pattern text : List Char) : Nat := (distanceRow pattern text).headD 0

end FormalCalculus.Text
