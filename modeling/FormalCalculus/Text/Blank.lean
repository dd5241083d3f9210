/-!
# Blank characters

The characters that separate atoms: the control characters from tab to carriage return, the space,
the next-line control, and the Unicode separators — no-break, ogham, the typographic spaces, line
and paragraph separator, narrow no-break, mathematical and ideographic space. Zero-width characters
and the information separators `U+001C` to `U+001F` are not blank.
-/

namespace FormalCalculus.Text

/-- The blank characters, as inclusive ranges of code points in ascending order. -/
def blankRanges : List (Nat × Nat) :=
  [(0x09, 0x0D), (0x20, 0x20), (0x85, 0x85), (0xA0, 0xA0), (0x1680, 0x1680), (0x2000, 0x200A),
    (0x2028, 0x2029), (0x202F, 0x202F), (0x205F, 0x205F), (0x3000, 0x3000)]

/-- **Blank characters** separate atoms and are otherwise ignored. -/
def isBlank (c : Char) : Bool :=
  blankRanges.any fun range => range.1 ≤ c.toNat && c.toNat ≤ range.2

end FormalCalculus.Text
