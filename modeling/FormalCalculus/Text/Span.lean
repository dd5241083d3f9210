/-!
# Spans and locations in a text

A `Span` is a range of byte offsets into the UTF-8 encoding of a text. A `Location` is the same
place in a reader's terms: a line and a column, both counted from one. A line ends after a line
feed, and a line feed at the very end of the text begins no further line.
-/

namespace FormalCalculus.Text

/-- A range of byte offsets, the end excluded. -/
structure Span where
  /-- The offset of the first byte. -/
  start : Nat
  /-- The offset just after the last byte. -/
  stop : Nat
deriving DecidableEq, Repr

/-- The number of bytes that characters take in UTF-8. -/
def byteLength : List Char → Nat
  | [] => 0
  | c :: cs => c.utf8Size + byteLength cs

@[simp] theorem byteLength_nil : byteLength [] = 0 := rfl

@[simp] theorem byteLength_cons (c : Char) (cs : List Char) :
    byteLength (c :: cs) = c.utf8Size + byteLength cs := rfl

@[simp] theorem byteLength_append (cs ds : List Char) :
    byteLength (cs ++ ds) = byteLength cs + byteLength ds := by
  induction cs with
  | nil => rw [List.nil_append, byteLength_nil, Nat.zero_add]
  | cons c cs ih => rw [List.cons_append, byteLength_cons, ih, byteLength_cons, Nat.add_assoc]

/-- A line and a column, both counted from one. -/
structure Location where
  line : Nat
  column : Nat
deriving DecidableEq, Repr

/-- The location `offset` bytes behind `place`, in the text that follows it. -/
def Location.advance (place : Location) (offset : Nat) : List Char → Location
  | [] => place
  | c :: cs =>
    if offset = 0 then place
    else if c = '\n' ∧ cs ≠ [] then
      advance ⟨place.line + 1, 1⟩ (offset - c.utf8Size) cs
    else advance ⟨place.line, place.column + 1⟩ (offset - c.utf8Size) cs

/-- **The location of a byte offset** in a text. -/
def Location.ofOffset (text : String) (offset : Nat) : Location :=
  Location.advance ⟨1, 1⟩ offset text.toList

@[simp] theorem Location.ofOffset_zero (text : String) : Location.ofOffset text 0 = ⟨1, 1⟩ := by
  unfold Location.ofOffset Location.advance
  split <;> rfl

end FormalCalculus.Text
