import FormalCalculus.Proofs.Token.Terminal
import Mathlib.Data.List.Chain

/-!
# Tokens partition a text

What the tokens of a text are can be said without cutting it up: each token is written as the bytes
of its span say, the spans are in order and cover exactly the characters that are not blank, every
parenthesis is a token by itself, and two atoms have a blank between them (`Token.Partition`).

No other tokens have these properties (`Token.Partition.eq_ofChars`). This is seen from the front of
the text. A blank belongs to no token. Any other character begins the first token, and what follows
this token is partitioned by the others (`Token.Partition.exists_cons`); so the first token is a
parenthesis, or an atom that ends where something other than an atom begins.

Texts are taken as their characters, together with the offset at which the first of them stands, so
that what follows a token is a text again.
-/

namespace FormalCalculus

open Text (Span byteLength isBlank)

namespace Text

variable {offset : Nat} {front rest cs : List Char} {span : Span}

/-! ### Slices -/

/-- **The characters `cs` take this span** of a text that begins at byte `offset`. -/
def Slice (offset : Nat) (text : List Char) (span : Span) (cs : List Char) : Prop :=
  ∃ before after, text = before ++ cs ++ after ∧
    span = ⟨offset + byteLength before, offset + byteLength before + byteLength cs⟩

/-- The character that begins at byte `i` of a text. -/
def CharAt (offset : Nat) (text : List Char) (i : Nat) (c : Char) : Prop :=
  Slice offset text ⟨i, i + c.utf8Size⟩ [c]

theorem byteLength_eq_zero : byteLength cs = 0 ↔ cs = [] := by
  cases cs with
  | nil => simp
  | cons c cs =>
    have := c.utf8Size_pos
    simp only [byteLength_cons, reduceCtorEq, iff_false]
    omega

theorem byteLength_pos : 0 < byteLength cs ↔ cs ≠ [] := by
  rw [Nat.pos_iff_ne_zero, ne_eq, byteLength_eq_zero]

namespace Slice

theorem stop_eq (h : Slice offset rest span cs) : span.stop = span.start + byteLength cs := by
  obtain ⟨before, after, -, rfl⟩ := h
  rfl

theorem offset_le (h : Slice offset rest span cs) : offset ≤ span.start := by
  obtain ⟨before, after, -, rfl⟩ := h
  exact Nat.le_add_right _ _

theorem stop_le (h : Slice offset rest span cs) : span.stop ≤ offset + byteLength rest := by
  obtain ⟨before, after, rfl, rfl⟩ := h
  simp only [byteLength_append]
  omega

theorem start_lt_stop (h : Slice offset rest span cs) (hcs : cs ≠ []) : span.start < span.stop := by
  have := byteLength_pos.2 hcs
  rw [h.stop_eq]
  omega

/-- A slice of what follows is one of the whole. -/
theorem append_left (front : List Char) (h : Slice (offset + byteLength front) rest span cs) :
    Slice offset (front ++ rest) span cs := by
  obtain ⟨before, after, rfl, rfl⟩ := h
  refine ⟨front ++ before, after, by simp, ?_⟩
  rw [byteLength_append, ← Nat.add_assoc]

/-- A slice of the front is one of the whole. -/
theorem append_right (h : Slice offset front span cs) (rest : List Char) :
    Slice offset (front ++ rest) span cs := by
  obtain ⟨before, after, rfl, rfl⟩ := h
  exact ⟨before, after ++ rest, by simp, rfl⟩

/-- **A slice that begins behind the front** is one of what follows. -/
theorem of_append_left (h : Slice offset (front ++ rest) span cs)
    (hstart : offset + byteLength front ≤ span.start) :
    Slice (offset + byteLength front) rest span cs := by
  obtain ⟨before, after, htext, rfl⟩ := h
  have hlength : byteLength front ≤ byteLength before := Nat.le_of_add_le_add_left hstart
  rw [List.append_assoc] at htext
  -- what stands before the slice is at least as long as the front, and so begins with it
  obtain ⟨before', rfl, hrest⟩ | ⟨front', rfl, hafter⟩ := List.append_eq_append_iff.1 htext
  · refine ⟨before', after, by rw [hrest, List.append_assoc], ?_⟩
    rw [byteLength_append, ← Nat.add_assoc]
  · rw [byteLength_append] at hlength
    obtain rfl : front' = [] := byteLength_eq_zero.1 (by omega)
    refine ⟨[], after, by simpa using hafter.symm, ?_⟩
    simp

/-- The slice at the very front. -/
theorem refl (offset : Nat) (cs rest : List Char) :
    Slice offset (cs ++ rest) ⟨offset, offset + byteLength cs⟩ cs :=
  ⟨[], rest, by simp, by simp⟩

/-- A slice that begins at the very front is the front. -/
theorem eq_append (h : Slice offset rest span cs) (hstart : span.start = offset) :
    ∃ after, rest = cs ++ after := by
  obtain ⟨before, after, rfl, rfl⟩ := h
  obtain rfl : before = [] := byteLength_eq_zero.1 (by simpa using hstart)
  exact ⟨after, rfl⟩

/-- A slice begins with the first character of the text, or behind it. -/
theorem mem_or_start_le {c : Char} (h : Slice offset (c :: rest) span cs) (hcs : cs ≠ []) :
    c ∈ cs ∨ offset + c.utf8Size ≤ span.start := by
  obtain ⟨before, after, htext, rfl⟩ := h
  cases before with
  | nil =>
    obtain ⟨d, cs, rfl⟩ := List.exists_cons_of_ne_nil hcs
    obtain ⟨rfl, -⟩ := List.cons.inj htext
    exact Or.inl List.mem_cons_self
  | cons d before =>
    obtain ⟨rfl, -⟩ := List.cons.inj htext
    refine Or.inr ?_
    rw [byteLength_cons, ← Nat.add_assoc]
    exact Nat.le_add_right _ _

/-- The characters of a slice, each at its own place in the text. -/
theorem charAt {c : Char} {ds es : List Char} (h : Slice offset rest span (ds ++ c :: es)) :
    CharAt offset rest (span.start + byteLength ds) c := by
  obtain ⟨before, after, rfl, rfl⟩ := h
  refine ⟨before ++ ds, es ++ after, by simp, ?_⟩
  simp [Nat.add_assoc]

end Slice

theorem charAt_cons (offset : Nat) (c : Char) (cs : List Char) :
    CharAt offset (c :: cs) offset c := by
  simpa [CharAt] using Slice.refl offset [c] cs

theorem CharAt.mem {i : Nat} {c : Char} (h : CharAt offset cs i c) : c ∈ cs := by
  obtain ⟨before, after, rfl, -⟩ := h
  simp

/-- A text of one character has it at its beginning. -/
theorem CharAt.eq_of_singleton {i : Nat} {c d : Char} (h : CharAt offset [d] i c) :
    i = offset ∧ c = d := by
  obtain rfl : c = d := by simpa using h.mem
  have hstop : i + c.utf8Size ≤ offset + byteLength [c] := h.stop_le
  rw [byteLength_cons, byteLength_nil] at hstop
  exact ⟨Nat.le_antisymm (by omega) h.offset_le, rfl⟩

/-- A character stands in the front of a text, or behind it. -/
theorem CharAt.append_cases {i : Nat} {c : Char} (h : CharAt offset (front ++ rest) i c) :
    CharAt offset front i c ∨ CharAt (offset + byteLength front) rest i c := by
  obtain hlt | hle := Nat.lt_or_ge i (offset + byteLength front)
  · -- the front is longer than what stands before the character, and so has it as the next one
    obtain ⟨before, after, htext, hspan⟩ := h
    obtain ⟨rfl, -⟩ := Span.mk.inj hspan
    have hlength : byteLength before < byteLength front := Nat.lt_of_add_lt_add_left hlt
    rw [List.append_assoc, List.singleton_append] at htext
    obtain ⟨before', rfl, -⟩ | ⟨front', rfl, hafter⟩ := List.append_eq_append_iff.1 htext
    · rw [byteLength_append] at hlength
      omega
    · cases front' with
      | nil => simp at hlength
      | cons d front' =>
        obtain ⟨rfl, -⟩ := List.cons.inj hafter
        exact Or.inl ⟨before, front', by simp, hspan⟩
  · exact Or.inr (h.of_append_left hle)

end Text

open Text (Slice CharAt)

namespace Token

/-! ### The tokens of a text, from the front -/

/-- The tokens of a text that begins at byte `offset`. -/
def ofChars (offset : Nat) (cs : List Char) : List Token := ofPieces offset (Piece.ofChars cs)

@[simp] theorem ofChars_nil (offset : Nat) : ofChars offset [] = [] := rfl

theorem ofChars_cons_blank {c : Char} (hc : isBlank c = true) (offset : Nat) (cs : List Char) :
    ofChars offset (c :: cs) = ofChars (offset + c.utf8Size) cs := by
  simp [ofChars, Piece.prepend, hc, ofPieces, Kind.ofPiece?, Piece.byteLength, Piece.chars]

theorem ofChars_cons_paren (paren : Paren) (offset : Nat) (cs : List Char) :
    ofChars offset (paren.char :: cs) =
      ⟨paren.kind, ⟨offset, offset + byteLength [paren.char]⟩, String.ofList [paren.char]⟩ ::
        ofChars (offset + byteLength [paren.char]) cs := by
  rw [ofChars, Piece.ofChars_cons, paren.prepend_char]
  cases paren <;> rfl

theorem ofChars_append_of_atom {cs rest : List Char} (hne : cs ≠ [])
    (hcs : ∀ c ∈ cs, Piece.isAtomChar c = true) (hrest : EndsAtom rest) (offset : Nat) :
    ofChars offset (cs ++ rest) =
      ⟨Kind.ofAtom cs, ⟨offset, offset + byteLength cs⟩, String.ofList cs⟩ ::
        ofChars (offset + byteLength cs) rest := by
  rw [ofChars, ofChars_append_atom hne hcs hrest]
  rfl

/-! ### Partitions -/

/-- Atoms: tokens that hold no parenthesis and are numbers or symbols as they are written. -/
structure IsAtom (token : Token) : Prop where
  kind_eq : token.kind = Kind.ofAtom token.lexeme.toList
  no_openParen : '(' ∉ token.lexeme.toList
  no_closeParen : ')' ∉ token.lexeme.toList

theorem IsAtom.char_notMem {token : Token} (h : token.IsAtom) (paren : Paren) :
    paren.char ∉ token.lexeme.toList := by
  cases paren with
  | opening => exact h.no_openParen
  | closing => exact h.no_closeParen

/-- **The tokens partition the text** `cs` that begins at byte `offset`. -/
structure Partition (offset : Nat) (cs : List Char) (tokens : List Token) : Prop where
  /-- A token is written as the bytes of its span say. -/
  slice : ∀ t ∈ tokens, Slice offset cs t.span t.lexeme.toList
  /-- No token is empty. -/
  nonempty : ∀ t ∈ tokens, t.lexeme.toList ≠ []
  /-- A token ends before all later ones begin. -/
  ordered : tokens.Pairwise fun s t => s.span.stop ≤ t.span.start
  /-- The characters inside of tokens are those that are not blank. -/
  covers : ∀ i c, CharAt offset cs i c →
    ((∃ t ∈ tokens, t.span.start ≤ i ∧ i < t.span.stop) ↔ isBlank c = false)
  /-- Every opening parenthesis is a token by itself. -/
  openParen : ∀ i, CharAt offset cs i '(' → ⟨.openParen, ⟨i, i + 1⟩, "("⟩ ∈ tokens
  /-- Every closing parenthesis is a token by itself. -/
  closeParen : ∀ i, CharAt offset cs i ')' → ⟨.closeParen, ⟨i, i + 1⟩, ")"⟩ ∈ tokens
  /-- The other tokens are atoms. -/
  kinds : ∀ t ∈ tokens, (t.kind = .openParen ∧ t.lexeme = "(") ∨
    (t.kind = .closeParen ∧ t.lexeme = ")") ∨ t.IsAtom
  /-- There is a blank between an atom and the next token, if that is an atom. -/
  maximal : tokens.IsChain fun s t => s.IsAtom → t.IsAtom →
    ∃ i c, CharAt offset cs i c ∧ isBlank c = true ∧ s.span.stop ≤ i ∧ i < t.span.start

namespace Partition

variable {offset : Nat} {front cs rest : List Char} {tokens earlier later : List Token}

/-- Every parenthesis is a token by itself. -/
theorem paren_mem (h : Partition offset cs tokens) (paren : Paren) (i : Nat)
    (hc : CharAt offset cs i paren.char) :
    ⟨paren.kind, ⟨i, i + 1⟩, String.ofList [paren.char]⟩ ∈ tokens := by
  cases paren with
  | opening => exact h.openParen i hc
  | closing => exact h.closeParen i hc

/-- Every token is a parenthesis or an atom. -/
theorem paren_or_isAtom (h : Partition offset cs tokens) {t : Token} (ht : t ∈ tokens) :
    (∃ paren : Paren, t.kind = paren.kind ∧ t.lexeme = String.ofList [paren.char]) ∨ t.IsAtom := by
  obtain ⟨hkind, hlexeme⟩ | ⟨hkind, hlexeme⟩ | hatom := h.kinds t ht
  · exact Or.inl ⟨.opening, hkind, hlexeme⟩
  · exact Or.inl ⟨.closing, hkind, hlexeme⟩
  · exact Or.inr hatom

theorem start_lt_stop (h : Partition offset cs tokens) {t : Token} (ht : t ∈ tokens) :
    t.span.start < t.span.stop :=
  (h.slice t ht).start_lt_stop (h.nonempty t ht)

/-- Tokens that reach beyond a place are not among those that end before it. -/
theorem mem_of_stop_lt {place : Nat}
    (hearlier : ∀ t ∈ earlier, t.span.stop ≤ place) {t : Token} (ht : t ∈ earlier ++ later)
    (hstop : place < t.span.stop) : t ∈ later :=
  (List.mem_append.1 ht).resolve_left fun h => absurd (hearlier t h) (Nat.not_le.2 hstop)

/-- A parenthesis behind the front of a text is among the tokens that do not end before it. -/
theorem paren_mem_of_append (h : Partition offset (front ++ rest) (earlier ++ later))
    (hearlier : ∀ t ∈ earlier, t.span.stop ≤ offset + byteLength front) (paren : Paren) (i : Nat)
    (hc : CharAt (offset + byteLength front) rest i paren.char) :
    ⟨paren.kind, ⟨i, i + 1⟩, String.ofList [paren.char]⟩ ∈ later :=
  mem_of_stop_lt hearlier (h.paren_mem paren i (hc.append_left front))
    (Nat.lt_succ_of_le hc.offset_le)

/-- **The rest of a partition** partitions the rest of the text: here the tokens that begin behind
the front of it, all others ending before. -/
theorem of_append (front : List Char) (earlier : List Token)
    (h : Partition offset (front ++ rest) (earlier ++ later))
    (hearlier : ∀ t ∈ earlier, t.span.stop ≤ offset + byteLength front)
    (hlater : ∀ t ∈ later, offset + byteLength front ≤ t.span.start) :
    Partition (offset + byteLength front) rest later where
  slice t ht := (h.slice t (List.mem_append_right _ ht)).of_append_left (hlater t ht)
  nonempty t ht := h.nonempty t (List.mem_append_right _ ht)
  ordered := (List.pairwise_append.1 h.ordered).2.1
  covers i c hc := by
    have hoffset : offset + byteLength front ≤ i := hc.offset_le
    rw [← h.covers i c (hc.append_left front)]
    constructor
    · rintro ⟨t, ht, hin⟩
      exact ⟨t, List.mem_append_right _ ht, hin⟩
    · rintro ⟨t, ht, hin⟩
      exact ⟨t, mem_of_stop_lt hearlier ht (Nat.lt_of_le_of_lt hoffset hin.2), hin⟩
  openParen := h.paren_mem_of_append hearlier .opening
  closeParen := h.paren_mem_of_append hearlier .closing
  kinds t ht := h.kinds t (List.mem_append_right _ ht)
  maximal := by
    refine (List.IsChain.right_of_append h.maximal).imp_of_mem_imp fun s t hs _ hst hsa hta => ?_
    -- the blank stands behind a later token, and so behind the front
    obtain ⟨i, c, hc, hblank, hstop, hstart⟩ := hst hsa hta
    have hoffset := hlater s hs
    have hlt := h.start_lt_stop (List.mem_append_right _ hs)
    exact ⟨i, c, hc.of_append_left (Nat.le_trans (by omega) hstop), hblank, hstop, hstart⟩

/-- **Partitions of two parts** of a text are one of the whole, if there is a blank between two
atoms that come next to each other. -/
theorem append (h : Partition offset front earlier)
    (hrest : Partition (offset + byteLength front) rest later)
    (hblank : ∀ s ∈ earlier.getLast?, ∀ t ∈ later.head?, s.IsAtom → t.IsAtom →
      ∃ i c, CharAt (offset + byteLength front) rest i c ∧ isBlank c = true ∧ i < t.span.start) :
    Partition offset (front ++ rest) (earlier ++ later) := by
  have hearly : ∀ t ∈ earlier, t.span.stop ≤ offset + byteLength front :=
    fun t ht => (h.slice t ht).stop_le
  have hlate : ∀ t ∈ later, offset + byteLength front ≤ t.span.start :=
    fun t ht => (hrest.slice t ht).offset_le
  have hparens : ∀ (paren : Paren) (i : Nat), CharAt offset (front ++ rest) i paren.char →
      ⟨paren.kind, ⟨i, i + 1⟩, String.ofList [paren.char]⟩ ∈ earlier ++ later := by
    intro paren i hc
    rw [List.mem_append]
    exact hc.append_cases.imp (h.paren_mem paren i) (hrest.paren_mem paren i)
  refine ⟨List.forall_mem_append.2 ⟨fun t ht => (h.slice t ht).append_right rest,
    fun t ht => (hrest.slice t ht).append_left front⟩,
    List.forall_mem_append.2 ⟨h.nonempty, hrest.nonempty⟩,
    List.pairwise_append.2 ⟨h.ordered, hrest.ordered,
      fun s hs t ht => Nat.le_trans (hearly s hs) (hlate t ht)⟩, ?covers, hparens .opening,
    hparens .closing, List.forall_mem_append.2 ⟨h.kinds, hrest.kinds⟩, ?maximal⟩
  case covers =>
    intro i c hc
    obtain hc | hc := hc.append_cases
    · rw [← h.covers i c hc]
      constructor
      · rintro ⟨t, ht, hstart, hstop⟩
        refine ⟨t, (List.mem_append.1 ht).resolve_right fun ht => ?_, hstart, hstop⟩
        have hlow := hlate t ht
        have hend : i + c.utf8Size ≤ offset + byteLength front := hc.stop_le
        have hpos := c.utf8Size_pos
        omega
      · rintro ⟨t, ht, hin⟩
        exact ⟨t, List.mem_append_left _ ht, hin⟩
    · rw [← hrest.covers i c hc]
      constructor
      · rintro ⟨t, ht, hin⟩
        exact ⟨t, mem_of_stop_lt hearly ht (Nat.lt_of_le_of_lt hc.offset_le hin.2), hin⟩
      · rintro ⟨t, ht, hin⟩
        exact ⟨t, List.mem_append_right _ ht, hin⟩
  case maximal =>
    refine List.isChain_append.2 ⟨h.maximal.imp fun s t hst hs ht => ?_,
      hrest.maximal.imp fun s t hst hs ht => ?_, fun s hs t ht hsa hta => ?_⟩
    · obtain ⟨i, c, hc, hbounds⟩ := hst hs ht
      exact ⟨i, c, hc.append_right rest, hbounds⟩
    · obtain ⟨i, c, hc, hbounds⟩ := hst hs ht
      exact ⟨i, c, hc.append_left front, hbounds⟩
    · obtain ⟨i, c, hc, hb, hstart⟩ := hblank s hs t ht hsa hta
      have hstop := hearly s (List.mem_of_getLast? hs)
      exact ⟨i, c, hc.append_left front, hb, Nat.le_trans hstop hc.offset_le, hstart⟩

/-- The characters of a token are not blank. -/
theorem isBlank_of_mem (h : Partition offset cs tokens) {t : Token} (ht : t ∈ tokens) {c : Char}
    (hc : c ∈ t.lexeme.toList) : isBlank c = false := by
  obtain ⟨ds, es, hds⟩ := List.append_of_mem hc
  have hslice := h.slice t ht
  have hstop := hslice.stop_eq
  have hpos := c.utf8Size_pos
  rw [hds] at hslice hstop
  rw [Text.byteLength_append, Text.byteLength_cons] at hstop
  exact (h.covers _ c hslice.charAt).1 ⟨t, ht, Nat.le_add_right _ _, by omega⟩

/-- **A blank belongs to no token.** -/
theorem of_blank {c : Char} (h : Partition offset (c :: cs) tokens) (hc : isBlank c = true) :
    Partition (offset + c.utf8Size) cs tokens := by
  have hlength : byteLength [c] = c.utf8Size := by simp
  rw [← hlength]
  refine of_append [c] [] h (by simp) fun t ht => ?_
  rw [hlength]
  refine ((h.slice t ht).mem_or_start_le (h.nonempty t ht)).resolve_left fun hmem => ?_
  rw [h.isBlank_of_mem ht hmem] at hc
  cases hc

/-- **A character that is not blank begins the first token**, and what follows this token is
partitioned by the others. -/
theorem exists_cons {c : Char} (h : Partition offset (c :: cs) tokens) (hc : isBlank c = false) :
    ∃ t later rest, tokens = t :: later ∧ c :: cs = t.lexeme.toList ++ rest ∧
      t.span = ⟨offset, offset + byteLength t.lexeme.toList⟩ ∧
      Partition (offset + byteLength t.lexeme.toList) rest later := by
  obtain ⟨t, ht, hstart, -⟩ := (h.covers offset c (Text.charAt_cons offset c cs)).2 hc
  have hslice := h.slice t ht
  have hoffset : t.span.start = offset := Nat.le_antisymm hstart hslice.offset_le
  obtain ⟨earlier, later, rfl⟩ := List.append_of_mem ht
  obtain ⟨-, hlater, hearlier⟩ := List.pairwise_append.1 h.ordered
  cases earlier with
  | cons s earlier =>
    -- a token before this one would end where the text begins
    have hs : s ∈ s :: earlier ++ t :: later := List.mem_append_left _ List.mem_cons_self
    have hstop := hearlier s List.mem_cons_self t List.mem_cons_self
    have hlow := (h.slice s hs).offset_le
    have hlt := h.start_lt_stop hs
    omega
  | nil =>
    have hspan : t.span.stop = offset + byteLength t.lexeme.toList := by
      rw [hslice.stop_eq, hoffset]
    obtain ⟨rest, hrest⟩ := hslice.eq_append hoffset
    rw [hrest] at h
    refine ⟨t, later, rest, rfl, hrest, by rw [← hspan, ← hoffset], ?_⟩
    refine of_append t.lexeme.toList [t] h (by simp [hspan]) fun s hs => ?_
    rw [← hspan]
    exact (List.pairwise_cons.1 hlater).1 s hs

/-- The characters of an atom are those that atoms are made of. -/
theorem isAtomChar_of_mem (h : Partition offset cs tokens) {t : Token} (ht : t ∈ tokens)
    (hatom : t.IsAtom) {c : Char} (hc : c ∈ t.lexeme.toList) : Piece.isAtomChar c = true := by
  refine Piece.isAtomChar_iff.2 ⟨h.isBlank_of_mem ht hc, fun paren => ?_⟩
  rintro rfl
  exact hatom.char_notMem paren hc

/-- An atom ends where something other than an atom begins. -/
theorem endsAtom {t : Token} (h : Partition offset cs (t :: later)) (ht : t.IsAtom)
    (hrest : Partition t.span.stop rest later) : EndsAtom rest := by
  intro c hc
  cases rest with
  | nil => cases hc
  | cons d rest =>
    obtain rfl := Option.some.inj hc
    by_contra hatom
    have hdatom : Piece.isAtomChar d = true := by simpa using hatom
    obtain ⟨hblank, hparen⟩ := Piece.isAtomChar_iff.1 hdatom
    -- the character would begin the next token, which would be an atom right behind this one
    obtain ⟨s, later, after, rfl, hchars, hspan, -⟩ := hrest.exists_cons hblank
    obtain ⟨paren, -, hlexeme⟩ | hs := hrest.paren_or_isAtom List.mem_cons_self
    · rw [hlexeme, String.toList_ofList] at hchars
      exact absurd (List.cons.inj hchars).1 (hparen paren)
    · obtain ⟨i, b, -, -, hstop, hstart⟩ := (List.isChain_cons_cons.1 h.maximal).1 ht hs
      rw [hspan] at hstart
      exact absurd hstop (Nat.not_le.2 hstart)

/-- **The tokens of a text are the only ones that partition it.** -/
theorem eq_ofChars (h : Partition offset cs tokens) : tokens = ofChars offset cs := by
  induction hn : cs.length using Nat.strong_induction_on generalizing offset cs tokens with
  | _ n ih =>
    subst hn
    cases cs with
    | nil =>
      cases tokens with
      | nil => rfl
      | cons t later =>
        obtain ⟨before, after, hnil, -⟩ := h.slice t List.mem_cons_self
        obtain ⟨hfront, -⟩ := List.append_eq_nil_iff.1 hnil.symm
        exact absurd (List.append_eq_nil_iff.1 hfront).2 (h.nonempty t List.mem_cons_self)
    | cons c cs =>
      cases hc : isBlank c with
      | true =>
        rw [ofChars_cons_blank hc]
        exact ih _ (Nat.lt_succ_self _) (h.of_blank hc) rfl
      | false =>
        obtain ⟨t, later, rest, rfl, hchars, hspan, hrest⟩ := h.exists_cons hc
        have hne := h.nonempty t List.mem_cons_self
        have hshorter : rest.length < (c :: cs).length := by
          have := List.length_pos_iff.2 hne
          rw [hchars, List.length_append]
          omega
        have hlater := ih _ hshorter hrest rfl
        have hstop : t.span.stop = offset + byteLength t.lexeme.toList := by rw [hspan]
        rw [hchars, hlater]
        obtain ⟨paren, hkind, hlexeme⟩ | hatom := h.paren_or_isAtom List.mem_cons_self
        · have hparen : t.lexeme.toList = [paren.char] := by rw [hlexeme, String.toList_ofList]
          rw [hparen] at hspan ⊢
          rw [List.singleton_append, ofChars_cons_paren, ← hkind, ← hspan, ← hlexeme]
        · rw [← hstop] at hrest
          rw [ofChars_append_of_atom hne (fun c => h.isAtomChar_of_mem List.mem_cons_self hatom)
            (h.endsAtom hatom hrest), ← hatom.kind_eq, ← hspan, String.ofList_toList]

end Partition

end Token

end FormalCalculus
