import FormalCalculus.Proofs.Token.Partition
import Mathlib.Data.List.TakeWhile

/-!
# Tokens by longest match

A scanner works through a text with four patterns: runs of blanks, which it skips, single
parentheses, and runs of atom characters. At every place it takes the longest part of the text that
a pattern fits (`LongestMatch`), and goes on behind it; `Token.Scan` says what tokens this gives.

The tokens of a text are found in another way, character by character from its end. They are the
same:

* every text is scanned to its tokens (`Token.scan_ofChars`). The patterns have no characters in
  common, so the first character says which one fits, and it fits as long as its characters last;
* what a text is scanned to partitions it (`Token.Scan.partition`), because one more match is one
  more part, and the parts fit together;
* and only the tokens of a text partition it (`Token.Partition.eq_ofChars`).

Main statement: `Token.ofText_partitions`.
-/

namespace FormalCalculus

open Text (Span byteLength isBlank Slice CharAt)

/-- The patterns of the parts of a text. -/
inductive Pattern where
  /-- A run of blanks. -/
  | blanks
  /-- `(`. -/
  | openParen
  /-- `)`. -/
  | closeParen
  /-- A run of characters that are neither blank nor parentheses. -/
  | atom
deriving DecidableEq

/-- The pattern of a parenthesis. -/
abbrev Paren.pattern : Paren → Pattern
  | opening => .openParen
  | closing => .closeParen

namespace Pattern

/-- The characters that a pattern allows. -/
def allows : Pattern → Char → Bool
  | blanks, c => isBlank c
  | openParen, c => c == '('
  | closeParen, c => c == ')'
  | atom, c => Piece.isAtomChar c

/-- Whether a pattern allows more than one character. -/
def repeats : Pattern → Bool
  | blanks | atom => true
  | openParen | closeParen => false

/-- The kind of token that characters are if this pattern fits them; blanks are none. -/
def kind? (cs : List Char) : Pattern → Option Token.Kind
  | blanks => none
  | openParen => some .openParen
  | closeParen => some .closeParen
  | atom => some (.ofAtom cs)

/-- **The pattern fits some characters.** -/
structure Fits (p : Pattern) (cs : List Char) : Prop where
  nonempty : cs ≠ []
  allows : ∀ c ∈ cs, p.allows c = true
  single : p.repeats = false → cs.length = 1

/-- A pattern that does not repeat fits single characters. -/
theorem Fits.eq_singleton {p : Pattern} {cs : List Char} (h : p.Fits cs)
    (hsingle : p.repeats = false) : ∃ c, cs = [c] ∧ p.allows c = true := by
  obtain ⟨c, rfl⟩ := List.length_eq_one_iff.1 (h.single hsingle)
  exact ⟨c, rfl, h.allows c List.mem_cons_self⟩

/-- The patterns, with those of the parentheses as one. -/
theorem blanks_or_paren_or_atom (p : Pattern) :
    p = blanks ∨ (∃ paren : Paren, p = paren.pattern) ∨ p = atom := by
  cases p with
  | blanks => exact Or.inl rfl
  | openParen => exact Or.inr (Or.inl ⟨.opening, rfl⟩)
  | closeParen => exact Or.inr (Or.inl ⟨.closing, rfl⟩)
  | atom => exact Or.inr (Or.inr rfl)

theorem allows_paren (paren : Paren) (c : Char) : paren.pattern.allows c = (c == paren.char) := by
  cases paren <;> rfl

theorem kind?_paren (paren : Paren) (cs : List Char) :
    paren.pattern.kind? cs = some paren.kind := by
  cases paren <;> rfl

theorem Fits.eq_paren {paren : Paren} {cs : List Char} (h : paren.pattern.Fits cs) :
    cs = [paren.char] := by
  obtain ⟨c, rfl, hc⟩ := h.eq_singleton (by cases paren <;> rfl)
  rw [allows_paren] at hc
  rw [eq_of_beq hc]

/-- Every character is allowed by a pattern. -/
theorem exists_allows (c : Char) : ∃ p : Pattern, p.allows c = true := by
  cases hblank : isBlank c with
  | true => exact ⟨blanks, hblank⟩
  | false =>
    by_cases hparen : ∃ paren : Paren, c = paren.char
    · obtain ⟨paren, rfl⟩ := hparen
      exact ⟨paren.pattern, by simp [allows_paren]⟩
    · exact ⟨atom, Piece.isAtomChar_iff.2 ⟨hblank, fun paren h => hparen ⟨paren, h⟩⟩⟩

/-- No character is allowed by two patterns. -/
theorem eq_of_allows {p q : Pattern} {c : Char} (hp : p.allows c = true)
    (hq : q.allows c = true) : p = q := by
  have hopen : isBlank '(' = false := Paren.opening.isBlank_char
  have hclose : isBlank ')' = false := Paren.closing.isBlank_char
  cases p <;> cases q <;> simp_all [allows, Piece.isAtomChar]

/-- What a pattern allows that is not for blanks is not blank. -/
theorem isBlank_of_allows {p : Pattern} {c : Char} (hp : p ≠ blanks) (hc : p.allows c = true) :
    isBlank c = false := by
  rw [← Bool.not_eq_true]
  exact fun hblank => hp (eq_of_allows hc (q := blanks) hblank)

end Pattern

/-! ### Longest matches -/

/-- **A longest match**: the pattern fits the front `cs` of a text, and no pattern fits more. -/
structure LongestMatch (p : Pattern) (cs rest : List Char) : Prop where
  fits : p.Fits cs
  longest : ∀ (q : Pattern) (ds after : List Char), q.Fits ds → cs ++ rest = ds ++ after →
    ds.length ≤ cs.length

namespace LongestMatch

variable {p : Pattern} {cs rest : List Char}

/-- A pattern fits as long as its characters last. -/
theorem of_head? (hfits : p.Fits cs)
    (hrest : p.repeats = true → ∀ c ∈ rest.head?, p.allows c = false) : LongestMatch p cs rest := by
  refine ⟨hfits, fun q ds after hds htext => ?_⟩
  by_contra hlength
  rw [Nat.not_le] at hlength
  obtain ⟨ds', rfl, hrest'⟩ | ⟨cs', rfl, -⟩ := List.append_eq_append_iff.1 htext
  · obtain ⟨c, cs, rfl⟩ := List.exists_cons_of_ne_nil hfits.nonempty
    -- both patterns allow the first character
    obtain rfl : p = q :=
      Pattern.eq_of_allows (hfits.allows c List.mem_cons_self) (hds.allows c (by simp))
    cases ds' with
    | nil => simp at hlength
    | cons d ds' =>
      cases hrepeats : p.repeats with
      | false =>
        have hsingle := hds.single hrepeats
        simp only [List.length_append, List.length_cons] at hsingle
        omega
      | true =>
        have hd : p.allows d = true := hds.allows d (by simp)
        rw [hrest hrepeats d (by rw [hrest']; rfl)] at hd
        cases hd
  · rw [List.length_append] at hlength
    omega

/-- A repeating pattern does not allow what follows its longest match. -/
theorem allows_head? (h : LongestMatch p cs rest) (hrepeats : p.repeats = true) :
    ∀ c ∈ rest.head?, p.allows c = false := by
  intro c hc
  by_contra hallows
  rw [Bool.not_eq_false] at hallows
  cases rest with
  | nil => cases hc
  | cons d rest =>
    obtain rfl := Option.some.inj hc
    -- with one more character, the match would be longer
    have hfits : p.Fits (cs ++ [d]) := by
      refine ⟨by simp, List.forall_mem_append.2 ⟨h.fits.allows, by simpa using hallows⟩, ?_⟩
      rw [hrepeats]
      exact fun hfalse => absurd hfalse (by decide)
    have hlonger := h.longest p (cs ++ [d]) rest hfits (by simp)
    rw [List.length_append, List.length_singleton] at hlonger
    omega

/-- **There is a match at every character.** -/
theorem exists_of_cons (c : Char) (cs : List Char) :
    ∃ p front rest, c :: cs = front ++ rest ∧ LongestMatch p front rest := by
  obtain ⟨p, hp⟩ := Pattern.exists_allows c
  cases hrepeats : p.repeats with
  | false =>
    refine ⟨p, [c], cs, rfl, of_head? ⟨by simp, by simpa using hp, fun _ => rfl⟩ fun h => ?_⟩
    rw [hrepeats] at h
    cases h
  | true =>
    refine ⟨p, (c :: cs).takeWhile p.allows, (c :: cs).dropWhile p.allows,
      List.takeWhile_append_dropWhile.symm, of_head? ⟨?_, ?_, ?_⟩ fun _ d hd => ?_⟩
    · simp [hp]
    · exact fun d hd => List.mem_takeWhile_imp hd
    · rw [hrepeats]
      exact fun h => absurd h (by decide)
    · have := List.head?_dropWhile_not p.allows (c :: cs)
      rw [hd] at this
      simpa using this

end LongestMatch

namespace Token

/-! ### Scans -/

/-- **A scan by longest match** of a text that begins at byte `offset`, and its tokens. -/
inductive Scan : Nat → List Char → List Token → Prop
  /-- At the end of the text there are no tokens. -/
  | done (offset : Nat) : Scan offset [] []
  /-- A match that is no token is skipped. -/
  | skip {offset : Nat} {p : Pattern} {cs rest : List Char} {tokens : List Token}
      (h : LongestMatch p cs rest) (hkind : p.kind? cs = none)
      (hrest : Scan (offset + byteLength cs) rest tokens) : Scan offset (cs ++ rest) tokens
  /-- Any other match is the next token. -/
  | token {offset : Nat} {p : Pattern} {cs rest : List Char} {kind : Kind} {tokens : List Token}
      (h : LongestMatch p cs rest) (hkind : p.kind? cs = some kind)
      (hrest : Scan (offset + byteLength cs) rest tokens) :
      Scan offset (cs ++ rest)
        (⟨kind, ⟨offset, offset + byteLength cs⟩, String.ofList cs⟩ :: tokens)

variable {offset : Nat} {p : Pattern} {cs rest : List Char} {kind : Kind} {tokens : List Token}

theorem ofChars_append_of_blanks (hcs : ∀ c ∈ cs, isBlank c = true) (offset : Nat)
    (rest : List Char) : ofChars offset (cs ++ rest) = ofChars (offset + byteLength cs) rest := by
  induction cs generalizing offset with
  | nil => rfl
  | cons c cs ih =>
    obtain ⟨hc, hcs⟩ := List.forall_mem_cons.1 hcs
    rw [List.cons_append, ofChars_cons_blank hc, ih hcs, Text.byteLength_cons, Nat.add_assoc]

theorem endsAtom_of_longestMatch (h : LongestMatch .atom cs rest) : EndsAtom rest :=
  h.allows_head? rfl

/-- **Every text is scanned to its tokens.** -/
theorem scan_ofChars (offset : Nat) (cs : List Char) : Scan offset cs (ofChars offset cs) := by
  induction hn : cs.length using Nat.strong_induction_on generalizing offset cs with
  | _ n ih =>
    subst hn
    cases cs with
    | nil => exact .done offset
    | cons c cs =>
      obtain ⟨p, front, rest, hchars, hmatch⟩ := LongestMatch.exists_of_cons c cs
      have hshorter : rest.length < (c :: cs).length := by
        have := List.length_pos_iff.2 hmatch.fits.nonempty
        rw [hchars, List.length_append]
        omega
      have hrest := ih _ hshorter (offset + byteLength front) rest rfl
      rw [hchars]
      obtain rfl | ⟨paren, rfl⟩ | rfl := p.blanks_or_paren_or_atom
      · rw [ofChars_append_of_blanks hmatch.fits.allows]
        exact .skip hmatch rfl hrest
      · obtain rfl := hmatch.fits.eq_paren
        rw [List.singleton_append, ofChars_cons_paren]
        exact .token hmatch (Pattern.kind?_paren paren _) hrest
      · rw [ofChars_append_of_atom hmatch.fits.nonempty hmatch.fits.allows
          (endsAtom_of_longestMatch hmatch)]
        exact .token hmatch rfl hrest

/-! ### Scans partition -/

/-- Blanks are partitioned by no tokens. -/
theorem partition_blanks (hcs : ∀ c ∈ cs, isBlank c = true) : Partition offset cs [] := by
  have hparens : ∀ (paren : Paren) (i : Nat), ¬ CharAt offset cs i paren.char := by
    intro paren i hc
    have hblank := hcs _ hc.mem
    rw [paren.isBlank_char] at hblank
    cases hblank
  refine ⟨by simp, by simp, .nil, fun i c hc => ?_, fun i hc => absurd hc (hparens .opening i),
    fun i hc => absurd hc (hparens .closing i), by simp, .nil⟩
  simp [hcs c hc.mem]

/-- What the pattern of atoms fits is an atom. -/
theorem isAtom_of_fits {span : Span} (hfits : Pattern.atom.Fits cs)
    (hkind : Pattern.atom.kind? cs = some kind) : IsAtom ⟨kind, span, String.ofList cs⟩ := by
  obtain rfl := Option.some.inj hkind
  have hparens : ∀ paren : Paren, paren.char ∉ cs := by
    intro paren hmem
    have hatom := hfits.allows _ hmem
    rw [Pattern.allows, paren.isAtomChar_char] at hatom
    cases hatom
  refine ⟨?_, ?_, ?_⟩ <;> rw [String.toList_ofList]
  · exact hparens .opening
  · exact hparens .closing

/-- A match that is a token is partitioned by this token. -/
theorem partition_token (hfits : p.Fits cs) (hkind : p.kind? cs = some kind) :
    Partition offset cs [⟨kind, ⟨offset, offset + byteLength cs⟩, String.ofList cs⟩] := by
  have hp : p ≠ .blanks := by
    rintro rfl
    cases hkind
  have hparens : ∀ (paren : Paren) (i : Nat), CharAt offset cs i paren.char →
      ⟨paren.kind, ⟨i, i + 1⟩, String.ofList [paren.char]⟩ ∈
        [(⟨kind, ⟨offset, offset + byteLength cs⟩, String.ofList cs⟩ : Token)] := by
    intro paren i hc
    -- the pattern of the parenthesis fits no other characters
    obtain rfl : p = paren.pattern :=
      Pattern.eq_of_allows (hfits.allows _ hc.mem) (by simp [Pattern.allows_paren])
    obtain rfl := hfits.eq_paren
    obtain ⟨rfl, -⟩ := hc.eq_of_singleton
    rw [Pattern.kind?_paren] at hkind
    obtain rfl := Option.some.inj hkind
    cases paren <;> exact List.mem_singleton.2 rfl
  refine ⟨?slice, by simpa using hfits.nonempty, List.pairwise_singleton _ _, fun i c hc => ?covers,
    hparens .opening, hparens .closing, ?kinds, List.isChain_singleton _⟩
  case slice =>
    have h := Text.Slice.refl offset cs []
    rw [List.append_nil] at h
    simpa using h
  case covers =>
    have hstop : i + c.utf8Size ≤ offset + byteLength cs := hc.stop_le
    have hpos := c.utf8Size_pos
    simp only [List.mem_singleton, exists_eq_left, Pattern.isBlank_of_allows hp
      (hfits.allows c hc.mem), iff_true]
    exact ⟨hc.offset_le, by omega⟩
  case kinds =>
    intro t ht
    obtain rfl := List.mem_singleton.1 ht
    obtain rfl | ⟨paren, rfl⟩ | rfl := p.blanks_or_paren_or_atom
    · exact absurd rfl hp
    · obtain rfl := hfits.eq_paren
      rw [Pattern.kind?_paren] at hkind
      obtain rfl := Option.some.inj hkind
      cases paren with
      | opening => exact Or.inl ⟨rfl, rfl⟩
      | closing => exact Or.inr (Or.inl ⟨rfl, rfl⟩)
    · exact Or.inr (Or.inr (isAtom_of_fits hfits hkind))

/-- Where no atom begins, there is a blank before an atom that is the first token. -/
theorem Partition.exists_blank {t : Token} (h : Partition offset rest tokens)
    (hends : EndsAtom rest) (ht : t ∈ tokens.head?) (hatom : t.IsAtom) :
    ∃ i c, CharAt offset rest i c ∧ isBlank c = true ∧ i < t.span.start := by
  have htmem : t ∈ tokens := List.mem_of_mem_head? ht
  have hne := h.nonempty t htmem
  obtain ⟨d, rest, rfl⟩ : ∃ d ds, rest = d :: ds := by
    obtain ⟨before, after, rfl, -⟩ := h.slice t htmem
    exact List.exists_cons_of_ne_nil (by simp_all)
  have hd : Piece.isAtomChar d = false := hends d rfl
  -- the first character is not in the atom, so the atom begins later
  have hstart : offset + d.utf8Size ≤ t.span.start := by
    refine ((h.slice t htmem).mem_or_start_le hne).resolve_left fun hmem => ?_
    rw [h.isAtomChar_of_mem htmem hatom hmem] at hd
    cases hd
  have hlt : offset < t.span.start := Nat.lt_of_lt_of_le (by have := d.utf8Size_pos; omega) hstart
  refine ⟨offset, d, Text.charAt_cons offset d rest, ?_, hlt⟩
  -- if it were no blank, the first token would begin with it
  by_contra hblank
  obtain ⟨s, later, after, rfl, -, hspan, -⟩ := h.exists_cons (by simpa using hblank)
  obtain rfl := Option.some.inj ht
  rw [hspan] at hlt
  exact Nat.lt_irrefl _ hlt

/-- **What a text is scanned to partitions it.** -/
theorem Scan.partition (h : Scan offset cs tokens) : Partition offset cs tokens := by
  induction h with
  | done offset => exact partition_blanks (by simp)
  | @skip offset p cs rest tokens hmatch hkind hrest ih =>
    cases p with
    | blanks => exact (partition_blanks hmatch.fits.allows).append ih (by simp)
    | openParen | closeParen | atom => cases hkind
  | @token offset p cs rest kind tokens hmatch hkind hrest ih =>
    refine (partition_token hmatch.fits hkind).append ih fun s hs t ht hsa hta => ?_
    obtain rfl := Option.some.inj hs
    refine ih.exists_blank ?_ ht hta
    -- only the pattern of atoms gives an atom
    obtain rfl | ⟨paren, rfl⟩ | rfl := p.blanks_or_paren_or_atom
    · cases hkind
    · obtain rfl := hmatch.fits.eq_paren
      exact absurd (by simp) (hsa.char_notMem paren)
    · exact endsAtom_of_longestMatch hmatch

/-- The tokens of a text partition it. -/
theorem partition_ofText (text : String) : Partition 0 text.toList (ofText text) :=
  (scan_ofChars 0 _).partition

/-- **The tokens of a text partition it, and no others do.** They are those of a scan by longest
match. -/
theorem ofText_partitions (text : String) (tokens : List Token) :
    (Scan 0 text.toList tokens ↔ tokens = ofText text) ∧
      (Partition 0 text.toList tokens ↔ tokens = ofText text) := by
  refine ⟨⟨fun h => h.partition.eq_ofChars, ?_⟩, ⟨fun h => h.eq_ofChars, ?_⟩⟩
  · rintro rfl
    exact scan_ofChars 0 _
  · rintro rfl
    exact partition_ofText text

end Token

end FormalCalculus
