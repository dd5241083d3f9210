import FormalCalculus.CommandLine
import FormalCalculus.Proofs.Differentiate.Depth
import FormalCalculus.Proofs.Expr.Spacing

/-!
# One line or nothing

A run of the command ends in one of two ways (`CommandLine.run_cases`): either there is an input and
it has a derivative, which is then written with a line feed behind it, and the status is zero; or
something is missing, and then nothing is written and the status is not zero.

The derivative in print takes one line whatever the input looked like. Its blanks are not those of
the input: it is spaced as every readable expression is in print (`Expr.spaced_render`), and a space
ends no line (`Spaced.isLine`).

Main statement: `CommandLine.run_writes_one_line_or_nothing`.
-/

namespace FormalCalculus

/-! ### Lines -/

/-- The code points of the characters that end a line: line feed, vertical tabulation, form feed,
carriage return, next line, and the separators of lines and of paragraphs. -/
def Text.lineBreaks : List Nat := [0x0A, 0x0B, 0x0C, 0x0D, 0x85, 0x2028, 0x2029]

/-- **Exactly one line**: a line feed, and in front of it nothing that ends a line. -/
def IsLine (text : String) : Prop :=
  ∃ content : String, text = content ++ "\n" ∧ ∀ c ∈ content.toList, c.toNat ∉ Text.lineBreaks

/-- The characters that end a line are blank, and the space is not one of them. -/
theorem Text.isBlank_of_mem_lineBreaks {c : Char} (h : c.toNat ∈ lineBreaks) :
    isBlank c = true ∧ c ≠ ' ' := by
  have hspace : ' '.toNat ∉ lineBreaks := by decide
  refine ⟨?_, fun heq => hspace (heq ▸ h)⟩
  have hall : ∀ n ∈ lineBreaks,
      blankRanges.any (fun range => range.1 ≤ n && n ≤ range.2) = true := by decide
  exact hall _ h

/-- **A spaced text with a line feed is one line.** -/
theorem Spaced.isLine {text : String} (h : Spaced text.toList) : IsLine (text ++ "\n") := by
  refine ⟨text, rfl, fun c hc hbreak => ?_⟩
  obtain ⟨hblank, hspace⟩ := Text.isBlank_of_mem_lineBreaks hbreak
  exact hspace (h.eq_space hc hblank)

/-- Results are spaced. -/
theorem spaced_of_differentiateText {arith : Arithmetic} {options : Options} {text result : String}
    (h : differentiateText arith options text = .ok result) : Spaced result.toList := by
  obtain ⟨s, hs, rfl⟩ := differentiateText_eq_ok.1 h
  rw [Expr.toList_text]
  exact Expr.spaced_render (readable_of_differentiate hs)

namespace CommandLine

/-! ### The input -/

/-- **The input of a run**: the arguments, if there are any, with a space between each two; else the
text that the standard input is the UTF-8 encoding of. -/
inductive Input : List String → ByteArray → String → Prop
  | arguments (first : String) (others : List String) (stdin : ByteArray) :
      Input (first :: others) stdin (String.intercalate " " (first :: others))
  | standardInput (text : String) : Input [] text.toUTF8 text

theorem fromUTF8?_eq_some_iff {bytes : ByteArray} {text : String} :
    String.fromUTF8? bytes = some text ↔ text.toUTF8 = bytes := by
  constructor
  · intro h
    unfold String.fromUTF8? at h
    split at h
    · obtain rfl := Option.some.inj h
      rfl
    · cases h
  · rintro rfl
    exact dif_pos text.isValidUTF8

theorem input?_eq_some_iff {args : List String} {stdin : ByteArray} {text : String} :
    input? args stdin = some text ↔ Input args stdin text := by
  cases args with
  | nil =>
    rw [input?, List.isEmpty_nil, if_pos rfl, fromUTF8?_eq_some_iff]
    constructor
    · rintro rfl
      exact .standardInput text
    · rintro ⟨⟩
      rfl
  | cons first others =>
    rw [input?, List.isEmpty_cons, if_neg Bool.false_ne_true, Option.some.injEq]
    constructor
    · rintro rfl
      exact .arguments first others stdin
    · rintro ⟨⟩
      rfl

/-! ### The two ways in which a run ends -/

/-- A report on an error is a failure. -/
theorem ofError_eq_failed (text : String) (e : Error) :
    ∃ status diagnostics, status ≠ 0 ∧ Outcome.ofError text e = .failed status diagnostics := by
  unfold Outcome.ofError
  split
  · exact ⟨101, _, by decide, rfl⟩
  · exact ⟨1, _, by decide, rfl⟩

/-- **How a run ends.** -/
theorem run_cases (arith : Arithmetic) (args : List String) (stdin : ByteArray) :
    (∃ text result, Input args stdin text ∧ differentiateText arith {} text = .ok result ∧
      run arith args stdin = ⟨0, result ++ "\n", []⟩) ∨
    ((¬ ∃ text result, Input args stdin text ∧ differentiateText arith {} text = .ok result) ∧
      ∃ status diagnostics, status ≠ 0 ∧ run arith args stdin = .failed status diagnostics) := by
  unfold run
  simp only [← input?_eq_some_iff]
  cases input? args stdin with
  | none => exact Or.inr ⟨by simp, 1, _, by decide, rfl⟩
  | some text =>
    cases hresult : differentiateText arith {} text with
    | ok result => exact Or.inl ⟨text, result, rfl, hresult, by simp only [hresult]⟩
    | error e =>
      -- there is an input, and the only one, but no result
      refine Or.inr ⟨?_, by simpa only [hresult] using ofError_eq_failed text e⟩
      rintro ⟨_, result, heq, hok⟩
      obtain rfl := Option.some.inj heq
      rw [hresult] at hok
      cases hok

/-- **One line or nothing.** The status is zero exactly if there is an input and it has a derivative.
What is written is then the derivative in print with a line feed behind it, exactly one line, in
which all blanks are single spaces between the items of a list. In every other case nothing is
written. -/
theorem run_writes_one_line_or_nothing (arith : Arithmetic) (args : List String)
    (stdin : ByteArray) :
    let outcome := run arith args stdin
    (outcome.status = 0 ↔
      ∃ text result, Input args stdin text ∧ differentiateText arith {} text = .ok result) ∧
    (∀ text result, Input args stdin text → differentiateText arith {} text = .ok result →
      outcome.output = result ++ "\n" ∧ Spaced result.toList ∧ IsLine outcome.output) ∧
    (outcome.status ≠ 0 → outcome.output = "") := by
  intro outcome
  obtain ⟨text, result, hinput, hresult, hrun⟩ | ⟨hnone, status, diagnostics, hstatus, hrun⟩ :=
    run_cases arith args stdin
  · have houtcome : outcome = ⟨0, result ++ "\n", []⟩ := hrun
    have hspaced := spaced_of_differentiateText hresult
    rw [houtcome]
    refine ⟨iff_of_true rfl ⟨text, result, hinput, hresult⟩, fun text' result' hinput' hresult' => ?_,
      fun h => absurd rfl h⟩
    -- a run has one input only
    rw [← input?_eq_some_iff] at hinput hinput'
    obtain rfl := Option.some.inj (hinput.symm.trans hinput')
    obtain rfl := Except.ok.inj (hresult.symm.trans hresult')
    exact ⟨rfl, hspaced, hspaced.isLine⟩
  · have houtcome : outcome = .failed status diagnostics := hrun
    rw [houtcome]
    exact ⟨iff_of_false hstatus hnone, fun text result hinput hresult =>
      absurd ⟨text, result, hinput, hresult⟩ hnone, fun _ => rfl⟩

/-- A sine with a line separator, a next-line control and line feeds around its parts, read from the
standard input; a product with a paragraph separator inside of an argument; and a list that is not
closed. -/
theorem run_writes_one_line_or_nothing_of_separators :
    let sine := "\u2028(sin\n\u0085x )\n"
    let product := ["(*", "x\u2029x)"]
    let unclosed := ["(+", "x"]
    (Input [] sine.toUTF8 sine ∧ differentiateText .squaring {} sine = .ok "(cos x)" ∧
      (run .squaring [] sine.toUTF8).output = "(cos x)\n" ∧ Spaced "(cos x)".toList ∧
      IsLine (run .squaring [] sine.toUTF8).output) ∧
    (Input product .empty "(* x\u2029x)" ∧
      differentiateText .squaring {} "(* x\u2029x)" = .ok "(+ x x)" ∧
      (run .squaring product .empty).output = "(+ x x)\n" ∧ Spaced "(+ x x)".toList ∧
      IsLine (run .squaring product .empty).output) ∧
    (run .squaring unclosed .empty).status ≠ 0 ∧ (run .squaring unclosed .empty).output = "" := by
  intro sine product unclosed
  have hsine : Input [] sine.toUTF8 sine := .standardInput sine
  have hcos : differentiateText .squaring {} sine = .ok "(cos x)" := by decide +kernel
  have hproduct : Input product .empty "(* x\u2029x)" :=
    .arguments "(*" ["x\u2029x)"] .empty
  have hsum : differentiateText .squaring {} "(* x\u2029x)" = .ok "(+ x x)" := by decide +kernel
  have hstatus : (run .squaring unclosed .empty).status ≠ 0 := by decide +kernel
  exact ⟨⟨hsine, hcos,
      (run_writes_one_line_or_nothing .squaring [] sine.toUTF8).2.1 sine "(cos x)" hsine hcos⟩,
    ⟨hproduct, hsum,
      (run_writes_one_line_or_nothing .squaring product .empty).2.1 _ "(+ x x)" hproduct hsum⟩,
    hstatus, (run_writes_one_line_or_nothing .squaring unclosed .empty).2.2 hstatus⟩

end CommandLine

end FormalCalculus
