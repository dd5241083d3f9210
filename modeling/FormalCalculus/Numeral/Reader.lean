import FormalCalculus.Numeral.Decimal

/-!
# Reading numerals

A numeral is an optional sign and then either a decimal — digits with at most one point among them,
at least one digit in all, and an optional exponent — or one of the names `inf`, `infinity` and
`nan` in any case. Only ASCII digits count. `read?` gives the nearest float, which is infinite for
a decimal beyond the finite range and a signed zero for one that is too small.

* `decimal?` — the grammar of unsigned decimals;
* `read?` — the value of a signed numeral.
-/

namespace FormalCalculus.Numeral

/-- Takes a leading sign off; the flag tells whether it was a minus. -/
def splitSign : List Char → Bool × List Char
  | '-' :: cs => (true, cs)
  | '+' :: cs => (false, cs)
  | cs => (false, cs)

/-- A non-empty run of digits and nothing else, as a natural number. -/
def natural? (cs : List Char) : Option Nat :=
  if cs ≠ [] ∧ cs.all Char.isDigit then some (Nat.ofDigitChars 10 cs 0) else none

/-- What may follow the digits of a decimal: nothing, or `e` or `E` and a signed whole number. -/
def exponent? : List Char → Option Int
  | [] => some 0
  | c :: cs =>
    if c = 'e' ∨ c = 'E' then
      let (negative, ds) := splitSign cs
      (natural? ds).map fun n => if negative then -(n : Int) else n
    else none

/-- Splits off the digits after a point, if there is one. -/
def splitFraction : List Char → List Char × List Char
  | '.' :: cs => (cs.takeWhile Char.isDigit, cs.dropWhile Char.isDigit)
  | cs => ([], cs)

/-- **Unsigned decimals.** Digits before and after an optional point, together at least one, and an
optional exponent. -/
def decimal? (cs : List Char) : Option Decimal :=
  let whole := cs.takeWhile Char.isDigit
  let (fraction, tail) := splitFraction (cs.dropWhile Char.isDigit)
  if whole = [] ∧ fraction = [] then none
  else (exponent? tail).map fun e =>
    ⟨Nat.ofDigitChars 10 (whole ++ fraction) 0, e - fraction.length⟩

/-- The names of the values that no decimal denotes, in any mixture of cases. -/
def named? (cs : List Char) : Option Nat :=
  let name := cs.map Char.toLower
  if name = ['i', 'n', 'f'] ∨ name = ['i', 'n', 'f', 'i', 'n', 'i', 't', 'y'] then
    some infinityCode
  else if name = ['n', 'a', 'n'] then some nanCode
  else none

/-- **The value of a numeral**, if the characters are one. -/
def read? (cs : List Char) : Option Float :=
  let (negative, body) := splitSign cs
  ((decimal? body).map Decimal.code <|> named? body).map (ofCode negative)

end FormalCalculus.Numeral
