import FormalCalculus.Text.EditDistance

/-!
# The operators

Ten operators can be differentiated: the five arithmetic ones take two operands, the five
elementary functions one. An operator is written as a symbol at the head of a list.
-/

namespace FormalCalculus

/-- The operators that can be differentiated. -/
inductive Op where
  | add
  | sub
  | mul
  | div
  | pow
  | sin
  | cos
  | tan
  | exp
  | ln
deriving DecidableEq, Repr

namespace Op

/-- All operators, in the order in which they are listed to the reader. -/
def all : List Op := [add, sub, mul, div, pow, sin, cos, tan, exp, ln]

@[simp] theorem mem_all (op : Op) : op ∈ all := by cases op <;> decide

/-- The symbol that names an operator. -/
def symbol : Op → String
  | add => "+"
  | sub => "-"
  | mul => "*"
  | div => "/"
  | pow => "^"
  | sin => "sin"
  | cos => "cos"
  | tan => "tan"
  | exp => "exp"
  | ln => "ln"

/-- The number of operands that an operator takes. -/
def arity : Op → Nat
  | add | sub | mul | div | pow => 2
  | sin | cos | tan | exp | ln => 1

/-- The operator that a symbol names. -/
def ofSymbol? (name : String) : Option Op := all.find? fun op => op.symbol = name

@[simp] theorem ofSymbol?_symbol (op : Op) : ofSymbol? op.symbol = some op := by
  cases op <;> decide

/-- Only its own symbol names an operator. -/
theorem symbol_of_ofSymbol? {name : String} {op : Op} (h : ofSymbol? name = some op) :
    op.symbol = name := by
  simpa using List.find?_some h

/-- Different operators have different symbols. -/
theorem symbol_injective {op op' : Op} (h : op.symbol = op'.symbol) : op = op' := by
  have hname : some op = some op' := by rw [← ofSymbol?_symbol op, h, ofSymbol?_symbol]
  exact Option.some.inj hname

/-- **Suggestions.** The operators whose symbol is at most one edit away from a name, in the order
of `all`. -/
def suggestions (name : String) : List Op :=
  all.filter fun op => Text.editDistance op.symbol.toList name.toList < 2

end Op

end FormalCalculus
