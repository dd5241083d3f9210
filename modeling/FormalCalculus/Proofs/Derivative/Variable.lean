import FormalCalculus.Proofs.Derivative.FirstFault

/-!
# What the variable decides

Differentiation asks for its variable at symbols only, and there the answer is a one or a zero. So
two runs with different variables take the same way through an expression: they succeed on the same
expressions, and where they fail they report the same fault. What they return can only differ in the
numbers that stand for the symbols they visit.

No such number gets lost on the way to the root. Every rule keeps the derivative of each operand at
a place of its own in the result, next to copies of the operands that are the same in both runs, so
the derivatives of the operands can be read off the derivative of the whole (`productRule_inj` and
the lemmas beside it). Hence two results are identical only if the two variables match the same of
the visited symbols (`Variable.AgreeOn`).

The crux is `Derives.exists_derives`, by induction on one of the runs. It comes with the other run,
so that no derivation has to be taken apart a second time.

Main statement: `Expr.derivative_decided_by_matches`.
-/

namespace FormalCalculus

namespace Expr

/-! ### Rules keep the derivatives of the operands -/

section

variable {a b da db da' db' : Expr}

@[simp] theorem productRule_inj :
    productRule a b da db = productRule a b da' db' ↔ da = da' ∧ db = db' := by
  simp [productRule, and_comm]

@[simp] theorem quotientRule_inj :
    quotientRule a b da db = quotientRule a b da' db' ↔ da = da' ∧ db = db' := by
  simp [quotientRule]

@[simp] theorem powerRule_inj : powerRule a b da = powerRule a b da' ↔ da = da' := by
  simp [powerRule]

@[simp] theorem sinRule_inj : sinRule a da = sinRule a da' ↔ da = da' := by
  simp [sinRule]

@[simp] theorem cosRule_inj : cosRule a da = cosRule a da' ↔ da = da' := by
  simp [cosRule]

@[simp] theorem tanRule_inj : tanRule a da = tanRule a da' ↔ da = da' := by
  simp [tanRule]

@[simp] theorem expRule_inj : expRule a da = expRule a da' ↔ da = da' := by
  simp [expRule]

@[simp] theorem lnRule_inj : lnRule a da = lnRule a da' ↔ da = da' := by
  simp [lnRule]

end

end Expr

/-! ### Variables that agree -/

namespace Variable

/-- **Variables that agree on an expression**: they match the same of the symbols that
differentiation visits in it. -/
def AgreeOn (v v' : Variable) (e : Expr) : Prop :=
  ∀ name, Expr.Visited (.symbol name) e → v.matches name = v'.matches name

variable {v v' : Variable}

/-- At a number, no symbol is visited. -/
theorem agreeOn_number (x : Float) : v.AgreeOn v' (.number x) := by
  intro name h
  cases Expr.visited_number.1 h

theorem agreeOn_symbol {name : String} :
    v.AgreeOn v' (.symbol name) ↔ v.matches name = v'.matches name := by
  constructor
  · intro h
    exact h name (.root _)
  · intro h other hother
    obtain rfl : other = name := Expr.symbol.inj (Expr.visited_symbol.1 hother)
    exact h

/-- Variables agree on a list if they agree on the operands that are differentiated along with
it. -/
theorem agreeOn_list {es : List Expr} :
    v.AgreeOn v' (.list es) ↔ ∀ a ∈ (Expr.list es).differentiatedOperands, v.AgreeOn v' a := by
  constructor
  · intro h a ha name hname
    exact h name (.operand ha hname)
  · intro h name hname
    -- the list itself is no symbol, so the symbol is visited in an operand
    obtain heq | ⟨a, ha, hname⟩ := Expr.visited_iff.1 hname
    · cases heq
    · exact h a ha name hname

theorem agreeOn_unary {op : Op} {a : Expr} :
    v.AgreeOn v' (.unary op a) ↔
      ∀ c ∈ (Expr.unary op a).differentiatedOperands, v.AgreeOn v' c :=
  agreeOn_list

theorem agreeOn_binary {op : Op} {a b : Expr} :
    v.AgreeOn v' (.binary op a b) ↔
      ∀ c ∈ (Expr.binary op a b).differentiatedOperands, v.AgreeOn v' c :=
  agreeOn_list

/-- Every symbol and one symbol agree on an expression in which just that one is visited. -/
theorem any_agreeOn_named {name : String} {e : Expr} :
    any.AgreeOn (named name) e ↔ ∀ other, Expr.Visited (.symbol other) e → other = name := by
  refine forall_congr' fun other => imp_congr_right fun _ => ?_
  rw [Variable.matches, Variable.matches, eq_comm, beq_iff_eq, eq_comm]

end Variable

/-! ### Two runs -/

namespace Expr

variable {v v' : Variable}

/-- **Two runs succeed together**, and their results are identical exactly if the variables
agree. -/
theorem Derives.exists_derives {e d : Expr} (h : Derives v e d) (v' : Variable) :
    ∃ d', Derives v' e d' ∧ (d = d' ↔ v.AgreeOn v' e) := by
  induction h with
  | number x => exact ⟨_, .number x, by simp [Variable.agreeOn_number]⟩
  | symbol name =>
    refine ⟨_, .symbol name, ?_⟩
    rw [Variable.agreeOn_symbol]
    -- the one place where the answer of the variable shows
    have hne : (1 : Float) ≠ 0 := by decide
    cases v.matches name <;> cases v'.matches name <;> simp [hne, hne.symm]
  | add _ _ iha ihb =>
    obtain ⟨⟨da', ha, hda⟩, db', hb, hdb⟩ := iha, ihb
    exact ⟨_, .add ha hb, by simp [Variable.agreeOn_binary, hda, hdb]⟩
  | sub _ _ iha ihb =>
    obtain ⟨⟨da', ha, hda⟩, db', hb, hdb⟩ := iha, ihb
    exact ⟨_, .sub ha hb, by simp [Variable.agreeOn_binary, hda, hdb]⟩
  | mul _ _ iha ihb =>
    obtain ⟨⟨da', ha, hda⟩, db', hb, hdb⟩ := iha, ihb
    exact ⟨_, .mul ha hb, by simp [Variable.agreeOn_binary, hda, hdb]⟩
  | div _ _ iha ihb =>
    obtain ⟨⟨da', ha, hda⟩, db', hb, hdb⟩ := iha, ihb
    exact ⟨_, .div ha hb, by simp [Variable.agreeOn_binary, hda, hdb]⟩
  | pow _ iha =>
    -- the exponent is copied into the result, and no symbol in it is asked about
    obtain ⟨da', ha, hda⟩ := iha
    exact ⟨_, .pow ha, by simp [Variable.agreeOn_binary, hda]⟩
  | sin _ iha =>
    obtain ⟨da', ha, hda⟩ := iha
    exact ⟨_, .sin ha, by simp [Variable.agreeOn_unary, hda]⟩
  | cos _ iha =>
    obtain ⟨da', ha, hda⟩ := iha
    exact ⟨_, .cos ha, by simp [Variable.agreeOn_unary, hda]⟩
  | tan _ iha =>
    obtain ⟨da', ha, hda⟩ := iha
    exact ⟨_, .tan ha, by simp [Variable.agreeOn_unary, hda]⟩
  | exp _ iha =>
    obtain ⟨da', ha, hda⟩ := iha
    exact ⟨_, .exp ha, by simp [Variable.agreeOn_unary, hda]⟩
  | ln _ iha =>
    obtain ⟨da', ha, hda⟩ := iha
    exact ⟨_, .ln ha, by simp [Variable.agreeOn_unary, hda]⟩

/-- **Two runs fail together**, with the first fault of the visits, which are the same for both. -/
theorem derivative_error_of_error {e : Expr} {error : Error} (h : e.derivative v = .error error)
    (v' : Variable) : e.derivative v' = .error error := by
  cases h' : e.derivative v' with
  | ok d' =>
    obtain ⟨d, hd, -⟩ := (derives_of_derivative h').exists_derives v
    rw [derivative_of_derives hd] at h
    cases h
  | error error' =>
    rw [(firstFault_of_derivative h').unique (firstFault_of_derivative h)]

/-- What comes of two runs: the same failure, or two results that are identical exactly if the
variables agree. -/
theorem derivative_twice (v v' : Variable) (e : Expr) :
    (∃ error, e.derivative v = .error error ∧ e.derivative v' = .error error) ∨
      ∃ d d', e.derivative v = .ok d ∧ e.derivative v' = .ok d' ∧ (d = d' ↔ v.AgreeOn v' e) := by
  cases h : e.derivative v with
  | error error => exact Or.inl ⟨error, rfl, derivative_error_of_error h v'⟩
  | ok d =>
    obtain ⟨d', hd', heq⟩ := (derives_of_derivative h).exists_derives v'
    exact Or.inr ⟨d, d', rfl, derivative_of_derives hd', heq⟩

/-- **The variable only decides which of the visited symbols count.** With any two variables,
differentiation fails with the same error, or succeeds with results that are identical exactly if
both variables match the same of the symbols that are visited: neither heads nor exponents matter.
So the derivative with respect to every symbol is the one with respect to a single symbol exactly if
no other symbol is visited. -/
theorem derivative_decided_by_matches (e : Expr) :
    (∀ v v' : Variable,
      (∃ error, e.derivative v = .error error ∧ e.derivative v' = .error error) ∨
        ∃ d d', e.derivative v = .ok d ∧ e.derivative v' = .ok d' ∧
          (d = d' ↔ ∀ name, Visited (symbol name) e → v.matches name = v'.matches name)) ∧
      ∀ name : String,
        (∃ error, e.derivative .any = .error error ∧
          e.derivative (.named name) = .error error) ∨
          ∃ d d', e.derivative .any = .ok d ∧ e.derivative (.named name) = .ok d' ∧
            (d = d' ↔ ∀ other, Visited (symbol other) e → other = name) := by
  refine ⟨fun v v' => derivative_twice v v' e, fun name => ?_⟩
  rw [← Variable.any_agreeOn_named]
  exact derivative_twice .any (.named name) e

/-- A symbol in an exponent is not asked about. -/
example :
    (binary .pow (symbol "x") (symbol "y")).derivative .any =
      (binary .pow (symbol "x") (symbol "y")).derivative (.named "x") := by
  decide +kernel

end Expr

end FormalCalculus
