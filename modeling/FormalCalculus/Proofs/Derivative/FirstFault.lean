import FormalCalculus.Proofs.Derivative.Relation
import FormalCalculus.Proofs.Expr.Height
import FormalCalculus.Proofs.Expr.Value

/-!
# The fault that differentiation reports

Differentiation fails at a list that applies no operator, or an operator to the wrong number of
operands. It looks at a list before it goes on to its operands, and it never looks into an exponent;
so whether it fails at all depends on the positions it visits (`Expr.Visited`), and which fault it
reports depends on their order.

* `Expr.Faulty` — what is wrong with a list by itself, whatever its operands are;
* `Expr.visits` — the visited positions in the order in which they are visited: a list before its
  operands, and these from left to right, except that a product starts with its second factor;
* `Expr.FirstFault` — the first fault along a row of positions. Rows are put together from the rows
  of the operands, and so are their first faults (`FirstFault.append_left`,
  `FirstFault.append_right`); this is all that the ten rules need.

Main statement: `Expr.derivative_reports_first_fault`.
-/

namespace FormalCalculus

namespace Expr

variable {v : Variable}

/-! ### Faults of a list by itself -/

/-- **What is wrong with a list**, apart from what is wrong with its operands. -/
inductive Faulty : Expr → Error → Prop
  /-- It has no head, and goes by its printed form. -/
  | empty : Faulty (list []) ⟨.invalidOperator "()" (Op.suggestions "()"), []⟩
  /-- Its head is a symbol, but not that of an operator. -/
  | name {name : String} {operands : List Expr} (h : ∀ op : Op, op.symbol ≠ name) :
      Faulty (list (symbol name :: operands)) ⟨.invalidOperator name (Op.suggestions name), []⟩
  /-- Its head is no symbol, and goes by its printed form. -/
  | head {head : Expr} {operands : List Expr} (h : ∀ name, head ≠ symbol name) :
      Faulty (list (head :: operands)) ⟨.invalidOperator head.text (Op.suggestions head.text), []⟩
  /-- It applies an operator to the wrong number of operands. -/
  | arity {op : Op} {operands : List Expr} (h : operands.length ≠ op.arity) :
      Faulty (list (symbol op.symbol :: operands))
        ⟨.arityMismatch op op.arity operands.length, []⟩

/-- A list whose head names no operator is faulty, and called by its head. -/
theorem faulty_of_op?_eq_none {head : Expr} (h : head.op? = none) (operands : List Expr) :
    Faulty (list (head :: operands)) (invalidOperator head.calledName) := by
  cases head with
  | number x => exact .head (by simp)
  | symbol name =>
    refine .name fun op hop => ?_
    rw [← hop, op?_symbol] at h
    cases h
  | list es => exact .head (by simp)

/-- **Faulty nodes are those that are not well-formed.** -/
theorem Faulty.not_wellFormedNode {t : Expr} {error : Error} (h : Faulty t error) :
    ¬ t.WellFormedNode := by
  intro hnode
  cases h with
  | empty => exact hnode
  | name hname =>
    obtain ⟨op, hop, -⟩ := Option.map_eq_some_iff.1 hnode
    exact hname op (symbol.inj (eq_symbol_of_op? hop)).symm
  | head hhead =>
    obtain ⟨op, hop, -⟩ := Option.map_eq_some_iff.1 hnode
    exact hhead op.symbol (eq_symbol_of_op? hop)
  | arity harity =>
    simp only [WellFormedNode, op?_symbol, Option.map_some, Option.some.injEq] at hnode
    exact harity hnode.symm

/-- **A list has one fault at most.** -/
theorem Faulty.unique {t : Expr} {error error' : Error} (h : Faulty t error)
    (h' : Faulty t error') : error = error' := by
  cases h with
  | empty => cases h'; rfl
  | name hname =>
    cases h' with
    | name _ => rfl
    | head hhead => exact absurd rfl (hhead _)
    | arity _ => exact absurd rfl (hname _)
  | head hhead =>
    cases h' with
    | name _ => exact absurd rfl (hhead _)
    | head _ => rfl
    | arity _ => exact absurd rfl (hhead _)
  | @arity op operands harity =>
    generalize hhead : symbol op.symbol = head at h'
    cases h' with
    | name hname => exact absurd (symbol.inj hhead) (hname op)
    | head hhead' => exact absurd hhead.symm (hhead' _)
    | arity _ =>
      obtain rfl := Op.symbol_injective (symbol.inj hhead)
      rfl

/-! ### The order of the visits -/

/-- The operands that are differentiated along with an application, in turn: from left to right,
except that a product starts with its second factor. -/
def operandsInTurn (e : Expr) : List Expr :=
  if e.head?.bind op? = some .mul then e.differentiatedOperands.reverse
  else e.differentiatedOperands

theorem mem_operandsInTurn {a e : Expr} :
    a ∈ e.operandsInTurn ↔ a ∈ e.differentiatedOperands := by
  unfold operandsInTurn
  split
  · exact List.mem_reverse
  · exact Iff.rfl

theorem height_lt_of_mem_operandsInTurn {a e : Expr} (h : a ∈ e.operandsInTurn) :
    a.height < e.height := by
  have hitem := mem_items_of_mem_differentiatedOperands (mem_operandsInTurn.1 h)
  cases e with
  | number x => cases hitem
  | symbol name => cases hitem
  | list es => exact height_lt_of_mem hitem

/-- **The positions that differentiation visits**, in this order: an expression before its
operands. -/
def visits (e : Expr) : List Expr :=
  e :: e.operandsInTurn.attach.flatMap fun a => visits a.1
termination_by e.height
decreasing_by exact height_lt_of_mem_operandsInTurn a.2

theorem visits_eq (e : Expr) : e.visits = e :: e.operandsInTurn.flatMap visits := by
  rw [visits, List.flatMap_subtype fun _ _ => rfl, List.unattach_attach]

/-- **The visits go to the visited positions**, and to no others. -/
theorem mem_visits_iff {t e : Expr} : t ∈ e.visits ↔ Visited t e := by
  constructor
  · intro h
    fun_induction visits e with
    | case1 e ih =>
      obtain rfl | h := List.mem_cons.1 h
      · exact .root t
      · obtain ⟨⟨a, ha⟩, -, h⟩ := List.mem_flatMap.1 h
        exact .operand (mem_operandsInTurn.1 ha) (ih ⟨a, ha⟩ h)
  · intro h
    induction h with
    | root =>
      rw [visits_eq]
      exact List.mem_cons_self
    | operand ha h ih =>
      rw [visits_eq]
      exact List.mem_cons_of_mem _ (List.mem_flatMap.2 ⟨_, mem_operandsInTurn.2 ha, ih⟩)

/-- **The first fault** in a row of positions. -/
inductive FirstFault : List Expr → Error → Prop
  /-- The first position is at fault. -/
  | here {t : Expr} {ts : List Expr} {error : Error} (h : Faulty t error) :
      FirstFault (t :: ts) error
  /-- The first position is in order, and the fault comes later. -/
  | later {t : Expr} {ts : List Expr} {error : Error} (ht : t.WellFormedNode)
      (h : FirstFault ts error) : FirstFault (t :: ts) error

namespace FirstFault

variable {ts us : List Expr} {error error' : Error}

theorem append_left (h : FirstFault ts error) (us : List Expr) : FirstFault (ts ++ us) error := by
  induction h with
  | here h => exact .here h
  | later ht _ ih => exact .later ht ih

theorem append_right (hts : ∀ t ∈ ts, t.WellFormedNode) (h : FirstFault us error) :
    FirstFault (ts ++ us) error := by
  induction ts with
  | nil => exact h
  | cons t ts ih =>
    obtain ⟨ht, hts⟩ := List.forall_mem_cons.1 hts
    exact .later ht (ih hts)

/-- The position of the first fault is not well-formed. -/
theorem exists_not_wellFormedNode (h : FirstFault ts error) : ∃ t ∈ ts, ¬ t.WellFormedNode := by
  induction h with
  | here h => exact ⟨_, List.mem_cons_self, h.not_wellFormedNode⟩
  | later _ _ ih =>
    obtain ⟨t, ht, hnode⟩ := ih
    exact ⟨t, List.mem_cons_of_mem _ ht, hnode⟩

/-- **There is one first fault.** -/
theorem unique (h : FirstFault ts error) (h' : FirstFault ts error') : error = error' := by
  induction h with
  | here h =>
    cases h' with
    | here h' => exact h.unique h'
    | later ht _ => exact absurd ht h.not_wellFormedNode
  | later ht _ ih =>
    cases h' with
    | here h' => exact absurd ht h'.not_wellFormedNode
    | later _ h' => exact ih h'

end FirstFault

/-! ### What differentiation reports -/

/-- What has a derivative is well-formed at its root, and its operands have derivatives, those
aside that are not differentiated. -/
theorem Derives.root {e d : Expr} (h : Derives v e d) :
    e.WellFormedNode ∧ ∀ a ∈ e.differentiatedOperands, ∃ da, Derives v a da := by
  cases h with
  | number x => exact ⟨trivial, by simp [differentiatedOperands]⟩
  | symbol name => exact ⟨trivial, by simp [differentiatedOperands]⟩
  | add ha hb | sub ha hb | mul ha hb | div ha hb =>
    refine ⟨by simp [binary, WellFormedNode, Op.arity], ?_⟩
    simpa using ⟨⟨_, ha⟩, ⟨_, hb⟩⟩
  | pow ha =>
    refine ⟨by simp [binary, WellFormedNode, Op.arity], ?_⟩
    simpa using ⟨_, ha⟩
  | sin ha | cos ha | tan ha | exp ha | ln ha =>
    refine ⟨by simp [unary, WellFormedNode, Op.arity], ?_⟩
    simpa using ⟨_, ha⟩

/-- **Where there is a derivative, all visited positions are well-formed.** -/
theorem Derives.wellFormedNode {e d t : Expr} (h : Derives v e d) (ht : Visited t e) :
    t.WellFormedNode := by
  induction ht generalizing d with
  | root => exact h.root.1
  | operand ha _ ih =>
    obtain ⟨da, hda⟩ := h.root.2 _ ha
    exact ih hda

/-- A fault of an operand is the first one of the whole if the operands before it have
derivatives. -/
theorem firstFault_of_operand (before : List Expr) {e a : Expr} {after : List Expr} {error : Error}
    (hnode : e.WellFormedNode) (hturn : e.operandsInTurn = before ++ a :: after)
    (hbefore : ∀ b ∈ before, ∃ db, b.derivative v = .ok db) (ha : FirstFault a.visits error) :
    FirstFault e.visits error := by
  rw [visits_eq, hturn, List.flatMap_append, List.flatMap_cons]
  refine .later hnode (.append_right (fun t ht => ?_) (ha.append_left _))
  obtain ⟨b, hb, ht⟩ := List.mem_flatMap.1 ht
  obtain ⟨db, hdb⟩ := hbefore b hb
  exact (derives_of_derivative hdb).wellFormedNode (mem_visits_iff.1 ht)

/-- **Differentiation stops at the first fault** among its visits. -/
theorem firstFault_of_derivative {e : Expr} {error : Error} (h : e.derivative v = .error error) :
    FirstFault e.visits error := by
  fun_induction derivative v e with
  | case1 => cases h
  | case2 => cases h
  | case3 =>
    cases h
    rw [visits_eq]
    exact .here .empty
  | case4 head operands hop =>
    cases h
    rw [visits_eq]
    exact .here (faulty_of_op?_eq_none hop operands)
  | case5 head a b hop iha ihb | case6 head a b hop iha ihb | case8 head a b hop iha ihb =>
    have hnode : (list [head, a, b]).WellFormedNode := by simp [WellFormedNode, hop, Op.arity]
    have hturn : (list [head, a, b]).operandsInTurn = [a, b] := by
      simp [operandsInTurn, head?, items, differentiatedOperands, hop]
    obtain h | ⟨da, hda, h⟩ := bind_eq_error.1 h
    · exact firstFault_of_operand (v := v) [] hnode hturn (by simp) (iha h)
    obtain h | ⟨_, -, h⟩ := bind_eq_error.1 h
    · exact firstFault_of_operand [a] hnode hturn (by simpa using ⟨da, hda⟩) (ihb h)
    · cases h
  | case7 head a b hop ihb iha =>
    -- the second factor is visited first
    have hnode : (list [head, a, b]).WellFormedNode := by simp [WellFormedNode, hop, Op.arity]
    have hturn : (list [head, a, b]).operandsInTurn = [b, a] := by
      simp [operandsInTurn, head?, items, differentiatedOperands, hop]
    obtain h | ⟨db, hdb, h⟩ := bind_eq_error.1 h
    · exact firstFault_of_operand (v := v) [] hnode hturn (by simp) (ihb h)
    obtain h | ⟨_, -, h⟩ := bind_eq_error.1 h
    · exact firstFault_of_operand [b] hnode hturn (by simpa using ⟨db, hdb⟩) (iha h)
    · cases h
  | case9 head a b hop iha =>
    -- the exponent is not visited
    have hnode : (list [head, a, b]).WellFormedNode := by simp [WellFormedNode, hop, Op.arity]
    have hturn : (list [head, a, b]).operandsInTurn = [a] := by
      simp [operandsInTurn, head?, items, differentiatedOperands, hop]
    obtain h | ⟨_, -, h⟩ := bind_eq_error.1 h
    · exact firstFault_of_operand (v := v) [] hnode hturn (by simp) (iha h)
    · cases h
  | case10 head a hop iha | case11 head a hop iha | case12 head a hop iha | case13 head a hop iha
  | case14 head a hop iha =>
    have hnode : (list [head, a]).WellFormedNode := by simp [WellFormedNode, hop, Op.arity]
    have hturn : (list [head, a]).operandsInTurn = [a] := by
      simp [operandsInTurn, head?, items, differentiatedOperands, hop]
    obtain h | ⟨_, -, h⟩ := bind_eq_error.1 h
    · exact firstFault_of_operand (v := v) [] hnode hturn (by simp) (iha h)
    · cases h
  | case15 head op operands hadd hsub hmul hdiv hpow hsin hcos htan hexp hln hop =>
    cases h
    obtain rfl := eq_symbol_of_op? hop
    rw [visits_eq]
    refine .here (.arity fun hlength => ?_)
    -- with as many operands as it takes, a rule would have applied
    cases op with
    | add | sub | mul | div | pow =>
      obtain ⟨a, b, rfl⟩ := List.length_eq_two.1 hlength
      simp_all
    | sin | cos | tan | exp | ln =>
      obtain ⟨a, rfl⟩ := List.length_eq_one_iff.1 hlength
      simp_all

/-- **Differentiation fails exactly at a visited list that is not well-formed, and reports the
first one.** An expression has a derivative if and only if every list that is visited applies an
operator to as many operands as it takes. Otherwise the error is the fault of the first visited
position that has one, in the order of the visits, and it has no span. -/
theorem derivative_reports_first_fault (v : Variable) (e : Expr) :
    ((∃ d, e.derivative v = .ok d) ↔ ∀ t, Visited t e → t.WellFormedNode) ∧
      (∀ error, e.derivative v = .error error ↔ FirstFault e.visits error) ∧
        ∀ t, t ∈ e.visits ↔ Visited t e := by
  have hok : ∀ d, e.derivative v = .ok d → ∀ t, Visited t e → t.WellFormedNode :=
    fun d hd t ht => (derives_of_derivative hd).wellFormedNode ht
  refine ⟨⟨fun ⟨d, hd⟩ => hok d hd, fun hnodes => ?succeeds⟩,
    fun error => ⟨?_, fun hfirst => ?fails⟩, fun t => mem_visits_iff⟩
  case succeeds =>
    cases he : e.derivative v with
    | ok d => exact ⟨d, rfl⟩
    | error error =>
      obtain ⟨t, ht, hnode⟩ := (firstFault_of_derivative he).exists_not_wellFormedNode
      exact absurd (hnodes t (mem_visits_iff.1 ht)) hnode
  · exact firstFault_of_derivative
  case fails =>
    cases he : e.derivative v with
    | ok d =>
      obtain ⟨t, ht, hnode⟩ := hfirst.exists_not_wellFormedNode
      exact absurd (hok d he t (mem_visits_iff.1 ht)) hnode
    | error error' => rw [(firstFault_of_derivative he).unique hfirst]

/-- Of two factors that are at fault, the second is reported. -/
example :
    (binary .mul (list [symbol "sin"]) (list [symbol "foo", symbol "x"])).derivative .any =
      .error ⟨.invalidOperator "foo" [], []⟩ := by
  decide +kernel

end Expr

end FormalCalculus
