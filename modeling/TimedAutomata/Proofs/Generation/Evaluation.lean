import TimedAutomata.Proofs.Generation.Meaning
import TimedAutomata.Proofs.Guard.Printing

/-!
# Evaluating generated code

The conditions that a worker evaluates mean what they were made from, and the statements of a
worker can be executed one by one.

* `le_binding_ofGuardAt`: the parentheses of a guard are where Go needs them
* `eval_ofGuardAt`: a guard has the value it has in the automaton
* `eval_ready`: a channel is ready if a communication on it goes through
* `execAll_append`: statements after statements
* `execCases_number`, `execCases_text`: the case that a value selects
-/

namespace TimedAutomata
namespace Generation

variable {call : Call} {m : Machine}

-- evaluation and execution follow the shape of the tree
attribute [local simp] Expr.eval Expr.evalAll Stmt.exec Stmt.execAll Stmt.execCases

/-! ## Guards -/

theorem binding_ofTerm (t : Term) : (Expr.ofTerm t).binding = 7 := by
  cases t with
  | clock => rfl
  | number n =>
    have hn : ¬ (n : Int) < 0 := by omega
    simp [Expr.ofTerm, Expr.binding, hn]

theorem binding_operatorOf (r : Relation) : (operatorOf r).binding = 3 := by
  cases r <;> rfl

theorem le_binding_parenthesized {least : Nat} (hleast : least ≤ 3) {wrap : Bool} {e : Expr}
    (h : wrap = false → least ≤ e.binding) : least ≤ (parenthesized wrap e).binding := by
  cases wrap with
  | false => exact h rfl
  | true => exact Nat.le_trans hleast (show 3 ≤ 7 by decide)

/-- The parentheses of a guard keep its parts together. -/
theorem le_binding_ofGuardAt {least : Nat} (hleast : least ≤ 3) (g : Guard.Expr) :
    least ≤ (Expr.ofGuardAt least g).binding := by
  unfold Expr.ofGuardAt
  refine le_binding_parenthesized hleast fun hwrap => ?_
  have hprec : least ≤ g.precedence := by simpa using hwrap
  cases g with
  | const b => cases b <;> exact Nat.le_trans hleast (show 3 ≤ 7 by decide)
  | compare r left right => simpa [Expr.binding, binding_operatorOf] using hleast
  | not inner => cases inner <;> exact Nat.le_trans hleast (show 3 ≤ 6 by decide)
  | and left right => exact hprec
  | or left right => exact hprec

theorem eval_parenthesized (wrap : Bool) (e : Expr) :
    (parenthesized wrap e).eval call m = e.eval call m := by
  cases wrap <;> simp [parenthesized]

theorem eval_ordinal {n : Nat} (hn : n < 2 ^ 63) : (Expr.int n).eval call m = .ret (.int n) := by
  have hfits : fits n = true := by
    simp only [fits, Bool.and_eq_true, decide_eq_true_eq]
    omega
  simp [hfits]

theorem eval_ofTerm {x : Nat} (hx : m.read "x" = .ret (.int x)) {t : Term} (ht : t.Bounded) :
    (Expr.ofTerm t).eval call m = .ret (.int (t.value x)) := by
  cases t with
  | clock => simpa [Expr.ofTerm, Term.value] using hx
  | number n =>
    have hn : n ≤ 2 ^ 63 - 1 := ht
    exact eval_ordinal (by omega)

theorem apply_operatorOf (r : Relation) (a b : Nat) :
    (operatorOf r).apply a b = some (.bool (r.holds a b)) := by
  have heq : ((a : Int) == (b : Int)) = (a == b) := by
    rw [Bool.eq_iff_iff, beq_iff_eq, beq_iff_eq]
    omega
  cases r <;> simp [operatorOf, Operator.apply, Relation.holds, bne, heq]

theorem eval_binary {op : Operator} {left right : Expr} (hleft : op.binding ≤ left.binding)
    (hright : op.binding < right.binding) {a b : Int} {v : Value}
    (hl : left.eval call m = .ret (.int a)) (hr : right.eval call m = .ret (.int b))
    (happly : op.apply a b = some v) : (Expr.binary op left right).eval call m = .ret v := by
  have hgrouped : (left.binding < op.binding || right.binding ≤ op.binding) = false := by
    simpa using ⟨hleft, hright⟩
  simp [hgrouped, hl, hr, happly]

theorem eval_and {left right : Expr} (hleft : 2 ≤ left.binding) (hright : 2 < right.binding)
    {a b : Bool} (hl : left.eval call m = .ret (.bool a))
    (hr : a = true → right.eval call m = .ret (.bool b)) :
    (Expr.binary .and left right).eval call m = .ret (.bool (a && b)) := by
  have hgrouped : (left.binding < Operator.and.binding ||
      right.binding ≤ Operator.and.binding) = false := by
    simp only [Bool.or_eq_false_iff, decide_eq_false_iff_not]
    exact ⟨Nat.not_lt.2 hleft, Nat.not_le.2 hright⟩
  cases a with
  | false => simp [hgrouped, hl]
  | true => simp [hgrouped, hl, hr, Value.checked]

theorem eval_or {left right : Expr} (hleft : 1 ≤ left.binding) (hright : 1 < right.binding)
    {a b : Bool} (hl : left.eval call m = .ret (.bool a))
    (hr : a = false → right.eval call m = .ret (.bool b)) :
    (Expr.binary .or left right).eval call m = .ret (.bool (a || b)) := by
  have hgrouped : (left.binding < Operator.or.binding ||
      right.binding ≤ Operator.or.binding) = false := by
    simp only [Bool.or_eq_false_iff, decide_eq_false_iff_not]
    exact ⟨Nat.not_lt.2 hleft, Nat.not_le.2 hright⟩
  cases a with
  | false => simp [hgrouped, hl, hr, Value.checked]
  | true => simp [hgrouped, hl]

theorem eval_not {inner : Expr} (hbinding : 6 ≤ inner.binding) {b : Bool}
    (h : inner.eval call m = .ret (.bool b)) :
    (Expr.not inner).eval call m = .ret (.bool !b) := by
  have hgrouped : ¬ inner.binding < 6 := by omega
  simp [hgrouped, h]

/-- The names that a guard uses have their usual meaning. -/
structure Reads (m : Machine) (x : Nat) : Prop where
  clock : m.read "x" = .ret (.int x)
  yes : m.read "true" = .ret (.bool true)
  no : m.read "false" = .ret (.bool false)

/-- A guard in a worker has the value that it has in the automaton. -/
theorem eval_ofGuardAt {x : Nat} (hm : Reads m x) {g : Guard.Expr} (hg : g.Bounded)
    (least : Nat) : (Expr.ofGuardAt least g).eval call m = .ret (.bool (g.holds x)) := by
  have hconst : ∀ b least, (Expr.ofGuardAt least (.const b)).eval call m = .ret (.bool b) := by
    intro b least
    cases b with
    | false =>
      rw [Expr.ofGuardAt, eval_parenthesized]
      simpa using hm.no
    | true =>
      rw [Expr.ofGuardAt, eval_parenthesized]
      simpa using hm.yes
  have hparen : ∀ e : Expr, 6 ≤ (Expr.paren e).binding :=
    fun _ => (show 6 ≤ 7 by decide)
  induction g generalizing least with
  | const b => exact hconst b least
  | compare r left right =>
    rw [Expr.ofGuardAt, eval_parenthesized]
    refine eval_binary ?_ ?_ (eval_ofTerm hm.clock hg.1) (eval_ofTerm hm.clock hg.2)
      (apply_operatorOf r _ _)
    · rw [binding_operatorOf, binding_ofTerm]
      decide
    · rw [binding_operatorOf, binding_ofTerm]
      decide
  | not inner ih =>
    -- only a constant stands behind `!` without parentheses
    cases inner with
    | const b =>
      rw [Expr.ofGuardAt, eval_parenthesized]
      refine eval_not ?_ (hconst b 0)
      cases b <;> exact (show 6 ≤ 7 by decide)
    | compare | not | and | or =>
      rw [Expr.ofGuardAt, eval_parenthesized]
      · refine eval_not (hparen _) ?_
        simpa using ih hg 0
      · simp
  | and left right ihl ihr =>
    rw [Expr.ofGuardAt, eval_parenthesized]
    exact eval_and (le_binding_ofGuardAt (by decide) left) (le_binding_ofGuardAt (by decide) right)
      (ihl hg.1 2) fun _ => ihr hg.2 3
  | or left right ihl ihr =>
    rw [Expr.ofGuardAt, eval_parenthesized]
    exact eval_or (le_binding_ofGuardAt (by decide) left) (le_binding_ofGuardAt (by decide) right)
      (ihl hg.1 1) fun _ => ihr hg.2 2

/-! ## Channels -/

/-- Under the name `name` the machine finds a channel with `level` messages. -/
structure Machine.Shows (m : Machine) (name : String) (level : Nat) : Prop where
  visible : m.vars.lookup name = none
  channel : m.channels name = some level

theorem Machine.Shows.read {name : String} {level : Nat} (h : m.Shows name level) :
    m.read name = .ret (.channel name) := by
  simp [Machine.read, h.visible, h.channel]

theorem eval_len {name : String} {level : Nat} (h : m.Shows name level) :
    (Expr.call "len" [.name name]).eval goCall m = .ret (.int level) := by
  simp [h.read, goCall_of_ne, builtin, h.channel]

theorem eval_cap {name : String} {level : Nat} (h : m.Shows name level) :
    (Expr.call "cap" [.name name]).eval goCall m = .ret (.int m.depth) := by
  simp [h.read, goCall_of_ne, builtin, h.channel]

/-- A channel is ready in the worker if a communication on it goes through. -/
theorem eval_ready {name : String} {level : Nat} (h : m.Shows name level) (d : Direction) :
    (ready d name).eval goCall m = .ret (.bool (m.allows d level)) := by
  cases d with
  | send =>
    refine eval_binary ?_ ?_ (eval_len h) (eval_cap h) ?_
    · simp [Operator.binding, Expr.binding]
    · simp [Operator.binding, Expr.binding]
    · simp [Operator.apply, Machine.allows]
  | receive =>
    have hzero : (Expr.int 0).eval goCall m = .ret (.int 0) := by simp [fits]
    refine eval_binary ?_ ?_ (eval_len h) hzero ?_
    · simp [Operator.binding, Expr.binding]
    · simp [Operator.binding, Expr.binding]
    · simp [Operator.apply, Machine.allows]

theorem binding_ready (d : Direction) (name : String) : (ready d name).binding = 3 := by
  cases d <;> rfl

/-- A transition is enabled in the worker if its guard holds and its channel is ready. -/
theorem eval_enabledEntry {x : Nat} (hm : Reads m x) {p : Program} {aid : AutomatonId}
    {tid : TransitionId} {t : Transition} (ht : t.guard.expr.Bounded) {name : String} {level : Nat}
    (hname : channelName? p aid tid = some name) (h : m.Shows name level) :
    (enabledEntry p aid (tid, t)).eval goCall m =
      .ret (.bool (t.guard.holds x && m.allows t.comm.direction level)) := by
  have hguard : (Expr.paren (.ofGuard t.guard.expr)).eval goCall m =
      .ret (.bool (t.guard.holds x)) := by
    simpa [Expr.ofGuard, Guard.holds] using eval_ofGuardAt hm ht 0
  have hleft : 2 ≤ (Expr.paren (.ofGuard t.guard.expr)).binding := by simp [Expr.binding]
  have hright : 2 < (ready t.comm.direction name).binding := by simp [binding_ready]
  simp only [enabledEntry, hname]
  exact eval_and hleft hright hguard fun _ => eval_ready h t.comm.direction

/-! ## Statements -/

section

variable {condition : Expr} {body ss : List Stmt} {s : Stmt} {m' : Machine}

theorem execAll_cons_on (h : s.exec call m = .ret (.on, m')) :
    Stmt.execAll call m (s :: ss) = Stmt.execAll call m' ss := by
  simp [h]

theorem execAll_cons_back {v : Option Value} (h : s.exec call m = .ret (.back v, m')) :
    Stmt.execAll call m (s :: ss) = .ret (.back v, m') := by
  simp [h]

theorem exec_when_true (h : condition.eval call m = .ret (.bool true)) {flow : Flow}
    (hbody : Stmt.execAll call m body = .ret (flow, m')) :
    (Stmt.when condition body).exec call m = .ret (flow, m.leave m') := by
  simp [h, hbody]

theorem exec_when_false (h : condition.eval call m = .ret (.bool false)) :
    (Stmt.when condition body).exec call m = .ret (.on, m) := by
  simp [h]

theorem exec_giveBack {value : Expr} {v : Value} (h : value.eval call m = .ret v) :
    (Stmt.giveBack (some value)).exec call m = .ret (.back (some v), m) := by
  simp [h]

end

@[simp] theorem Machine.read_define_self (name : String) (v : Value) :
    (m.define name v).read name = .ret v := by
  simp [Machine.read, Machine.define]

theorem Machine.read_define_of_ne {name id : String} (h : id ≠ name) (v : Value) :
    (m.define name v).read id = m.read id := by
  have hbeq : (id == name) = false := by simpa using h
  simp [Machine.read, Machine.define, List.lookup_cons, hbeq]

/-- What a block defines is not seen after it. -/
@[simp] theorem Machine.leave_define (name : String) (v : Value) :
    m.leave (m.define name v) = m := by
  simp [Machine.leave, Machine.define]

@[simp] theorem Machine.leave_self : m.leave m = m := by
  simp [Machine.leave]

theorem execAll_append (ss ts : List Stmt) :
    Stmt.execAll call m (ss ++ ts) = (Stmt.execAll call m ss).andThen fun
      | (.on, m) => Stmt.execAll call m ts
      | (.back v, m) => .ret (.back v, m) := by
  induction ss generalizing m with
  | nil => simp
  | cons s ss ih =>
    simp only [List.cons_append, Stmt.execAll, Runs.andThen_assoc]
    congr 1
    funext next
    rcases next with ⟨flow, m⟩
    cases flow with
    | on => exact ih
    | back v => simp

/-! ## Cases -/

section

variable {call : Call} {m : Machine} {label : Expr} {body : List Stmt} {cases : List Case}

/-- A block of statements, and what remains after it. -/
def block (call : Call) (m : Machine) (body : List Stmt) : Runs (Flow × Machine) :=
  (Stmt.execAll call m body).andThen fun (flow, inner) => .ret (flow, m.leave inner)

theorem execCases_here {v : Value} (h : label.eval call m = .ret v) :
    Stmt.execCases call m v (.mk [label] body :: cases) = block call m body := by
  simp [h, block]

theorem execCases_skip {v w : Value} (h : label.eval call m = .ret w) (hne : v ≠ w) :
    Stmt.execCases call m v (.mk [label] body :: cases) = Stmt.execCases call m v cases := by
  simp [h, hne]

variable {α : Type}

/-- Among cases for consecutive numbers, a number selects its own. -/
theorem execCases_number {xs : List α} {body : α × Nat → List Stmt} {first i : Nat} {x : α}
    (hx : xs[i]? = some x) (hsize : first + xs.length ≤ 2 ^ 63) :
    Stmt.execCases call m (.int (first + i : Nat))
      ((xs.zipIdx first).map fun y => .mk [.int y.2] (body y)) =
      block call m (body (x, first + i)) := by
  induction xs generalizing first i with
  | nil => simp at hx
  | cons y xs ih =>
    rw [List.length_cons] at hsize
    have hlabel : (Expr.int first).eval call m = .ret (.int first) := eval_ordinal (by omega)
    rw [List.zipIdx_cons, List.map_cons]
    cases i with
    | zero =>
      obtain rfl : y = x := by simpa using hx
      exact execCases_here hlabel
    | succ i =>
      have hne : Value.int (first + (i + 1) : Nat) ≠ .int first := by
        intro h
        have := Value.int.inj h
        omega
      have hnext : first + (i + 1) = first + 1 + i := by omega
      rw [execCases_skip hlabel hne, hnext]
      exact ih (by simpa using hx) (by omega)

/-- No case is for a negative number. -/
theorem execCases_minusOne {xs : List α} {body : α × Nat → List Stmt} {first : Nat}
    (hsize : first + xs.length ≤ 2 ^ 63) :
    Stmt.execCases call m (.int (-1))
      ((xs.zipIdx first).map fun y => .mk [.int y.2] (body y)) = .ret (.on, m) := by
  induction xs generalizing first with
  | nil => rfl
  | cons y xs ih =>
    rw [List.length_cons] at hsize
    have hlabel : (Expr.int first).eval call m = .ret (.int first) := eval_ordinal (by omega)
    have hne : Value.int (-1) ≠ .int first := by
      intro h
      have := Value.int.inj h
      omega
    rw [List.zipIdx_cons, List.map_cons, execCases_skip hlabel hne]
    exact ih (by omega)

/-- Among cases for different texts, a text selects its own. -/
theorem execCases_text {xs : List α} {text : α → String} {body : α → List Stmt}
    (hplain : ∀ x ∈ xs, isPlain (text x) = true) (hnodup : (xs.map text).Nodup) {x : α}
    (hx : x ∈ xs) (more : List Case) :
    Stmt.execCases call m (.string (text x))
      ((xs.map fun y => .mk [.string (text y)] (body y)) ++ more) = block call m (body x) := by
  induction xs with
  | nil => simp at hx
  | cons y xs ih =>
    rw [List.forall_mem_cons] at hplain
    rw [List.map_cons, List.nodup_cons] at hnodup
    have hlabel : (Expr.string (text y)).eval call m = .ret (.string (text y)) := by
      simp [hplain.1]
    rw [List.map_cons, List.cons_append]
    rcases List.mem_cons.1 hx with rfl | hx
    · exact execCases_here hlabel
    · have hne : Value.string (text x) ≠ .string (text y) := by
        intro h
        rw [← Value.string.inj h] at hnodup
        exact hnodup.1 (List.mem_map_of_mem hx)
      rw [execCases_skip hlabel hne]
      exact ih hplain.2 hnodup.2 hx

end

end Generation
end TimedAutomata
