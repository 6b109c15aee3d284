import TimedAutomata.Proofs.Arbiter.Decision
import TimedAutomata.Proofs.Generation.Evaluation

/-!
# Choosing in a worker

A worker goes through the tiers of an arbiter until one of them chooses. What it can choose is what
the arbiter can choose.

* `iterate_until`, `iterate_collect`: the two loops of the helpers
* `run_pickFirst`, `run_pickRandom`: what the helpers give
* `Locals`: the variables of a worker
* `execAll_pick`: the choice of all tiers together
-/

namespace TimedAutomata
namespace Generation

/-- A decision as a worker keeps it: an ordinal, or `-1`. -/
def decisionNumber : Option Nat → Int
  | none => -1
  | some i => i

/-! ## Loops -/

/-- A loop that looks for a number gives back the first one. -/
theorem iterate_until {step : Int → Machine → Runs (Flow × Machine)} {m : Machine}
    {found : Nat → Bool} {is : List Nat}
    (h : ∀ i ∈ is, step i m =
      if found i then .ret (.back (some (.int i)), m) else .ret (.on, m)) :
    iterate step (is.map Nat.cast) m =
      match is.filter found with
      | i :: _ => .ret (.back (some (.int i)), m)
      | [] => .ret (.on, m) := by
  induction is with
  | nil => rfl
  | cons i is ih =>
    rw [List.forall_mem_cons] at h
    rw [List.map_cons, iterate, h.1]
    cases hi : found i with
    | true => simp [hi]
    | false => simpa [hi] using ih h.2

/-- A loop that collects numbers in a list ends with those that were to be collected. -/
theorem iterate_collect {step : Int → Machine → Runs (Flow × Machine)}
    {M : List Int → Machine} {wanted : Nat → Bool} {is : List Nat}
    (h : ∀ i ∈ is, ∀ live, step i (M live) =
      .ret (.on, M (if wanted i then live ++ [(i : Int)] else live))) (live : List Int) :
    iterate step (is.map Nat.cast) (M live) =
      .ret (.on, M (live ++ (is.filter wanted).map Nat.cast)) := by
  induction is generalizing live with
  | nil => simp [iterate]
  | cons i is ih =>
    rw [List.forall_mem_cons] at h
    rw [List.map_cons, iterate, h.1 live]
    cases hi : wanted i with
    | true => simpa [hi] using ih h.2 (live ++ [(i : Int)])
    | false => simpa [hi] using ih h.2 live

/-! ## Helpers -/

section

variable {m : Machine} {mask : List Bool} {is : List Nat}

theorem eval_minusOne (call : Call) (m : Machine) :
    (Expr.int (-1)).eval call m = .ret (.int (-1)) := by
  simp [Expr.eval, fits]

theorem parameters_pickFirst :
    pickFirst.parameters = [("enabled", false), ("candidates", true)] := by
  decide +kernel

theorem parameters_pickRandom : pickRandom.parameters =
    [("rng", false), ("enabled", false), ("candidates", true)] := by
  decide +kernel

theorem numbers?_map_int (is : List Nat) :
    numbers? (is.map fun i : Nat => .int i) = some (is.map Nat.cast) := by
  induction is with
  | nil => rfl
  | cons i is ih => simp [numbers?, ih]

/-- Inside the loops of the helpers, a flag of the mask. -/
theorem eval_isEnabled {i : Nat} (hi : i < mask.length)
    (hmask : m.read "enabled" = .ret (.bools mask)) :
    isEnabled.eval builtin (m.define "c" (.int i)) = .ret (.bool (mask.getD i false)) := by
  have hread : (m.define "c" (.int i)).read "enabled" = .ret (.bools mask) := by
    rw [Machine.read_define_of_ne (by decide), hmask]
  simp [isEnabled, Expr.eval, Expr.binding, hread, hi]

theorem exec_search (his : ∀ i ∈ is, i < mask.length)
    (hmask : m.read "enabled" = .ret (.bools mask))
    (hlist : m.read "candidates" = .ret (.ints (is.map Nat.cast))) :
    (Stmt.forEach "c" "candidates" [.when isEnabled [.giveBack (some (.name "c"))]]).exec builtin
      m =
      match is.filter fun i => mask.getD i false with
      | i :: _ => .ret (.back (some (.int i)), m)
      | [] => .ret (.on, m) := by
  simp only [Stmt.exec, hlist, Runs.ret_andThen]
  apply iterate_until
  intro i hi
  have hflag := eval_isEnabled (his i hi) hmask
  have hc : (Expr.name "c").eval builtin (m.define "c" (.int i)) = .ret (.int i) := by
    simp [Expr.eval]
  cases hb : mask.getD i false with
  | true =>
    rw [hb] at hflag
    rw [execAll_cons_back (exec_when_true hflag (execAll_cons_back (exec_giveBack hc)))]
    simp
  | false =>
    rw [hb] at hflag
    rw [execAll_cons_on (exec_when_false hflag), Stmt.execAll]
    simp

theorem exec_collect (his : ∀ i ∈ is, i < mask.length)
    (hmask : m.read "enabled" = .ret (.bools mask))
    (hlist : m.read "candidates" = .ret (.ints (is.map Nat.cast))) :
    (Stmt.forEach "c" "candidates"
      [.when isEnabled [.assign "live" (.call "append" [.name "live", .name "c"])]]).exec builtin
        (m.define "live" (.ints [])) =
      .ret (.on, m.define "live"
        (.ints ((is.filter fun i => mask.getD i false).map Nat.cast))) := by
  have hread : (m.define "live" (.ints [])).read "candidates" = .ret (.ints (is.map Nat.cast)) := by
    rw [Machine.read_define_of_ne (by decide), hlist]
  simp only [Stmt.exec, hread, Runs.ret_andThen]
  refine iterate_collect (M := fun live => m.define "live" (.ints live)) ?_ []
  intro i hi live
  have henabled : (m.define "live" (.ints live)).read "enabled" = .ret (.bools mask) := by
    rw [Machine.read_define_of_ne (by decide), hmask]
  have hflag := eval_isEnabled (his i hi) henabled
  have happend : (Stmt.assign "live" (.call "append" [.name "live", .name "c"])).exec builtin
      ((m.define "live" (.ints live)).define "c" (.int i)) =
        .ret (.on, (m.define "live" (.ints (live ++ [(i : Int)]))).define "c" (.int i)) := by
    simp [Stmt.exec, Expr.eval, Expr.evalAll, Machine.read, builtin, Machine.assign,
      Machine.define, Machine.assigned, List.lookup_cons, Value.alike]
  cases hb : mask.getD i false with
  | true =>
    rw [hb] at hflag
    rw [execAll_cons_on (exec_when_true hflag (execAll_cons_on happend)), Stmt.execAll]
    simp [Machine.leave, Machine.define]
  | false =>
    rw [hb] at hflag
    rw [execAll_cons_on (exec_when_false hflag), Stmt.execAll]
    simp

/-- Over all positions of a list, the results for its members. -/
theorem flatMap_range_getElem? {α β : Type} (xs : List α) (f : α → List β) (other : List β) :
    ((List.range xs.length).flatMap fun k => (xs[k]?.map f).getD other) = xs.flatMap f := by
  induction xs with
  | nil => rfl
  | cons x xs ih =>
    rw [List.length_cons, List.range_succ_eq_map, List.flatMap_cons, List.flatMap_map]
    simpa using ih

theorem eval_length (hlive : m.read "live" = .ret (.ints (is.map Nat.cast))) :
    (Expr.call "len" [.name "live"]).eval builtin m = .ret (.int is.length) := by
  simp [Expr.eval, Expr.evalAll, hlive, builtin]

/-- A member of a list at a random position. -/
theorem eval_anyOf (hrng : m.vars.lookup "rng" = some .generator) (hpos : is ≠ [])
    (hlive : m.read "live" = .ret (.ints (is.map Nat.cast))) :
    (Expr.index (.name "live") (.call "rng.Intn" [.call "len" [.name "live"]])).eval builtin m =
      is.map fun i : Nat => .ok (.int i) := by
  have hlength : 0 < is.length := List.length_pos_iff.2 hpos
  have hdraw : (Expr.call "rng.Intn" [.call "len" [.name "live"]]).eval builtin m =
      (List.range is.length).map fun k : Nat => .ok (.int k) := by
    rw [Expr.eval, Expr.evalAll, eval_length hlive]
    simp [Expr.evalAll, builtin, hrng, hlength]
  have hmember : ∀ k : Nat, (if (0 : Int) ≤ k then
      (((is.map Nat.cast)[(k : Int).toNat]?.map fun n : Int => Runs.ret (.int n)).getD
        (.trap .panic)) else .trap .panic) =
      (is[k]?.map fun i : Nat => Runs.ret (Value.int i)).getD (.trap .panic) := by
    intro k
    simp [Function.comp_def]
  rw [Expr.eval, hdraw, Expr.eval, hlive, Runs.ret_andThen, Runs.map_ok_andThen]
  simp only [hmember, Expr.binding, Nat.lt_irrefl, if_false]
  rw [flatMap_range_getElem?]
  exact List.map_eq_flatMap.symm

/-- The first enabled candidate, or `-1`. -/
theorem run_pickFirst (his : ∀ i ∈ is, i < mask.length) :
    pickFirst.run (.bools mask :: is.map fun i : Nat => .int i) =
      .ret (.int (decisionNumber (is.filter fun i => mask.getD i false).head?)) := by
  have hbind : bind? pickFirst.parameters (.bools mask :: is.map fun i : Nat => .int i) =
      some [("enabled", .bools mask), ("candidates", .ints (is.map Nat.cast))] := by
    simp [parameters_pickFirst, bind?, numbers?_map_int]
  have hloop := exec_search his (m := .ofVars [("enabled", .bools mask),
    ("candidates", .ints (is.map Nat.cast))]) rfl rfl
  rw [Func.run_eq hbind, pickFirst]
  cases hcand : is.filter fun i => mask.getD i false with
  | nil =>
    rw [hcand] at hloop
    rw [execAll_cons_on hloop, execAll_cons_back (exec_giveBack (eval_minusOne _ _))]
    simp [decisionNumber, Flow.result]
  | cons i rest =>
    rw [hcand] at hloop
    rw [execAll_cons_back hloop]
    simp [decisionNumber, Flow.result]

/-- Any of the enabled candidates, or `-1`. -/
theorem run_pickRandom (his : ∀ i ∈ is, i < mask.length) :
    pickRandom.run (.generator :: .bools mask :: is.map fun i : Nat => .int i) =
      match is.filter fun i => mask.getD i false with
      | [] => .ret (.int (-1))
      | live => live.map fun i : Nat => .ok (.int i) := by
  have hbind : bind? pickRandom.parameters
      (.generator :: .bools mask :: is.map fun i : Nat => .int i) = some [("rng", .generator),
        ("enabled", .bools mask), ("candidates", .ints (is.map Nat.cast))] := by
    simp [parameters_pickRandom, bind?, numbers?_map_int]
  have hloop := exec_collect his (m := .ofVars [("rng", .generator), ("enabled", .bools mask),
    ("candidates", .ints (is.map Nat.cast))]) rfl rfl
  have hdeclare : ∀ m, (Stmt.declare "live" "[]int").exec builtin m =
      .ret (.on, m.define "live" (.ints [])) := by
    intro m
    simp [Stmt.exec]
  rw [Func.run_eq hbind, pickRandom]
  simp only
  rw [execAll_cons_on (hdeclare _), execAll_cons_on hloop]
  set m := Machine.ofVars [("rng", .generator), ("enabled", .bools mask),
    ("candidates", .ints (is.map Nat.cast))]
  -- what remains is one test and one draw from the collected candidates
  generalize is.filter (fun i => mask.getD i false) = live
  have hlive : (m.define "live" (.ints (live.map Nat.cast))).read "live" =
      .ret (.ints (live.map Nat.cast)) :=
    Machine.read_define_self ..
  have hempty : (Expr.binary .eq (.call "len" [.name "live"]) (.int 0)).eval builtin
      (m.define "live" (.ints (live.map Nat.cast))) = .ret (.bool ((live.length : Int) == 0)) := by
    have hzero : ∀ m, (Expr.int 0).eval builtin m = .ret (.int 0) := by
      intro m
      simp [Expr.eval, fits]
    refine eval_binary ?_ ?_ (eval_length hlive) (hzero _) ?_
    · simp [Operator.binding, Expr.binding]
    · simp [Operator.binding, Expr.binding]
    · simp [Operator.apply]
  cases live with
  | nil =>
    have hnone := exec_giveBack
      (eval_minusOne builtin (m.define "live" (.ints (([] : List Nat).map Nat.cast))))
    rw [execAll_cons_back (exec_when_true hempty (execAll_cons_back hnone))]
    simp [Flow.result]
  | cons i live =>
    rw [execAll_cons_on (exec_when_false hempty)]
    simp only [Stmt.execAll, Stmt.exec]
    rw [eval_anyOf rfl (by simp) hlive, Runs.andThen_assoc, Runs.andThen_assoc, Runs.map_ok_andThen]
    simp only [Runs.ret_andThen, Flow.result]
    exact List.map_eq_flatMap.symm

end

/-! ## Tiers -/

/-- The variables of a worker in one round of its loop, except for the decision. -/
structure Locals where
  clock : Nat
  now : Int
  epoch : Int
  state : String
  deriving DecidableEq, Repr

/-- The variables in scope, those of the round before those of the function. -/
def Locals.vars (l : Locals) (o : Option Nat) : List (String × Value) :=
  [("choice", .int (decisionNumber o)), ("x", .int l.clock), ("now", .int l.now),
    ("epoch", .int l.epoch), ("state", .string l.state), ("rng", .generator)]

/-- The machine with the variables of a worker that has decided on `o`. -/
def Machine.within (m : Machine) (l : Locals) (o : Option Nat) : Machine :=
  { m with vars := l.vars o }

section

variable {m : Machine} {l : Locals} {mask : List Bool}

/-- The same in the case of a state, where the worker has found out what is enabled. -/
def decided (m : Machine) (l : Locals) (mask : List Bool) (o : Option Nat) : Machine :=
  (m.within l o).define "enabled" (.bools mask)

theorem evalAll_ordinals (call : Call) (m : Machine) {is : List Nat} (his : ∀ i ∈ is, i < 2 ^ 63) :
    Expr.evalAll call m (is.map fun i : Nat => Expr.int i) =
      .ret (is.map fun i : Nat => .int i) := by
  induction is with
  | nil => rfl
  | cons i is ih =>
    rw [List.forall_mem_cons] at his
    simp [Expr.evalAll, eval_ordinal his.1, ih his.2]

theorem eval_choice (o : Option Nat) :
    (Expr.binary .lt (.name "choice") (.int 0)).eval goCall (decided m l mask o) =
      .ret (.bool o.isNone) := by
  have hchoice : (Expr.name "choice").eval goCall (decided m l mask o) =
      .ret (.int (decisionNumber o)) := by
    rw [Expr.eval]
    rfl
  have hzero : (Expr.int 0).eval goCall (decided m l mask o) = .ret (.int 0) := by
    simp [Expr.eval, fits]
  refine eval_binary ?_ ?_ hchoice hzero ?_
  · simp [Operator.binding, Expr.binding]
  · simp [Operator.binding, Expr.binding]
  · cases o with
    | none => simp [Operator.apply, decisionNumber]
    | some i =>
      have hi : ¬ (i : Int) < 0 := by omega
      simp [Operator.apply, decisionNumber, hi]

theorem exec_pick_some (t : Tier) (i : Nat) :
    (pick t).exec goCall (decided m l mask (some i)) = .ret (.on, decided m l mask (some i)) :=
  exec_when_false (eval_choice (some i))

theorem exec_when_choosing {e : Expr} {os : List (Option Nat)}
    (he : e.eval goCall (decided m l mask none) = os.map fun o => .ok (.int (decisionNumber o))) :
    (Stmt.when (.binary .lt (.name "choice") (.int 0)) [.assign "choice" e]).exec goCall
      (decided m l mask none) = os.map fun o => .ok (.on, decided m l mask o) := by
  have hassign : ∀ o, (decided m l mask none).assign "choice" (.int (decisionNumber o)) =
      .ret (decided m l mask o) := by
    intro o
    rfl
  have hleave : ∀ o, (decided m l mask none).leave (decided m l mask o) = decided m l mask o := by
    intro o
    rfl
  simp only [Stmt.exec, Stmt.execAll, eval_choice, he, Runs.ret_andThen, Option.isNone_none,
    Runs.andThen_assoc]
  rw [Runs.map_ok_andThen]
  simp only [hassign, hleave, Runs.ret_andThen]
  exact List.map_eq_flatMap.symm

theorem exec_pick_none {t : Tier} (ht : ∀ i ∈ t.ordinals, i < mask.length)
    (hmask : mask.length ≤ 2 ^ 63) :
    (pick t).exec goCall (decided m l mask none) =
      (Arbiter.choices mask [t]).map fun o => .ok (.on, decided m l mask o) := by
  have hflags : (decided m l mask none).read "enabled" = .ret (.bools mask) := rfl
  have hrng : (decided m l mask none).read "rng" = .ret .generator := rfl
  have hargs := evalAll_ordinals goCall (decided m l mask none) fun i hi =>
    Nat.lt_of_lt_of_le (ht i hi) hmask
  rcases t with ⟨tieBreak, is⟩
  -- no decision yet, so the call of the tier is made
  refine exec_when_choosing ?_
  cases tieBreak with
  | first =>
    simp only [Expr.eval, Expr.evalAll, hflags, hargs, Runs.ret_andThen]
    rw [goCall_pickFirst, run_pickFirst ht, Arbiter.choices, Arbiter.candidates]
    cases is.filter fun i => mask.getD i false <;> simp [Runs.ret, Arbiter.choices]
  | random =>
    simp only [Expr.eval, Expr.evalAll, hflags, hrng, hargs, Runs.ret_andThen]
    rw [goCall_pickRandom, run_pickRandom ht, Arbiter.choices, Arbiter.candidates]
    cases is.filter fun i => mask.getD i false <;> simp [Runs.ret, Arbiter.choices, decisionNumber]

/-- The tiers together allow in a worker what they allow in the arbiter. -/
theorem execAll_pick {ts : List Tier} (hts : ∀ t ∈ ts, ∀ i ∈ t.ordinals, i < mask.length)
    (hmask : mask.length ≤ 2 ^ 63) :
    Stmt.execAll goCall (decided m l mask none) (ts.map pick) =
      (Arbiter.choices mask ts).map fun o => .ok (.on, decided m l mask o) := by
  have hrest : ∀ (ts : List Tier) i, Stmt.execAll goCall (decided m l mask (some i)) (ts.map pick) =
      .ret (.on, decided m l mask (some i)) := by
    intro ts i
    induction ts with
    | nil => simp [Stmt.execAll]
    | cons t ts ih => rw [List.map_cons, execAll_cons_on (exec_pick_some t i), ih]
  induction ts with
  | nil => simp [Stmt.execAll, Arbiter.choices, Runs.ret]
  | cons t ts ih =>
    rw [List.forall_mem_cons] at hts
    rw [List.map_cons, Stmt.execAll, exec_pick_none hts.1 hmask, Runs.map_ok_andThen]
    -- only a tier without enabled members leaves the decision to the next one
    simp only [Arbiter.choices]
    cases hcand : Arbiter.candidates mask t with
    | nil => simpa using ih hts.2
    | cons i is =>
      cases hbreak : t.tieBreak with
      | first => simp [hrest, Runs.ret]
      | random =>
        rw [List.flatMap_map, List.map_map]
        simp only [hrest]
        exact List.map_eq_flatMap.symm

end

end Generation
end TimedAutomata
