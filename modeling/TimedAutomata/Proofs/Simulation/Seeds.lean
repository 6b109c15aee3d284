import TimedAutomata.Proofs.Simulation.Halting

/-!
# What depends on the seed

The seed of an execution decides ties and nothing else. If no state has two transitions of the same
class, but for exclusive ones, no turn ever draws a random word, and executions that differ in
their seeds cannot be told apart.

* `Arbiter.Untied`: no two transitions share a class whose ties are left to chance
* `Arbiter.determined_iff_untied`: this is to say that chance has no tie to break
* `Simulation.Steady`: the words to come do not matter to a part of an execution
* `Simulation.steady_turn`, `Simulation.steady_run`: so it is with turns and runs then
* `Simulation.session`: what calls of ticks and runs return, one after another
* `Simulation.seed_matters_only_for_ties`: what they return under two seeds
-/

namespace TimedAutomata

/-! ## Arbiters without ties -/

namespace Arbiter

variable {a : Arbiter}

/-- Every rank, and the default class, has at most one member. -/
def Untied (a : Arbiter) : Prop :=
  ∀ c, c ≠ .exclusive → a.classes.count c ≤ 1

theorem untied_iff : a.Untied ↔ ∀ c ∈ a.classes, c ≠ .exclusive → a.classes.count c ≤ 1 := by
  constructor
  · intro h c _
    exact h c
  · intro h c
    by_cases hc : c ∈ a.classes
    · exact h c hc
    · simp [List.count_eq_zero.2 hc]

instance (a : Arbiter) : Decidable a.Untied :=
  decidable_of_iff _ untied_iff.symm

theorem length_ordinalsOf (classes : List PriorityClass) (c : PriorityClass) :
    (ordinalsOf classes c).length = classes.count c := by
  have hcount : (classes.zipIdx.map Prod.fst).count c = classes.count c := by
    rw [List.zipIdx_map_fst]
  rw [← hcount, ordinalsOf, List.length_map, ← List.countP_eq_length_filter, List.count,
    List.countP_map]
  exact List.countP_congr fun x _ => by simp

theorem tieBreakOf_eq_random_iff {c : PriorityClass} :
    tieBreakOf c = .random ↔ c ≠ .exclusive := by
  cases c <;> simp [tieBreakOf]

/-- A tier whose ties are left to chance is made of the members of a class that is not exclusive. -/
theorem determined_iff_untied : a.Determined ↔ a.Untied := by
  constructor
  · intro h c hc
    rw [← length_ordinalsOf]
    by_cases hnil : ordinalsOf a.classes c = []
    · simp [hnil]
    · -- a class with a member has a tier
      rcases List.exists_mem_of_ne_nil _ hnil with ⟨i, hi⟩
      have hclass := mem_priorities (List.mem_of_getElem? (mem_ordinalsOf.1 hi))
      have htier : ⟨tieBreakOf c, ordinalsOf a.classes c⟩ ∈ a.tiers :=
        List.mem_filter.2 ⟨List.mem_map_of_mem hclass, by simpa using hnil⟩
      exact Nat.le_of_eq (h _ htier (tieBreakOf_eq_random_iff.2 hc))
  · intro h tier htier hrandom
    have hnonempty : tier.ordinals ≠ [] := by simpa using (List.mem_filter.1 htier).2
    rcases exists_class_of_mem_tiers htier with ⟨c, rfl⟩
    have hone := h c (tieBreakOf_eq_random_iff.1 hrandom)
    rw [← length_ordinalsOf] at hone
    exact Nat.le_antisymm hone (List.length_pos_of_ne_nil hnonempty)

end Arbiter

/-- In no state of the program two transitions share a class, unless it is the exclusive one. -/
def Program.Untied (p : Program) : Prop :=
  ∀ {aid : AutomatonId} {a : Automaton} {sid : StateId} {arbiter : Arbiter},
    p.network[aid]? = some a → sid < a.states.length → p.policy.arbiter? aid sid = some arbiter →
    arbiter.Untied

theorem Program.untied_of_arbiters {p : Program} (h : ∀ x ∈ p.policy.arbiters, x.2.Untied) :
    p.Untied := by
  intro aid a sid arbiter _ _ harbiter
  exact h _ (mem_of_lookup harbiter)

namespace Simulation

variable {p : Program} {s : Simulation} {aid : AutomatonId} {a : Automaton}

/-! ## Executions -/

/-- From `s` on, a part of an execution has the same result whatever words are to come, and leaves
them all to come. -/
def Steady {α : Type} (p : Program) (f : Simulation → Option (Simulation × α))
    (s : Simulation) : Prop :=
  ∃ (after : Simulation) (x : α), after.Placed p ∧
    ∀ source, f (s.withSource source) = some (after.withSource source, x)

section Untied

variable (hp : p.Analyzed) (huntied : p.Untied)
include hp huntied

/-- An automaton is in a state of its own, and there chance has no tie to break. -/
theorem steady_turn (ha : p.network[aid]? = some a) (h : s.Placed p) :
    Steady p (turn p · aid a) s := by
  rcases exists_turn_of_determined p s a fun arbiter harbiter => Arbiter.determined_iff_untied.2
    (huntied ha (h.state ha) harbiter) with ⟨after, event, hturn⟩
  have hafter := h.turn hp ha (hturn s.source)
  exact ⟨after, event, ⟨hafter.runners, hafter.fill, hafter.state, hafter.epoch⟩, hturn⟩

theorem steady_turns {xs : List (Automaton × AutomatonId)}
    (hxs : ∀ x ∈ xs, p.network[x.2]? = some x.1) (h : s.Placed p) :
    Steady p (turns p · xs) s := by
  induction xs generalizing s with
  | nil => exact ⟨s, [], h, fun _ => rfl⟩
  | cons x xs ih =>
    rw [List.forall_mem_cons] at hxs
    rcases steady_turn hp huntied hxs.1 h with ⟨middle, event, hmiddle, hturn⟩
    rcases ih hxs.2 hmiddle with ⟨after, events, hafter, hturns⟩
    refine ⟨after, event.toList ++ events, hafter, fun source => turns_cons_eq_some_iff.2 ?_⟩
    exact ⟨_, event, events, hturn source, hturns source, rfl⟩

theorem steady_tick (h : s.Placed p) : Steady p (tick p) s := by
  rcases steady_turns hp huntied (fun _ hx => List.mk_mem_zipIdx_iff_getElem?.1 hx) h with
    ⟨last, events, hlast, hturns⟩
  exact ⟨{ last with now := last.now + 1 }, events, hlast.time,
    fun source => tick_eq_some_iff.2 ⟨_, hturns source, rfl⟩⟩

theorem steady_run (h : s.Placed p) (limit : Nat) : Steady p (run p limit) s := by
  induction limit generalizing s with
  | zero => exact ⟨s, [], h, fun source => run_zero p _⟩
  | succ limit ih =>
    cases hhalted : s.allHalted with
    | true =>
      exact ⟨s, [], h, fun source => run_of_allHalted (s := s.withSource source) hhalted p _⟩
    | false =>
      rcases steady_tick hp huntied h with ⟨middle, first, hmiddle, htick⟩
      rcases ih hmiddle with ⟨after, more, hafter, hrun⟩
      refine ⟨after, first ++ more, hafter, fun source => ?_⟩
      have hactive : (s.withSource source).allHalted = false := hhalted
      rw [run_of_active hactive, htick source, some_andThen, hrun source, Option.map_some]

end Untied

/-! ## Sessions -/

/-- What can be asked of an execution. -/
inductive Call where
  | tick
  | run (limit : Nat)
  deriving DecidableEq, Repr

/-- What is returned: the steps of a tick, or the report of a run. -/
inductive Answer where
  | steps (steps : List Step)
  | report (report : Report)
  deriving DecidableEq, Repr

def call (p : Program) (s : Simulation) : Call → Option (Simulation × Answer)
  | .tick => (s.tick p).map fun r => (r.1, .steps (steps r.2))
  | .run limit => (s.runReport p limit).map fun r => (r.1, .report r.2)

/-- Calls, one after another: where they lead, and what each of them returns, together with the
states that the automata are in after it. -/
def session (p : Program) :
    Simulation → List Call → Option (Simulation × List (Answer × List (String × String)))
  | s, [] => some (s, [])
  | s, c :: cs => do
    let (s, answer) ← s.call p c
    let (after, log) ← session p s cs
    return (after, (answer, s.states p) :: log)

theorem steady_call (hp : p.Analyzed) (huntied : p.Untied) (h : s.Placed p) (c : Call) :
    Steady p (call p · c) s := by
  cases c with
  | tick =>
    rcases steady_tick hp huntied h with ⟨after, events, hafter, htick⟩
    exact ⟨after, .steps (steps events), hafter, fun source => by simp only [call, htick]; rfl⟩
  | run limit =>
    rcases steady_run hp huntied h limit with ⟨after, events, hafter, hrun⟩
    refine ⟨after, .report (.of s after events), hafter, fun source => ?_⟩
    simp only [call, runReport, hrun]
    rfl

theorem steady_session (hp : p.Analyzed) (huntied : p.Untied) (h : s.Placed p)
    (cs : List Call) : Steady p (session p · cs) s := by
  induction cs generalizing s with
  | nil => exact ⟨s, [], h, fun _ => rfl⟩
  | cons c cs ih =>
    rcases steady_call hp huntied h c with ⟨middle, answer, hmiddle, hcall⟩
    rcases ih hmiddle with ⟨after, log, hafter, hsession⟩
    refine ⟨after, (answer, middle.states p) :: log, hafter, fun source => ?_⟩
    simp only [session, hcall source, Option.bind_eq_bind, Option.bind_some, hsession source]
    rfl

/-- The seed matters only for ties. Let an analysed program have no state in which two transitions
share a rank or are both of the default class. Then calls of ticks and runs return, and the same
calls return the same steps and reports under any two seeds, with the automata in the same states
after each of them; in the end the two executions differ in the words to come and in nothing else,
and none of these words has been drawn. -/
theorem seed_matters_only_for_ties {text : String} {c : Config} (h : analyze text c = .ok p)
    (huntied : p.Untied) (depth : Nat) (seed seed' : UInt64) (calls : List Call) :
    ∃ one other log, session p (start p ⟨depth, seed⟩) calls = some (one, log) ∧
      session p (start p ⟨depth, seed'⟩) calls = some (other, log) ∧
      one.states p = other.states p ∧
      one.source = .ofSeed seed ∧ other = one.withSource (.ofSeed seed') := by
  have hp := analyzed_of_analyze h
  rcases steady_session hp huntied (placed_start hp ⟨depth, seed⟩) calls with
    ⟨after, log, -, hsession⟩
  have hstart : ∀ seed', (start p ⟨depth, seed⟩).withSource (.ofSeed seed') =
      start p ⟨depth, seed'⟩ := fun _ => rfl
  have hstates : ∀ source, (after.withSource source).states p = after.states p := fun _ => rfl
  have hone := hsession (.ofSeed seed)
  have hother := hsession (.ofSeed seed')
  rw [hstart] at hone hother
  exact ⟨after.withSource (.ofSeed seed), after.withSource (.ofSeed seed'), log, hone, hother,
    by rw [hstates, hstates], rfl, rfl⟩

/-- Two exclusive transitions can be taken in the first tick, and are no tie for chance. -/
theorem seed_matters_only_for_ties_exclusive : ∃ p one log,
    analyze
      "Cta A=Init s;s B!m(x<1)s;s B!n(x<2)s;s B!k()t;Cta B=Init u;u A?m()u;u A?n()u;u A?k()v;"
      ⟨.default, [⟨"A", "s", [⟨0, .exclusive, none⟩, ⟨1, .exclusive, none⟩, ⟨2, .default, none⟩]⟩,
        ⟨"B", "u", [⟨0, .ranked, some 2⟩, ⟨1, .exclusive, none⟩, ⟨2, .default, none⟩]⟩]⟩ = .ok p ∧
    p.Untied ∧
    session p (start p ⟨1, 7⟩) [.tick, .run 1, .run 9] = some (one, log) ∧
    session p (start p ⟨1, 8⟩) [.tick, .run 1, .run 9] = some (one.withSource (.ofSeed 8), log) ∧
    log.map Prod.snd =
      [[("A", "s"), ("B", "u")], [("A", "s"), ("B", "u")], [("A", "t"), ("B", "v")]] ∧
    one.now = 4 := by
  rcases Fallible.exists_ok_of_any
    (x := analyze
      "Cta A=Init s;s B!m(x<1)s;s B!n(x<2)s;s B!k()t;Cta B=Init u;u A?m()u;u A?n()u;u A?k()v;"
      ⟨.default, [⟨"A", "s", [⟨0, .exclusive, none⟩, ⟨1, .exclusive, none⟩, ⟨2, .default, none⟩]⟩,
        ⟨"B", "u", [⟨0, .ranked, some 2⟩, ⟨1, .exclusive, none⟩, ⟨2, .default, none⟩]⟩]⟩)
    (P := fun p => (∀ x ∈ p.policy.arbiters, x.2.Untied) ∧
      ∃ x ∈ (start p ⟨1, 7⟩).tick p, x.1.allHalted = false ∧
        x.1.states p = [("A", "s"), ("B", "u")] ∧
      ∃ y ∈ x.1.tick p, y.1.allHalted = false ∧ y.1.states p = [("A", "s"), ("B", "u")] ∧
      ∃ z ∈ y.1.tick p, z.1.allHalted = false ∧
      ∃ w ∈ z.1.tick p, w.1.allHalted = true ∧ w.1.states p = [("A", "t"), ("B", "v")])
    (by decide +kernel) with
    ⟨p, hp, harbiters, x, hx, hxactive, hxstates, y, hy, hyactive, hystates, z, hz, hzactive, w,
      hw, hwhalted, hwstates⟩
  have huntied : p.Untied := Program.untied_of_arbiters harbiters
  rw [Option.mem_def] at hx hy hz hw
  have hone : x.1.run p 1 = some y := by
    simp [run_of_active hxactive, hy, some_andThen]
  have htwo : y.1.run p 9 = some (w.1, z.2 ++ w.2) := by
    simp [run_of_active hyactive, hz, run_of_active hzactive, hw, run_of_allHalted hwhalted,
      some_andThen]
  rcases seed_matters_only_for_ties hp huntied 1 7 8 [.tick, .run 1, .run 9] with
    ⟨one, other, log, hsession, hother, -, -, rfl⟩
  refine ⟨p, one, log, hp, huntied, hsession, hother, ?_⟩
  simp only [session, call, hx, runReport, hone, htwo, Option.map_some, Option.bind_eq_bind,
    Option.bind_some, Option.pure_def, Option.some.injEq, Prod.mk.injEq] at hsession
  obtain ⟨rfl, rfl⟩ := hsession
  refine ⟨by simp [hxstates, hystates, hwstates], ?_⟩
  rw [now_tick hw, now_tick hz, now_tick hy, now_tick hx]
  rfl

end Simulation
end TimedAutomata
