import TimedAutomata.Proofs.Arbiter.Decision
import TimedAutomata.Proofs.Simulation.Moves

/-!
# Moments of an execution

An execution goes from turn to turn: every automaton has its turn, in order, then time advances
and the first automaton has its turn again. Between two turns, also in the middle of a tick, the
execution is at a moment, with the transitions taken so far behind it.

* `Simulation.Done`, `Simulation.done_turn`: all that a turn can do, in any program
* `Simulation.Turned`, `Simulation.turned`: all that a turn can do in an analysed program
* `Simulation.Leg`: a transition taken, together with the step that reports it
* `Simulation.Moment`: the moments of an execution, for as long as its turns have results
* `Simulation.moment_ticks`: ticks go from moment to moment and report what was taken
* `Simulation.Moment.exists_of_prefix`: there is a moment after each of the transitions taken
* `Simulation.Placed`: at every moment the automata are in states of theirs and no clock is ahead
  of time
-/

namespace TimedAutomata

/-! ## States of automata -/

namespace Automaton

theorem stateName_eq {a : Automaton} {sid : StateId} {s : State} (hs : a.states[sid]? = some s) :
    a.stateName sid = s.name := by
  simp [stateName, stateName?, hs]

theorem stateName?_of_lt {a : Automaton} {sid : StateId} (h : sid < a.states.length) :
    a.stateName? sid = some (a.stateName sid) := by
  simp [stateName, stateName?, h]

theorem WellFormed.start_eq {a : Automaton} (h : a.WellFormed) {sid : StateId}
    {tid : TransitionId} {t : Transition} (htid : tid ∈ a.outgoing sid)
    (ht : a.transitions[tid]? = some t) : t.start = sid := by
  cases hs : a.states[sid]? with
  | none => simp [Automaton.outgoing, outgoing?, hs] at htid
  | some s =>
    rw [outgoing_eq hs] at htid
    exact h.start_of_mem hs htid ht

end Automaton

namespace Simulation

variable {p : Program} {s : Simulation} {aid : AutomatonId} {a : Automaton}

/-! ## Frames -/

/-- The same execution with other random words to come. -/
def withSource (s : Simulation) (source : Random.Source) : Simulation :=
  { s with source }

@[simp] theorem runner_withSource (source : Random.Source) :
    (s.withSource source).runner aid = s.runner aid := rfl

/-- Only the runner that is set changes. -/
theorem getD_set_runner {runners : List Runner} (h : aid < runners.length) (r : Runner)
    (other : AutomatonId) :
    (runners.set aid r).getD other default =
      if aid = other then r else runners.getD other default := by
  by_cases heq : aid = other
  · subst heq
    simp [h]
  · simp [heq]

/-- The automaton has halted. -/
def halt (s : Simulation) (aid : AutomatonId) : Simulation :=
  { s with runners := s.runners.set aid { s.runner aid with halted := true } }

theorem runner_halt (h : aid < s.runners.length) (other : AutomatonId) :
    (s.halt aid).runner other =
      if aid = other then { s.runner aid with halted := true } else s.runner other :=
  getD_set_runner h _ other

theorem runner_perform (h : aid < s.runners.length) (tid : TransitionId) (t : Transition)
    (other : AutomatonId) :
    (s.perform p aid tid t).runner other =
      if aid = other then
        ⟨t.target, if t.resets then s.now else (s.runner aid).epoch, (s.runner aid).halted⟩
      else s.runner other :=
  getD_set_runner h _ other

/-- Only the channel of the transition changes. -/
theorem fillOf_perform {tid : TransitionId} {t : Transition} {c : ChannelId}
    (hc : p.topology.channelOf? aid tid = some c) (h : c < s.fill.length) (other : ChannelId) :
    (s.perform p aid tid t).fillOf other =
      if c = other then transfer t.comm.direction (s.fillOf c) else s.fillOf other := by
  simp only [perform, hc, fillOf]
  by_cases heq : c = other
  · subst heq
    simp [h]
  · simp [heq]

/-! ## Turns -/

/-- What the clock of an automaton shows. -/
def clock (s : Simulation) (aid : AutomatonId) : Nat :=
  s.now - (s.runner aid).epoch

/-- The transition that an automaton takes in its turn. -/
def choice? (p : Program) (s : Simulation) (aid : AutomatonId) (a : Automaton) :
    Option Transition :=
  let r := s.runner aid
  if r.halted then none
  else do
    let arbiter ← p.policy.arbiter? aid r.state
    let (choice, _) ← arbiter.select (s.enabled p aid a (s.clock aid)) s.source
    let tid ← (a.outgoing r.state)[← choice]?
    a.transitions[tid]?

/-- A transition taken by the automaton `aid`, and the step that reports it. -/
structure Leg where
  aid : AutomatonId
  transition : Transition
  step : Step
  deriving DecidableEq, Repr

/-- What an automaton takes in its turn, if anything. -/
def leg? (p : Program) (s : Simulation) (aid : AutomatonId) (a : Automaton) : Option Leg := do
  let (_, event) ← s.turn p aid a
  let step ← event.bind Event.step?
  let t ← s.choice? p aid a
  return ⟨aid, t, step⟩

/-- The step by which an automaton that takes `t` reports it. -/
def report (s : Simulation) (aid : AutomatonId) (a : Automaton) (t : Transition) : Step :=
  ⟨s.now, a.label, a.stateName (s.runner aid).state, a.stateName t.target, t.comm, s.clock aid⟩

/-- All that can come of a turn, in any program. -/
inductive Done (p : Program) (s : Simulation) (aid : AutomatonId) (a : Automaton) :
    Simulation → Option Event → Prop where
  | idle : Done p s aid a s none
  | halts :
      Done p s aid a (s.halt aid) (some (.halted a.label (a.stateName (s.runner aid).state)))
  | waits {arbiter : Arbiter} {choice : Option Nat} {rest : Random.Source}
      (arbitrates : p.policy.arbiter? aid (s.runner aid).state = some arbiter)
      (selects : arbiter.select (s.enabled p aid a (s.clock aid)) s.source = some (choice, rest)) :
      Done p s aid a (s.withSource rest) none
  | moves {arbiter : Arbiter} {choice : Option Nat} {rest : Random.Source}
      (arbitrates : p.policy.arbiter? aid (s.runner aid).state = some arbiter)
      (selects : arbiter.select (s.enabled p aid a (s.clock aid)) s.source = some (choice, rest))
      (tid : TransitionId) (t : Transition) :
      Done p s aid a ((s.perform p aid tid t).withSource rest) (some (.moved (s.report aid a t)))

/-- The turn of an automaton that is active and can leave its state follows its arbiter. -/
theorem turn_eq_map {arbiter : Arbiter} (hactive : (s.runner aid).halted = false)
    (hout : a.outgoing (s.runner aid).state ≠ [])
    (harbiter : p.policy.arbiter? aid (s.runner aid).state = some arbiter) :
    s.turn p aid a =
      (arbiter.select (s.enabled p aid a (s.clock aid)) s.source).map fun d =>
        (s.withSource d.2).follow p aid a (s.clock aid) d.1 := by
  have hnotEmpty : (a.outgoing (s.runner aid).state).isEmpty = false := by simpa using hout
  simp only [turn, hactive, hnotEmpty, harbiter, Bool.false_eq_true, if_false, clock]
  cases arbiter.select (s.enabled p aid a (s.now - (s.runner aid).epoch)) s.source <;> rfl

theorem follow_cases (p : Program) (s : Simulation) (aid : AutomatonId) (a : Automaton)
    (rest : Random.Source) (choice : Option Nat) :
    (s.withSource rest).follow p aid a (s.clock aid) choice = (s.withSource rest, none) ∨
      ∃ tid t, (s.withSource rest).follow p aid a (s.clock aid) choice =
        ((s.perform p aid tid t).withSource rest, some (.moved (s.report aid a t))) := by
  unfold follow
  simp only
  split
  · exact .inl rfl
  · split
    · exact .inl rfl
    · next tid _ =>
      split
      · exact .inl rfl
      · next t _ => exact .inr ⟨tid, t, rfl⟩

theorem done_turn {after : Simulation} {event : Option Event}
    (h : s.turn p aid a = some (after, event)) : Done p s aid a after event := by
  cases hhalted : (s.runner aid).halted with
  | true =>
    obtain ⟨rfl, rfl⟩ : s = after ∧ none = event := by simpa [turn, hhalted] using h
    exact .idle
  | false =>
    by_cases hout : a.outgoing (s.runner aid).state = []
    · obtain ⟨rfl, rfl⟩ : s.halt aid = after ∧
          some (.halted a.label (a.stateName (s.runner aid).state)) = event := by
        simpa [turn, hhalted, hout, halt] using h
      exact .halts
    · cases harbiter : p.policy.arbiter? aid (s.runner aid).state with
      | none =>
        obtain ⟨rfl, rfl⟩ : s = after ∧ none = event := by
          simpa [turn, hhalted, hout, harbiter] using h
        exact .idle
      | some arbiter =>
        rw [turn_eq_map hhalted hout harbiter, Option.map_eq_some_iff] at h
        rcases h with ⟨⟨choice, rest⟩, hselect, hfollow⟩
        rcases follow_cases p s aid a rest choice with hwaits | ⟨tid, t, hmoves⟩
        · obtain ⟨rfl, rfl⟩ := Prod.mk.inj (hwaits.symm.trans hfollow)
          exact .waits harbiter hselect
        · obtain ⟨rfl, rfl⟩ := Prod.mk.inj (hmoves.symm.trans hfollow)
          exact .moves harbiter hselect tid t

/-- Time and depth do not change in a turn. -/
theorem frame_turn {after : Simulation} {event : Option Event}
    (h : s.turn p aid a = some (after, event)) :
    after.now = s.now ∧ after.depth = s.depth := by
  cases done_turn h <;> exact ⟨rfl, rfl⟩

/-- All that can come of a turn in an analysed program: an automaton that has halted does nothing,
one in an end state halts, one that can take no transition waits, and any other takes one that it
can take. -/
inductive Turned (p : Program) (s : Simulation) (aid : AutomatonId) (a : Automaton) :
    Simulation → Option Event → Option Leg → Prop where
  | idle (halted : (s.runner aid).halted = true) : Turned p s aid a s none none
  | halts (active : (s.runner aid).halted = false)
      (ends : a.outgoing (s.runner aid).state = []) :
      Turned p s aid a (s.halt aid)
        (some (.halted a.label (a.stateName (s.runner aid).state))) none
  | waits (active : (s.runner aid).halted = false)
      (leaves : a.outgoing (s.runner aid).state ≠ [])
      (stuck : ∀ tid ∈ a.outgoing (s.runner aid).state,
        s.canTake p aid a (s.clock aid) tid = false) : Turned p s aid a s none none
  | moves {tid : TransitionId} {t : Transition} {c : ChannelId} (source : Random.Source)
      (active : (s.runner aid).halted = false)
      (leaves : tid ∈ a.outgoing (s.runner aid).state) (transition : a.transitions[tid]? = some t)
      (channel : p.topology.channelOf? aid tid = some c)
      (ready : s.ready t.comm.direction c = true) (guard : t.guard.holds (s.clock aid) = true) :
      Turned p s aid a ((s.perform p aid tid t).withSource source)
        (some (.moved (s.report aid a t))) (some ⟨aid, t, s.report aid a t⟩)

theorem canTake_eq_true_iff {x : Nat} {tid : TransitionId} :
    s.canTake p aid a x tid = true ↔ ∃ t c, a.transitions[tid]? = some t ∧
      p.topology.channelOf? aid tid = some c ∧ t.guard.holds x = true ∧
      s.ready t.comm.direction c = true := by
  unfold canTake
  cases a.transitions[tid]? <;> cases p.topology.channelOf? aid tid <;> simp [and_comm]

theorem length_enabled (x : Nat) :
    (s.enabled p aid a x).length = (a.outgoing (s.runner aid).state).length :=
  List.length_map _

/-- In an analysed program, the arbiter of a state that can be left knows all its transitions. -/
theorem exists_arbiter (hp : p.Analyzed) (ha : p.network[aid]? = some a) {sid : StateId}
    (hout : a.outgoing sid ≠ []) :
    ∃ arbiter, p.policy.arbiter? aid sid = some arbiter ∧
      arbiter.classes.length = (a.outgoing sid).length := by
  cases hs : a.states[sid]? with
  | none => simp [Automaton.outgoing, Automaton.outgoing?, hs] at hout
  | some st =>
    rw [Automaton.outgoing_eq hs] at hout ⊢
    exact hp.arbiter ha hs hout

/-- An arbiter stays idle only if no transition can be taken, and otherwise selects one that can. -/
theorem decision_cases {arbiter : Arbiter} {x : Nat}
    (hmask : (s.enabled p aid a x).length = arbiter.classes.length) {choice : Option Nat}
    {rest : Random.Source}
    (hselect : arbiter.select (s.enabled p aid a x) s.source = some (choice, rest)) :
    ((∀ tid ∈ a.outgoing (s.runner aid).state, s.canTake p aid a x tid = false) ∧
        choice = none ∧ rest = s.source) ∨
      ∃ ordinal tid t c, choice = some ordinal ∧
        (a.outgoing (s.runner aid).state)[ordinal]? = some tid ∧
        a.transitions[tid]? = some t ∧ p.topology.channelOf? aid tid = some c ∧
        t.guard.holds x = true ∧ s.ready t.comm.direction c = true := by
  rcases arbiter.select_cases hmask hselect with
    ⟨hdisabled, hnone, hrest⟩ | ⟨ordinal, hchoice, henabled⟩
  · refine .inl ⟨?_, hnone, hrest⟩
    intro tid htid
    rcases List.mem_iff_getElem?.1 htid with ⟨i, hi⟩
    simpa [enabled, hi] using hdisabled i
  · cases htid : (a.outgoing (s.runner aid).state)[ordinal]? with
    | none => simp [enabled, htid] at henabled
    | some tid =>
      have htake : s.canTake p aid a x tid = true := by
        simpa [enabled, htid] using henabled
      rcases canTake_eq_true_iff.1 htake with ⟨t, c, htaken⟩
      exact .inr ⟨ordinal, tid, t, c, hchoice, htid, htaken⟩

/-- In an analysed program, an arbiter that can leave its state gets a mask of the right length. -/
theorem exists_mask (hp : p.Analyzed) (ha : p.network[aid]? = some a)
    (hout : a.outgoing (s.runner aid).state ≠ []) :
    ∃ arbiter, p.policy.arbiter? aid (s.runner aid).state = some arbiter ∧
      ∀ x, (s.enabled p aid a x).length = arbiter.classes.length := by
  rcases exists_arbiter hp ha hout with ⟨arbiter, harbiter, hclasses⟩
  exact ⟨arbiter, harbiter, fun x => (length_enabled x).trans hclasses.symm⟩

/-- What comes of a turn is one of these things. -/
theorem turned (hp : p.Analyzed) (ha : p.network[aid]? = some a) {after : Simulation}
    {event : Option Event} (h : s.turn p aid a = some (after, event)) :
    Turned p s aid a after event (s.leg? p aid a) := by
  cases hhalted : (s.runner aid).halted with
  | true =>
    obtain ⟨rfl, rfl⟩ : s = after ∧ none = event := by simpa [turn, hhalted] using h
    simpa [leg?, h] using Turned.idle hhalted
  | false =>
    by_cases hout : a.outgoing (s.runner aid).state = []
    · obtain ⟨rfl, rfl⟩ : s.halt aid = after ∧
          some (.halted a.label (a.stateName (s.runner aid).state)) = event := by
        simpa [turn, hhalted, hout, halt] using h
      simpa [leg?, h, Event.step?] using Turned.halts (p := p) hhalted hout
    · rcases exists_mask hp ha hout with ⟨arbiter, harbiter, hmask⟩
      have hfollow := h
      rw [turn_eq_map hhalted hout harbiter, Option.map_eq_some_iff] at hfollow
      rcases hfollow with ⟨⟨choice, rest⟩, hselect, hfollow⟩
      rcases decision_cases (hmask _) hselect with
        ⟨hstuck, rfl, rfl⟩ | ⟨ordinal, tid, t, c, rfl, htid, ht, hc, hguard, hready⟩
      · obtain ⟨rfl, rfl⟩ : s = after ∧ none = event := Prod.mk.inj hfollow
        simpa [leg?, h] using Turned.waits hhalted hout hstuck
      · -- what the arbiter selects is a transition that can be taken
        obtain ⟨rfl, rfl⟩ : (s.perform p aid tid t).withSource rest = after ∧
            some (.moved (s.report aid a t)) = event := by
          simp only [follow, runner_withSource, htid, ht, Prod.mk.injEq] at hfollow
          exact hfollow
        have hchoice : s.choice? p aid a = some t := by
          simp [choice?, hhalted, harbiter, hselect, htid, ht]
        have hmoves := Turned.moves rest hhalted (List.mem_of_getElem? htid) ht hc hready hguard
        simpa [leg?, h, hchoice, Event.step?] using hmoves

theorem map_step_leg? (hp : p.Analyzed) (ha : p.network[aid]? = some a) {after : Simulation}
    {event : Option Event} (h : s.turn p aid a = some (after, event)) :
    (s.leg? p aid a).toList.map Leg.step = steps event.toList := by
  have hturned := turned hp ha h
  generalize s.leg? p aid a = leg at hturned ⊢
  cases hturned <;> rfl

/-! ## Moments -/

/-- `Moment p o n aid s legs`: after `n` ticks and the turns of the automata before `aid` the
execution is in `s`, and what was taken so far are the `legs`. -/
inductive Moment (p : Program) (o : Options) :
    Nat → AutomatonId → Simulation → List Leg → Prop where
  | start : Moment p o 0 0 (start p o) []
  | turn {n : Nat} {aid : AutomatonId} {s after : Simulation} {legs : List Leg} {a : Automaton}
      {event : Option Event} :
      Moment p o n aid s legs → p.network[aid]? = some a → s.turn p aid a = some (after, event) →
      Moment p o n (aid + 1) after (legs ++ (s.leg? p aid a).toList)
  | time {n : Nat} {s : Simulation} {legs : List Leg} :
      Moment p o n p.network.length s legs →
      Moment p o (n + 1) 0 { s with now := s.now + 1 } legs

/-- A number of ticks, and what happened in them. -/
def ticks (p : Program) : (n : Nat) → Simulation → Option (Simulation × List Event)
  | 0, s => some (s, [])
  | n + 1, s => do
    let (s, first) ← s.tick p
    let (s, more) ← ticks p n s
    return (s, first ++ more)

@[simp] theorem steps_append (es fs : List Event) : steps (es ++ fs) = steps es ++ steps fs :=
  List.filterMap_append

section Results

variable {after : Simulation} {events : List Event}

theorem turns_nil_eq_some_iff : turns p s [] = some (after, events) ↔ s = after ∧ [] = events := by
  simp [turns]

/-- Turns have a result if the first has one and the others have one from there on. -/
theorem turns_cons_eq_some_iff {x : Automaton × AutomatonId}
    {xs : List (Automaton × AutomatonId)} :
    turns p s (x :: xs) = some (after, events) ↔ ∃ middle event more,
      s.turn p x.2 x.1 = some (middle, event) ∧ turns p middle xs = some (after, more) ∧
      event.toList ++ more = events := by
  simp [turns, Option.bind_eq_some_iff]

theorem tick_eq_some_iff : s.tick p = some (after, events) ↔ ∃ last,
    turns p s p.network.zipIdx = some (last, events) ∧
      { last with now := last.now + 1 } = after := by
  simp [tick, Option.bind_eq_some_iff]

theorem ticks_zero_eq_some_iff : ticks p 0 s = some (after, events) ↔ s = after ∧ [] = events := by
  simp [ticks]

theorem ticks_succ_eq_some_iff {n : Nat} : ticks p (n + 1) s = some (after, events) ↔
    ∃ middle first more, s.tick p = some (middle, first) ∧
      ticks p n middle = some (after, more) ∧ first ++ more = events := by
  simp [ticks, Option.bind_eq_some_iff]

end Results

section Executions

variable {o : Options} {n : Nat} {legs : List Leg} {after : Simulation} {events : List Event}

/-- The turns that are left in a tick go from moment to moment. -/
theorem Moment.turns (hp : p.Analyzed) {rest : List (Automaton × AutomatonId)}
    (hrest : p.network.zipIdx.drop aid = rest) (h : Moment p o n aid s legs)
    (haid : aid ≤ p.network.length) (hturns : turns p s rest = some (after, events)) :
    ∃ more, Moment p o n p.network.length after (legs ++ more) ∧
      more.map Leg.step = steps events := by
  induction rest generalizing aid s legs events with
  | nil =>
    have hdone : aid = p.network.length := by
      have hge := List.drop_eq_nil_iff.1 hrest
      rw [List.length_zipIdx] at hge
      exact Nat.le_antisymm haid hge
    rcases turns_nil_eq_some_iff.1 hturns with ⟨rfl, rfl⟩
    subst hdone
    exact ⟨[], by simpa using h, rfl⟩
  | cons x rest ih =>
    rcases x with ⟨a, i⟩
    -- the first of the turns that are left is that of `aid`
    have hx : p.network.zipIdx[aid]? = some (a, i) := by
      rw [← List.head?_drop, hrest, List.head?_cons]
    rw [List.getElem?_zipIdx, Option.map_eq_some_iff] at hx
    rcases hx with ⟨b, ha, hb⟩
    obtain ⟨rfl, rfl⟩ : b = a ∧ aid = i := by simpa using hb
    have hlater : p.network.zipIdx.drop (aid + 1) = rest := by
      rw [← List.drop_drop, hrest, List.drop_one, List.tail_cons]
    have hlt := (List.getElem?_eq_some_iff.1 ha).1
    rcases turns_cons_eq_some_iff.1 hturns with ⟨middle, event, later, hturn, hothers, rfl⟩
    rcases ih hlater (h.turn ha hturn) hlt hothers with ⟨more, hmoment, hsteps⟩
    refine ⟨(s.leg? p aid b).toList ++ more, ?_, ?_⟩
    · rw [← List.append_assoc]
      exact hmoment
    · rw [List.map_append, map_step_leg? hp ha hturn, hsteps, steps_append]

theorem Moment.tick (hp : p.Analyzed) (h : Moment p o n 0 s legs)
    (htick : s.tick p = some (after, events)) :
    ∃ more, Moment p o (n + 1) 0 after (legs ++ more) ∧ more.map Leg.step = steps events := by
  rcases tick_eq_some_iff.1 htick with ⟨last, hturns, rfl⟩
  rcases h.turns hp List.drop_zero (Nat.zero_le _) hturns with ⟨more, hmoment, hsteps⟩
  exact ⟨more, hmoment.time, hsteps⟩

theorem Moment.ticks (hp : p.Analyzed) (h : Moment p o n 0 s legs) {k : Nat}
    (hticks : ticks p k s = some (after, events)) :
    ∃ more, Moment p o (n + k) 0 after (legs ++ more) ∧ more.map Leg.step = steps events := by
  induction k generalizing n s legs events with
  | zero =>
    rcases ticks_zero_eq_some_iff.1 hticks with ⟨rfl, rfl⟩
    exact ⟨[], by simpa using h, rfl⟩
  | succ k ih =>
    rcases ticks_succ_eq_some_iff.1 hticks with ⟨middle, front, later, htick, hothers, rfl⟩
    rcases h.tick hp htick with ⟨first, hfirst, hsteps⟩
    rcases ih hfirst hothers with ⟨more, hmore, hrest⟩
    refine ⟨first ++ more, ?_, ?_⟩
    · rw [Nat.add_right_comm] at hmore
      rw [← List.append_assoc]
      exact hmore
    · rw [List.map_append, hsteps, hrest, steps_append]

/-- Ticks lead from the start to a moment, and report what was taken on the way. -/
theorem moment_ticks (hp : p.Analyzed) (h : ticks p n (start p o) = some (after, events)) :
    ∃ legs, Moment p o n 0 after legs ∧ legs.map Leg.step = steps events := by
  simpa using Moment.ticks hp .start h

/-- There was a moment after each of the transitions taken. -/
theorem Moment.exists_of_prefix (h : Moment p o n aid s legs) {front : List Leg}
    (hfront : front <+: legs) : ∃ k i before, Moment p o k i before front := by
  induction h with
  | start =>
    obtain rfl := List.prefix_nil.1 hfront
    exact ⟨0, 0, _, .start⟩
  | time _ ih => exact ih hfront
  | @turn n aid s after legs a event h ha hturn ih =>
    -- the turn adds at most one
    cases hleg : s.leg? p aid a with
    | none => exact ih (by simpa [hleg] using hfront)
    | some leg =>
      simp only [hleg, Option.toList_some] at hfront
      rcases List.prefix_concat_iff.1 hfront with rfl | hbefore
      · exact ⟨n, aid + 1, _, by simpa [hleg] using h.turn ha hturn⟩
      · exact ih hbefore

/-! ## Runners -/

/-- The automata are in states of theirs, no reset lies ahead, and every channel has its
counter. -/
structure Placed (p : Program) (s : Simulation) : Prop where
  runners : s.runners.length = p.network.length
  fill : s.fill.length = p.topology.channels.length
  state : ∀ {aid a}, p.network[aid]? = some a → (s.runner aid).state < a.states.length
  epoch : ∀ aid, (s.runner aid).epoch ≤ s.now

theorem placed_start (hp : p.Analyzed) (o : Options) : (start p o).Placed p where
  runners := by simp [start]
  fill := by simp [start]
  state := by
    intro aid a ha
    simpa [start, runner, ha] using (hp.wellFormed ha).initial
  epoch := by
    intro aid
    -- beyond the last automaton there is the default runner
    cases ha : p.network[aid]? <;> simp [start, runner, ha, default, instInhabitedRunner.default]

theorem Placed.lt_length (h : s.Placed p) (ha : p.network[aid]? = some a) :
    aid < s.runners.length := by
  rw [h.runners]
  exact (List.getElem?_eq_some_iff.1 ha).1

theorem Placed.turn (hp : p.Analyzed) (ha : p.network[aid]? = some a) (h : s.Placed p)
    {event : Option Event} (hturn : s.turn p aid a = some (after, event)) : after.Placed p := by
  have hlt := h.lt_length ha
  have hturned := turned hp ha hturn
  generalize s.leg? p aid a = leg at hturned
  cases hturned with
  | idle => exact h
  | waits => exact h
  | halts =>
    refine ⟨by simpa [halt] using h.runners, h.fill, ?_, ?_⟩
    · intro other b hb
      rw [runner_halt hlt]
      split
      · next heq => exact heq ▸ h.state hb
      · exact h.state hb
    · intro other
      rw [runner_halt hlt]
      split
      · exact h.epoch aid
      · exact h.epoch other
  | @moves tid t c source active leaves htransition =>
    have htarget := ((hp.wellFormed ha).endpoints t (List.mem_of_getElem? htransition)).2
    refine ⟨by simpa [perform, withSource] using h.runners, ?_, ?_, ?_⟩
    · simp only [perform, withSource]
      split <;> simpa using h.fill
    · intro other b hb
      rw [runner_withSource, runner_perform hlt]
      split
      · next heq =>
        subst heq
        obtain rfl : a = b := by simpa [ha] using hb
        exact htarget
      · exact h.state hb
    · intro other
      rw [runner_withSource, runner_perform hlt]
      split
      · -- a reset is made at the present time, an older one stays
        by_cases hresets : t.resets = true
        · simp only [hresets, if_true]
          exact Nat.le_refl _
        · simp only [hresets]
          exact h.epoch aid
      · exact h.epoch other

theorem Placed.time (h : s.Placed p) : { s with now := s.now + 1 }.Placed p :=
  ⟨h.runners, h.fill, h.state, fun aid => Nat.le_succ_of_le (h.epoch aid)⟩

theorem Moment.placed (hp : p.Analyzed) (h : Moment p o n aid s legs) : s.Placed p := by
  induction h with
  | start => exact placed_start hp o
  | turn _ ha hturn ih => exact ih.turn hp ha hturn
  | time _ ih => exact ih.time

theorem Moment.frame (h : Moment p o n aid s legs) :
    s.now = n ∧ s.depth = o.depth := by
  induction h with
  | start => exact ⟨rfl, rfl⟩
  | turn _ _ hturn ih =>
    rcases frame_turn hturn with ⟨hnow, hdepth⟩
    exact ⟨hnow.trans ih.1, hdepth.trans ih.2⟩
  | time _ ih => exact ⟨congrArg (· + 1) ih.1, ih.2⟩

end Executions

end Simulation
end TimedAutomata
