import TimedAutomata.Proofs.Simulation.Moments

/-!
# Timed runs

What an execution reports is a legal run of every automaton. The steps come in the order of ticks
and, within a tick, of declarations. The steps of one automaton are joined: each starts where the
one before it ended, along a declared transition whose guard holds; and its clock shows the time
since the last step of the same automaton that reset it.

* `Simulation.Leg.Along`: a step is taken along a declared transition
* `Simulation.arrival`, `Simulation.lastReset`: where the steps lead, and since when the clock runs
* `Simulation.TimedRun`: the legal runs of an automaton
* `Simulation.Moment.traced`: at every moment, the state and the last reset of an automaton are
  those of its run so far
* `Simulation.timedRun_of_ticks`: every execution reports legal runs
-/

namespace TimedAutomata

namespace Simulation

/-! ## Runs of one automaton -/

/-- The step is taken along its transition, which the automaton declares and whose guard holds. -/
structure Leg.Along (l : Leg) (a : Automaton) : Prop where
  declared : l.transition ∈ a.transitions
  automaton : l.step.automaton = a.label
  source : a.stateName? l.transition.start = some l.step.source
  target : a.stateName? l.transition.target = some l.step.target
  comm : l.step.comm = l.transition.comm
  guard : l.transition.guard.holds l.step.clock = true

/-- The state in which an automaton is after the legs; without any, its initial state. -/
def arrival (a : Automaton) (legs : List Leg) : StateId :=
  (legs.getLast?.map fun l => l.transition.target).getD a.initial

/-- The tick of the last of the legs that reset the clock; `0` if none of them did. -/
def lastReset (legs : List Leg) : Nat :=
  ((legs.filter fun l => l.transition.resets).getLast?.map fun l => l.step.tick).getD 0

@[simp] theorem arrival_concat (a : Automaton) (legs : List Leg) (l : Leg) :
    arrival a (legs ++ [l]) = l.transition.target := by
  simp [arrival]

@[simp] theorem lastReset_concat (legs : List Leg) (l : Leg) :
    lastReset (legs ++ [l]) = if l.transition.resets then l.step.tick else lastReset legs := by
  by_cases h : l.transition.resets = true <;> simp [lastReset, h]

/-- A legal run of an automaton: each leg starts where the legs before it lead, and its clock shows
the time since the last of them that reset it. -/
structure TimedRun (a : Automaton) (legs : List Leg) : Prop where
  along : ∀ l ∈ legs, l.Along a
  joined : ∀ before l after, legs = before ++ l :: after →
    l.transition.start = arrival a before
  clock : ∀ before l after, legs = before ++ l :: after →
    l.step.tick = lastReset before + l.step.clock

theorem timedRun_nil (a : Automaton) : TimedRun a [] where
  along := by simp
  joined := by simp
  clock := by simp

theorem TimedRun.concat {a : Automaton} {legs : List Leg} (h : TimedRun a legs) {l : Leg}
    (halong : l.Along a) (hstart : l.transition.start = arrival a legs)
    (hclock : l.step.tick = lastReset legs + l.step.clock) : TimedRun a (legs ++ [l]) := by
  -- a leg of the longer run is a leg of the run, or the last one
  have hsplit : ∀ {before m after}, legs ++ [l] = before ++ m :: after →
      (∃ more, legs = before ++ m :: more) ∨ before = legs ∧ m = l := by
    intro before m after heq
    cases after using List.reverseRecOn with
    | nil =>
      have hends := List.append_inj' heq rfl
      exact .inr ⟨hends.1.symm, (List.cons.inj hends.2).1.symm⟩
    | append_singleton more last =>
      rw [← List.cons_append, ← List.append_assoc] at heq
      exact .inl ⟨more, (List.append_inj' heq rfl).1⟩
  refine ⟨?_, ?_, ?_⟩
  · intro m hm
    rcases List.mem_append.1 hm with hm | hm
    · exact h.along m hm
    · exact List.mem_singleton.1 hm ▸ halong
  · intro before m after heq
    rcases hsplit heq with ⟨more, hmore⟩ | ⟨rfl, rfl⟩
    · exact h.joined before m more hmore
    · exact hstart
  · intro before m after heq
    rcases hsplit heq with ⟨more, hmore⟩ | ⟨rfl, rfl⟩
    · exact h.clock before m more hmore
    · exact hclock

/-! ## Runs and moments -/

/-- The legs of one automaton. -/
def legsOf (aid : AutomatonId) (legs : List Leg) : List Leg :=
  legs.filter fun l => l.aid = aid

theorem legsOf_concat (aid : AutomatonId) (legs : List Leg) (l : Leg) :
    legsOf aid (legs ++ [l]) = if l.aid = aid then legsOf aid legs ++ [l] else legsOf aid legs := by
  by_cases h : l.aid = aid <;> simp [legsOf, h]

/-- Every automaton has taken a legal run, is where it leads, and counts time from its last
reset. -/
def Traced (p : Program) (s : Simulation) (legs : List Leg) : Prop :=
  ∀ (aid : AutomatonId) (a : Automaton), p.network[aid]? = some a →
    TimedRun a (legsOf aid legs) ∧ (s.runner aid).state = arrival a (legsOf aid legs) ∧
      (s.runner aid).epoch = lastReset (legsOf aid legs)

variable {p : Program} {s : Simulation} {aid : AutomatonId} {a : Automaton} {legs : List Leg}

theorem traced_start (o : Options) : (start p o).Traced p [] := by
  intro aid a ha
  refine ⟨timedRun_nil a, ?_, ?_⟩ <;> simp [start, runner, ha, legsOf, arrival, lastReset]

/-- A transition that can be taken prolongs the run of its automaton and no other. -/
theorem Traced.perform (hp : p.Analyzed) (ha : p.network[aid]? = some a) (hs : s.Placed p)
    (h : s.Traced p legs) {tid : TransitionId} {t : Transition}
    (hout : tid ∈ a.outgoing (s.runner aid).state) (ht : a.transitions[tid]? = some t)
    (hguard : t.guard.holds (s.clock aid) = true) :
    (s.perform p aid tid t).Traced p (legs ++ [⟨aid, t, s.report aid a t⟩]) := by
  have hlt := hs.lt_length ha
  intro other b hb
  rcases h other b hb with ⟨hrun, hstate, hepoch⟩
  rw [runner_perform hlt, legsOf_concat]
  by_cases heq : aid = other
  · subst heq
    obtain rfl : a = b := by simpa [ha] using hb
    have hstart := (hp.wellFormed ha).start_eq hout ht
    have htarget := ((hp.wellFormed ha).endpoints t (List.mem_of_getElem? ht)).2
    have halong : Leg.Along ⟨aid, t, s.report aid a t⟩ a := by
      refine ⟨List.mem_of_getElem? ht, rfl, ?_, ?_, rfl, hguard⟩
      · rw [hstart]
        exact Automaton.stateName?_of_lt (hs.state ha)
      · exact Automaton.stateName?_of_lt htarget
    -- the runner keeps the tick of the last reset, and time has not run backwards since
    have hclock : s.now = lastReset (legsOf aid legs) + s.clock aid := by
      rw [← hepoch, clock]
      exact (Nat.add_sub_cancel' (hs.epoch aid)).symm
    rw [if_pos rfl, if_pos rfl, arrival_concat, lastReset_concat]
    refine ⟨hrun.concat halong (hstart.trans hstate) hclock, rfl, ?_⟩
    rw [hepoch]
    rfl
  · simpa [heq] using ⟨hrun, hstate, hepoch⟩

theorem Traced.turn (hp : p.Analyzed) (ha : p.network[aid]? = some a) (hs : s.Placed p)
    (h : s.Traced p legs) {after : Simulation} {event : Option Event}
    (hturn : s.turn p aid a = some (after, event)) :
    after.Traced p (legs ++ (s.leg? p aid a).toList) := by
  have hturned := turned hp ha hturn
  generalize s.leg? p aid a = leg at hturned ⊢
  cases hturned with
  | idle => simpa using h
  | waits => simpa using h
  | moves source active leaves ht hc hready hguard =>
    exact h.perform hp ha hs leaves ht hguard
  | halts =>
    have hlt := hs.lt_length ha
    intro other b hb
    have hother := h other b hb
    rw [runner_halt hlt, Option.toList_none, List.append_nil]
    by_cases heq : aid = other
    · subst heq
      simpa using hother
    · simpa [heq] using hother

theorem Moment.traced (hp : p.Analyzed) {o : Options} {n : Nat} (h : Moment p o n aid s legs) :
    s.Traced p legs := by
  induction h with
  | start => exact traced_start o
  | time _ ih => exact ih
  | turn hmoment ha hturn ih => exact ih.turn hp ha (hmoment.placed hp) hturn

/-! ## Order -/

/-- Earlier ticks first; within a tick, in the order of declarations. -/
def Leg.Before (l m : Leg) : Prop :=
  l.step.tick < m.step.tick ∨ l.step.tick = m.step.tick ∧ l.aid < m.aid

theorem aid_of_leg? (hp : p.Analyzed) (ha : p.network[aid]? = some a) {after : Simulation}
    {event : Option Event} (hturn : s.turn p aid a = some (after, event)) {l : Leg}
    (h : s.leg? p aid a = some l) : l.aid = aid ∧ l.step.tick = s.now := by
  have hturned := turned hp ha hturn
  rw [h] at hturned
  cases hturned
  exact ⟨rfl, rfl⟩

/-- What was taken lies before the turn that comes next, and is in order. -/
theorem Moment.ordered (hp : p.Analyzed) {o : Options} {n : Nat} (h : Moment p o n aid s legs) :
    legs.Pairwise Leg.Before ∧ ∀ l ∈ legs, l.aid < p.network.length ∧
      (l.step.tick < n ∨ l.step.tick = n ∧ l.aid < aid) := by
  induction h with
  | start => simp
  | time _ ih =>
    refine ⟨ih.1, ?_⟩
    intro l hl
    rcases ih.2 l hl with ⟨hlt, htick | ⟨htick, -⟩⟩
    · exact ⟨hlt, .inl (Nat.lt_succ_of_lt htick)⟩
    · exact ⟨hlt, .inl (Nat.lt_succ_of_le (Nat.le_of_eq htick))⟩
  | @turn n aid s after legs a event hmoment ha hturn ih =>
    have hearlier : ∀ l ∈ legs, l.aid < p.network.length ∧
        (l.step.tick < n ∨ l.step.tick = n ∧ l.aid < aid + 1) := by
      intro l hl
      rcases ih.2 l hl with ⟨hlt, htick⟩
      exact ⟨hlt, htick.imp_right fun h => ⟨h.1, Nat.lt_succ_of_lt h.2⟩⟩
    cases hleg : s.leg? p aid a with
    | none =>
      rw [Option.toList_none, List.append_nil]
      exact ⟨ih.1, hearlier⟩
    | some m =>
      rcases aid_of_leg? hp ha hturn hleg with ⟨hm, htick⟩
      rw [hmoment.frame.1] at htick
      simp only [Option.toList_some, List.pairwise_append, List.mem_append, List.mem_singleton]
      refine ⟨⟨ih.1, List.pairwise_singleton _ _, ?_⟩, ?_⟩
      · rintro l hl m' rfl
        have hl := (ih.2 l hl).2
        rw [Leg.Before, hm, htick]
        exact hl
      · rintro l (hl | rfl)
        · exact hearlier l hl
        · rw [hm]
          exact ⟨(List.getElem?_eq_some_iff.1 ha).1, .inr ⟨htick, Nat.lt_succ_self aid⟩⟩

/-! ## Whole executions -/

/-- The steps of every execution of an analysed program are a legal timed run. They are the steps
of the legs that were taken; these come in the order of ticks and declarations, at most one of an
automaton in a tick; and the legs of each automaton are a run of its own, whose clock depends on no
other automaton. -/
theorem timedRun_of_ticks {text : String} {c : Config} (h : analyze text c = .ok p) (o : Options)
    {n : Nat} {after : Simulation} {events : List Event}
    (hticks : ticks p n (start p o) = some (after, events)) :
    ∃ legs, Moment p o n 0 after legs ∧
      steps events = legs.map Leg.step ∧
      legs.Pairwise Leg.Before ∧
      (∀ l ∈ legs, l.aid < p.network.length ∧ l.step.tick < n) ∧
      ∀ {aid a}, p.network[aid]? = some a → TimedRun a (legsOf aid legs) := by
  have hp := analyzed_of_analyze h
  rcases moment_ticks hp hticks with ⟨legs, hmoment, hsteps⟩
  rcases hmoment.ordered hp with ⟨hordered, hbefore⟩
  refine ⟨legs, hmoment, hsteps.symm, hordered, ?_, ?_⟩
  · intro l hl
    rcases hbefore l hl with ⟨hlt, htick | ⟨-, hzero⟩⟩
    · exact ⟨hlt, htick⟩
    · exact absurd hzero (Nat.not_lt_zero _)
  · intro aid a ha
    exact (hmoment.traced hp aid a ha).1

/-- Only the clock that is reset starts again: at tick 2 the clocks of the two automata differ. -/
theorem timedRun_of_ticks_one_reset : ∃ p a after events legs,
    analyze "Cta A=Init s;s B!m(x>=1,\x7bx\x7d)s;Cta B=Init s;s A?m()s;" .default = .ok p ∧
    p.network[0]? = some a ∧ ticks p 3 (start p .default) = some (after, events) ∧
    steps events = legs.map Leg.step ∧
    (legs.map Leg.step).map (fun s => (s.automaton, s.tick, s.clock)) =
      [("A", 1, 1), ("B", 1, 1), ("A", 2, 1), ("B", 2, 2)] ∧
    TimedRun a (legsOf 0 legs) := by
  rcases Fallible.exists_ok_of_any
    (x := analyze "Cta A=Init s;s B!m(x>=1,\x7bx\x7d)s;Cta B=Init s;s A?m()s;" .default)
    (P := fun p => p.network[0]?.isSome = true ∧ ∃ x ∈ ticks p 3 (start p .default),
      (steps x.2).map (fun s => (s.automaton, s.tick, s.clock)) =
        [("A", 1, 1), ("B", 1, 1), ("A", 2, 1), ("B", 2, 2)])
    (by decide +kernel) with ⟨p, hp, hsome, ⟨after, events⟩, hticks, hclocks⟩
  rcases Option.isSome_iff_exists.1 hsome with ⟨a, ha⟩
  rcases timedRun_of_ticks hp .default hticks with ⟨legs, -, hsteps, -, -, hrun⟩
  rw [hsteps] at hclocks
  exact ⟨p, a, after, events, legs, hp, ha, hticks, hsteps, hclocks, hrun ha⟩

end Simulation
end TimedAutomata
