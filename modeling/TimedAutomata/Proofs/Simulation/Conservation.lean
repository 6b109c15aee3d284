import TimedAutomata.Proofs.Simulation.Checked

/-!
# Conservation of messages

Messages are neither lost nor made up: at every moment of an execution, also in the middle of a
tick, a channel holds the messages that were sent and not received over it, and these are never
more than it has room for.

* `Simulation.count`: how many steps send, or receive, over a route
* `Simulation.Balanced`: every channel holds what was sent and not received
* `Simulation.Moment.balanced`: at every moment this is so
* `Simulation.conserves_messages`: no check fails in a run, and after each of its steps the
  channels are balanced
-/

namespace TimedAutomata
namespace Simulation

/-! ## Steps and routes -/

/-- The route of the channel that a step uses. -/
def Step.route (s : Step) : Route :=
  s.comm.route s.automaton

/-- How many of the steps send, or receive, over a route. -/
def count (d : Direction) (r : Route) (taken : List Step) : Nat :=
  taken.countP fun s => s.comm.direction = d ∧ s.route = r

theorem count_concat (d : Direction) (r : Route) (taken : List Step) (s : Step) :
    count d r (taken ++ [s]) =
      count d r taken + if s.comm.direction = d ∧ s.route = r then 1 else 0 := by
  simp [count, List.countP_append, List.countP_singleton]

/-! ## Balanced channels -/

/-- Every channel holds the messages that were sent and not received over it, no more than it has
room for. -/
def Balanced (p : Program) (s : Simulation) (taken : List Step) : Prop :=
  ∀ (ch : ChannelId) (r : Route), p.topology.routes[ch]? = some r →
    count .send r taken = count .receive r taken + s.fillOf ch ∧ s.fillOf ch ≤ s.depth

variable {p : Program} {s : Simulation} {aid : AutomatonId} {a : Automaton}

theorem balanced_start (o : Options) : (start p o).Balanced p [] := by
  intro ch r hr
  have hempty : (start p o).fillOf ch = 0 := by
    cases hch : p.topology.channels[ch]? <;>
      simp only [start, fillOf, List.getD_eq_getElem?_getD, List.getElem?_map, hch] <;> rfl
  simp [count, hempty]

/-- A transition that can be taken moves one message over its own channel. -/
theorem Balanced.perform (hp : p.Analyzed) (ha : p.network[aid]? = some a) (hs : s.Placed p)
    {taken : List Step} (h : s.Balanced p taken) {tid : TransitionId} {t : Transition}
    {c : ChannelId} (ht : a.transitions[tid]? = some t)
    (hc : p.topology.channelOf? aid tid = some c) (hready : s.ready t.comm.direction c = true) :
    (s.perform p aid tid t).Balanced p (taken ++ [s.report aid a t]) := by
  rcases hp.binds.bound ha ht with ⟨c', hc', hroute⟩
  obtain rfl : c = c' := Option.some.inj (hc.symm.trans hc')
  have hlt : c < s.fill.length := by
    rw [hs.fill]
    simpa [Topology.routes] using (List.getElem?_eq_some_iff.1 hroute).1
  intro ch r hr
  rcases h ch r hr with ⟨hbalance, hroom⟩
  -- routes are listed once, so the step counts for this channel alone
  have hstep : (s.report aid a t).route = r ↔ c = ch := by
    constructor
    · intro heq
      have hsame : p.topology.routes[c]? = p.topology.routes[ch]? := by
        rw [hroute, hr, ← heq]
        rfl
      exact (List.getElem?_inj (List.getElem?_eq_some_iff.1 hroute).1 hp.binds.nodup).1 hsame
    · rintro rfl
      exact Option.some.inj (hroute.symm.trans hr)
  have hcomm : (s.report aid a t).comm = t.comm := rfl
  have hdepth : (s.perform p aid tid t).depth = s.depth := rfl
  simp only [count_concat, fillOf_perform hc hlt, hstep, hcomm, hdepth]
  by_cases hch : c = ch
  · subst hch
    cases hd : t.comm.direction with
    | send =>
      have hspace : s.fillOf c < s.depth := by simpa [ready, hd] using hready
      simp [transfer]
      omega
    | receive =>
      have hsome : 0 < s.fillOf c := by simpa [ready, hd] using hready
      simp [transfer]
      omega
  · simpa [hch] using ⟨hbalance, hroom⟩

theorem Balanced.turn (hp : p.Analyzed) (ha : p.network[aid]? = some a) (hs : s.Placed p)
    {taken : List Step} (h : s.Balanced p taken) {after : Simulation} {event : Option Event}
    (hturn : s.turn p aid a = some (after, event)) :
    after.Balanced p (taken ++ (s.leg? p aid a).toList.map Leg.step) := by
  have hturned := turned hp ha hturn
  generalize s.leg? p aid a = leg at hturned ⊢
  cases hturned with
  | idle => simpa using h
  | halts =>
    have hhalted : (s.halt aid).Balanced p taken := h
    simpa using hhalted
  | waits => simpa using h
  | moves source active leaves ht hc hready => exact h.perform hp ha hs ht hc hready

/-- At every moment, channels hold what was sent and not received. -/
theorem Moment.balanced (hp : p.Analyzed) {o : Options} {n : Nat} {legs : List Leg}
    (h : Moment p o n aid s legs) : s.Balanced p (legs.map Leg.step) := by
  induction h with
  | start => exact balanced_start o
  | time _ ih => exact ih
  | turn hmoment ha hturn ih =>
    rw [List.map_append]
    exact ih.turn hp ha (hmoment.placed hp) hturn

/-! ## Whole executions -/

/-- Messages are conserved in every execution of an analysed program. The ticks can be computed
with words of 64 bits: no check of theirs fails. Every front part of the list of steps was all that
had been taken at some moment; and whenever it was, every channel held as many messages as were
sent and not received over it, at most its depth. -/
theorem conserves_messages {text : String} {c : Config} (h : analyze text c = .ok p) (o : Options)
    (n : Nat) :
    (o.depth < UInt64.size → n < UInt64.size →
      Checked.ticks p n (start p o) = ExceptT.lift (ticks p n (start p o))) ∧
    ∀ {after events}, ticks p n (start p o) = some (after, events) →
      ∀ taken, taken <+: steps events →
        (∃ k i s legs, Moment p o k i s legs ∧ legs.map Leg.step = taken) ∧
        ∀ {k i s legs}, Moment p o k i s legs → legs.map Leg.step = taken →
          ∀ {ch r}, p.topology.routes[ch]? = some r →
            (s.fillOf ch : Int) = count .send r taken - count .receive r taken ∧
            s.fillOf ch ≤ o.depth := by
  have hp := analyzed_of_analyze h
  refine ⟨?_, ?_⟩
  · intro hdepth hn
    exact Checked.ticks_eq_lift hp .start hdepth (by omega)
  · intro after events hticks taken htaken
    rcases moment_ticks hp hticks with ⟨legs, hmoment, hsteps⟩
    refine ⟨?_, ?_⟩
    · -- the steps at the front are those of the legs at the front
      rw [← hsteps] at htaken
      rcases List.prefix_map_iff.1 htaken with ⟨front, hfront, rfl⟩
      rcases hmoment.exists_of_prefix hfront with ⟨k, i, s, hs⟩
      exact ⟨k, i, s, front, hs, rfl⟩
    · rintro k i s legs hs rfl ch r hr
      rcases hs.balanced hp ch r hr with ⟨hbalance, hroom⟩
      rw [hs.frame.2] at hroom
      exact ⟨by omega, hroom⟩

/-- With room for one message, the channel is full in the middle of the first tick. -/
theorem conserves_messages_full : ∃ p after events first more,
    analyze "Cta A=Init s;s B!m()s;Cta B=Init s;s A?m()s;" .default = .ok p ∧
    ticks p 1 (start p ⟨1, 7⟩) = some (after, events) ∧
    steps events = first :: more ∧ more ≠ [] ∧
    Checked.ticks p 1 (start p ⟨1, 7⟩) = ExceptT.lift (ticks p 1 (start p ⟨1, 7⟩)) ∧
    ∃ k i s legs, Moment p ⟨1, 7⟩ k i s legs ∧ legs.map Leg.step = [first] ∧
      (s.fillOf 0 : Int) = 1 := by
  rcases Fallible.exists_ok_of_any
    (x := analyze "Cta A=Init s;s B!m()s;Cta B=Init s;s A?m()s;" .default)
    (P := fun p => ∃ x ∈ ticks p 1 (start p ⟨1, 7⟩), ∃ first ∈ (steps x.2).head?,
      (steps x.2).tail ≠ [] ∧ ∃ r ∈ p.topology.routes[0]?,
      count .send r [first] = 1 ∧ count .receive r [first] = 0)
    (by decide +kernel) with
    ⟨p, hp, ⟨after, events⟩, hticks, first, hfirst, hmore, r, hr, hsent, hreceived⟩
  have hsteps := List.head?_eq_some_iff.1 hfirst
  rcases hsteps with ⟨more, hsteps⟩
  rcases conserves_messages hp ⟨1, 7⟩ 1 with ⟨hchecked, hconserved⟩
  have htaken : [first] <+: steps events := by
    rw [hsteps]
    exact List.prefix_append [first] more
  rcases hconserved hticks [first] htaken with ⟨⟨k, i, s, legs, hmoment, hlegs⟩, hbalance⟩
  have hfill := (hbalance hmoment hlegs hr).1
  rw [hsent, hreceived] at hfill
  refine ⟨p, after, events, first, more, hp, hticks, hsteps, ?_, hchecked (by decide) (by decide),
    k, i, s, legs, hmoment, hlegs, hfill⟩
  simpa [hsteps] using hmore

end Simulation
end TimedAutomata
