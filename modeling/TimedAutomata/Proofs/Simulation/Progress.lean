import TimedAutomata.Proofs.Simulation.Moments

/-!
# Progress of analysed programs

An analysis binds every transition to a channel and gives every state that can be left an arbiter
for all its transitions. What generated programs and simulations provide for the other cases is
therefore never used, and an automaton moves whenever it can.

* `Simulation.exists_turn`: a turn has a result if the draw in it ends
* `Simulation.moves_iff`: an automaton moves exactly if one of its transitions can be taken
* `Simulation.analyze_leaves_no_gap`: channels and arbiters are complete, and so automata move
-/

namespace TimedAutomata
namespace Simulation

variable {p : Program} {aid : AutomatonId} {a : Automaton}

theorem exists_channel (hp : p.Analyzed) (ha : p.network[aid]? = some a) {tid : TransitionId}
    {t : Transition} (ht : a.transitions[tid]? = some t) :
    ∃ c channel, p.topology.channelOf? aid tid = some c ∧
      p.topology.channels[c]? = some channel := by
  rcases hp.binds.bound ha ht with ⟨c, hc, hroute⟩
  rw [Topology.routes, List.getElem?_map, Option.map_eq_some_iff] at hroute
  rcases hroute with ⟨channel, hchannel, -⟩
  exact ⟨c, channel, hc, hchannel⟩

/-- A turn has a result if chance decides among as many transitions as there are. -/
theorem exists_turn (hp : p.Analyzed) (ha : p.network[aid]? = some a) {s : Simulation}
    (h : ∀ n ≤ (a.outgoing (s.runner aid).state).length, s.source.Decisive n) :
    ∃ after event, s.turn p aid a = some (after, event) := by
  cases hhalted : (s.runner aid).halted with
  | true => exact ⟨s, none, by simp [turn, hhalted]⟩
  | false =>
    by_cases hout : a.outgoing (s.runner aid).state = []
    · exact ⟨s.halt aid, _, by simp [turn, hhalted, hout, halt]; rfl⟩
    · rcases exists_arbiter hp ha hout with ⟨arbiter, harbiter, hclasses⟩
      rw [← hclasses] at h
      have hsome := arbiter.isSome_select h (s.enabled p aid a (s.clock aid))
      rcases Option.isSome_iff_exists.1 hsome with ⟨d, hd⟩
      rw [turn_eq_map hhalted hout harbiter, hd]
      exact ⟨_, _, rfl⟩

/-- An automaton that is active and can leave its state moves exactly if it can take one of its
transitions. -/
theorem moves_iff (hp : p.Analyzed) (ha : p.network[aid]? = some a) {s after : Simulation}
    {event : Option Event} (hactive : (s.runner aid).halted = false)
    (hout : a.outgoing (s.runner aid).state ≠ []) (h : s.turn p aid a = some (after, event)) :
    (∃ step, event = some (.moved step)) ↔
      ∃ tid ∈ a.outgoing (s.runner aid).state, s.canTake p aid a (s.clock aid) tid = true := by
  have hturned := turned hp ha h
  generalize s.leg? p aid a = leg at hturned
  cases hturned with
  | idle halted => simp [hactive] at halted
  | halts _ ends => exact absurd ends hout
  | waits _ _ stuck =>
    constructor
    · rintro ⟨step, hstep⟩
      simp at hstep
    · rintro ⟨tid, htid, htake⟩
      simp [stuck tid htid] at htake
  | moves _ _ leaves ht hc hready hguard =>
    constructor
    · rintro -
      exact ⟨_, leaves, canTake_eq_true_iff.2 ⟨_, _, ht, hc, hguard, hready⟩⟩
    · rintro -
      exact ⟨_, rfl⟩

/-- Analysed programs leave no gap. Every transition has a channel, so that generated code tests
the channel for it; every state that can be left has an arbiter with one class for each of its
transitions, so that generated code uses this arbiter and simulations give it masks of the right
length. Hence, in whatever state an execution is, the turn of an automaton has a result, if chance
decides among any of its transitions; and an automaton that has not halted and can leave its state
takes a step in its turn exactly if one of its transitions has a true guard and a ready channel. -/
theorem analyze_leaves_no_gap {text : String} {c : Config} (h : analyze text c = .ok p) :
    (∀ {aid a tid t}, p.network[aid]? = some a → a.transitions[tid]? = some t →
      ∃ ch channel, p.topology.channelOf? aid tid = some ch ∧
        p.topology.channels[ch]? = some channel ∧
        Generation.enabledEntry p aid (tid, t) = .binary .and (.paren (.ofGuard t.guard.expr))
          (Generation.ready t.comm.direction channel.route.name)) ∧
    (∀ {aid a sid s}, p.network[aid]? = some a → a.states[sid]? = some s → s.outgoing ≠ [] →
      ∃ arbiter, p.policy.arbiter? aid sid = some arbiter ∧
        arbiter.classes.length = s.outgoing.length ∧
        Generation.arbiterOf p aid sid s.outgoing.length = arbiter ∧
        ∀ {sim : Simulation} (x source), (sim.runner aid).state = sid →
          (arbiter.select? (sim.enabled p aid a x) source).isSome = true) ∧
    (∀ (sim : Simulation) {aid a}, p.network[aid]? = some a →
      (∀ n ≤ (a.outgoing (sim.runner aid).state).length, sim.source.Decisive n) →
      ∃ after event, sim.turn p aid a = some (after, event)) ∧
    ∀ (sim : Simulation) {aid a after event}, p.network[aid]? = some a →
      (sim.runner aid).halted = false → a.outgoing (sim.runner aid).state ≠ [] →
      sim.turn p aid a = some (after, event) →
      ((∃ step, event = some (.moved step)) ↔
        ∃ tid ∈ a.outgoing (sim.runner aid).state, ∃ t ch, a.transitions[tid]? = some t ∧
          p.topology.channelOf? aid tid = some ch ∧ t.guard.holds (sim.clock aid) = true ∧
          sim.ready t.comm.direction ch = true) := by
  have hp := analyzed_of_analyze h
  refine ⟨?_, ?_, ?_, ?_⟩
  · intro aid a tid t ha ht
    rcases exists_channel hp ha ht with ⟨ch, channel, hch, hchannel⟩
    refine ⟨ch, channel, hch, hchannel, ?_⟩
    simp [Generation.enabledEntry, Generation.channelName?, hch, hchannel]
  · intro aid a sid s ha hs hout
    rcases hp.arbiter ha hs hout with ⟨arbiter, harbiter, hclasses⟩
    refine ⟨arbiter, harbiter, hclasses, by simp [Generation.arbiterOf, harbiter], ?_⟩
    intro sim x source hstate
    have hmask : (sim.enabled p aid a x).length = arbiter.classes.length := by
      rw [length_enabled, hstate, Automaton.outgoing_eq hs, hclasses]
    simp [Arbiter.select?, hmask]
  · intro sim aid a ha hdecisive
    exact exists_turn hp ha hdecisive
  · intro sim aid a after event ha hactive hout hturn
    simp only [moves_iff hp ha hactive hout hturn, canTake_eq_true_iff]

/-- At the start of this program the sender moves, and the receiver has to wait for it. -/
theorem analyze_leaves_no_gap_sender : ∃ p a b,
    analyze "Cta A=Init s;s B!m(x<5)s;s B!n()t;Cta B=Init s;s A?m()s;s A?n()s;"
      ⟨.default, [⟨"A", "s", [⟨0, .default, none⟩, ⟨1, .default, none⟩]⟩,
        ⟨"B", "s", [⟨0, .exclusive, none⟩, ⟨1, .ranked, some 3⟩]⟩]⟩ = .ok p ∧
    p.network[0]? = some a ∧ p.network[1]? = some b ∧
    (∃ after step, (start p .default).turn p 0 a = some (after, some (.moved step))) ∧
    ∃ after event, (start p .default).turn p 1 b = some (after, event) ∧
      ¬ ∃ step, event = some (.moved step) := by
  rcases Fallible.exists_ok_of_any
    (x := analyze "Cta A=Init s;s B!m(x<5)s;s B!n()t;Cta B=Init s;s A?m()s;s A?n()s;"
      ⟨.default, [⟨"A", "s", [⟨0, .default, none⟩, ⟨1, .default, none⟩]⟩,
        ⟨"B", "s", [⟨0, .exclusive, none⟩, ⟨1, .ranked, some 3⟩]⟩]⟩)
    (P := fun p => (start p .default).runner 0 = ⟨0, 0, false⟩ ∧
      (start p .default).runner 1 = ⟨0, 0, false⟩ ∧
      ∃ a ∈ p.network[0]?, ∃ b ∈ p.network[1]?, a.outgoing 0 = [0, 1] ∧
        (start p .default).canTake p 0 a 0 1 = true ∧ b.outgoing 0 = [0, 1] ∧
        ∀ tid ∈ b.outgoing 0, ¬ (start p .default).canTake p 1 b 0 tid = true)
    (by decide +kernel) with
    ⟨p, hp, hfirst, hsecond, a, ha, b, hb, hout, htake, hleaves, hstuck⟩
  -- the third word of this seed decides among two
  have hdecisive : ∀ n ≤ 2, (start p .default).source.Decisive n := by
    have hword : ∀ n ≤ 2, Random.accept? n ((Random.Source.ofSeed 0).word 2) ≠ none := by
      decide +kernel
    exact fun n hn => ⟨2, Nat.zero_le _, hword n hn⟩
  rcases analyze_leaves_no_gap hp with ⟨-, -, hresult, hmoves⟩
  refine ⟨p, a, b, hp, ha, hb, ?_, ?_⟩
  · rcases hresult (start p .default) ha (by simpa [hfirst, hout] using hdecisive) with
      ⟨after, event, hturn⟩
    have hmoved := hmoves _ ha (by rw [hfirst]) (by simp [hfirst, hout]) hturn
    rw [hfirst, hout] at hmoved
    rcases hmoved.2 ⟨1, by simp, canTake_eq_true_iff.1 (by rw [clock, hfirst]; exact htake)⟩ with
      ⟨step, rfl⟩
    exact ⟨after, step, hturn⟩
  · rcases hresult (start p .default) hb (by simpa [hsecond, hleaves] using hdecisive) with
      ⟨after, event, hturn⟩
    refine ⟨after, event, hturn, ?_⟩
    rw [hmoves _ hb (by rw [hsecond]) (by simp [hsecond, hleaves]) hturn, hsecond]
    rintro ⟨tid, htid, htake⟩
    rw [clock, hsecond] at htake
    exact hstuck tid htid (canTake_eq_true_iff.2 htake)

end Simulation
end TimedAutomata
