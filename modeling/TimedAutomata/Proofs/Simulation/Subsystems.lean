import Mathlib.Data.List.Permutation
import TimedAutomata.Proofs.Compilation.Union
import TimedAutomata.Proofs.Simulation.Progress
import TimedAutomata.Proofs.Simulation.Runs

/-!
# Closed subsystems

Two networks that do not talk to each other can be simulated together. They share the time, the
order of turns, the table of channels and one source of random words; still, what the first of
them does is what it does alone, provided that the second one leaves no tie to chance.

* `Arbiter.Determined`: an arbiter that leaves no tie to chance draws no random words
* `Simulation.exists_turn_of_determined`: turns without chance
* `Program.Shelters`: the first automata of a program are left alone by the others
* `Simulation.turn_part`, `Simulation.part_turn`: turns inside and outside of the part
* `Simulation.ticks_part`: an execution, seen from the part
* `Simulation.subsystem_runs_alone`: two networks side by side
-/

namespace TimedAutomata

/-! ## Arbiters without chance -/

namespace Arbiter

/-- Every tier whose ties are left to chance has a single member. -/
def Determined (a : Arbiter) : Prop :=
  ∀ tier ∈ a.tiers, tier.tieBreak = .random → tier.ordinals.length = 1

theorem exists_selectFrom_eq {ts : List Tier}
    (h : ∀ t ∈ ts, t.tieBreak = .random → t.ordinals.length = 1) (enabled : List Bool) :
    ∃ choice, ∀ s, selectFrom enabled s ts = some (choice, s) := by
  induction ts with
  | nil => exact ⟨none, fun _ => rfl⟩
  | cons t ts ih =>
    rw [List.forall_mem_cons] at h
    have hfew : (candidates enabled t).length ≤ t.ordinals.length := List.length_filter_le _ _
    cases hcandidates : candidates enabled t with
    | nil => simpa [selectFrom, hcandidates] using ih h.2
    | cons i others =>
      refine ⟨some i, fun s => ?_⟩
      cases others with
      | nil => simp [selectFrom, hcandidates]
      | cons j more =>
        cases htie : t.tieBreak with
        | first => simp [selectFrom, hcandidates, htie]
        | random =>
          -- a tie needs two members
          rw [hcandidates, h.1 htie] at hfew
          simp at hfew

/-- An arbiter that leaves no tie to chance decides alike whatever words are to come, and leaves
them to come. -/
theorem Determined.exists_select {a : Arbiter} (h : a.Determined) (enabled : List Bool) :
    ∃ choice, ∀ s, a.select enabled s = some (choice, s) :=
  exists_selectFrom_eq h enabled

theorem Determined.rest_eq {a : Arbiter} (h : a.Determined) {enabled : List Bool}
    {s rest : Random.Source} {choice : Option Nat}
    (hselect : a.select enabled s = some (choice, rest)) : rest = s := by
  rcases h.exists_select enabled with ⟨other, hother⟩
  simp only [hother, Option.some.injEq, Prod.mk.injEq] at hselect
  exact hselect.2.symm

end Arbiter

/-! ## Programs and their parts -/

/-- The first automata of `whole` are the program `p`, and the others leave it alone: they use other
channels and draw no random words. -/
structure Program.Shelters (whole p : Program) : Prop where
  network : p.network <+: whole.network
  labels : (whole.network.map Automaton.label).Nodup
  channels : p.topology.channels <+: whole.topology.channels
  channel : ∀ i < p.network.length, ∀ tid,
    whole.topology.channelOf? i tid = p.topology.channelOf? i tid
  arbiter : ∀ i < p.network.length, ∀ sid, whole.policy.arbiter? i sid = p.policy.arbiter? i sid
  inside : ∀ {i tid c}, p.topology.channelOf? i tid = some c → c < p.topology.channels.length
  outside : ∀ {i tid c}, p.network.length ≤ i → i < whole.network.length →
    whole.topology.channelOf? i tid = some c → p.topology.channels.length ≤ c
  determined : ∀ {i sid arbiter}, p.network.length ≤ i → i < whole.network.length →
    whole.policy.arbiter? i sid = some arbiter → arbiter.Determined

namespace Simulation

variable {whole p : Program} {s : Simulation} {i : AutomatonId} {a : Automaton}

/-- The part of an execution that belongs to the first automata and the first channels: those of
the program `p`. -/
def part (p : Program) (s : Simulation) : Simulation :=
  { s with
    runners := s.runners.take p.network.length
    fill := s.fill.take p.topology.channels.length }

theorem runner_part (hi : i < p.network.length) : (s.part p).runner i = s.runner i := by
  simp [runner, part, List.getD_eq_getElem?_getD, List.getElem?_take_of_lt hi]

theorem fillOf_part {c : ChannelId} (hc : c < p.topology.channels.length) :
    (s.part p).fillOf c = s.fillOf c := by
  simp [fillOf, part, List.getD_eq_getElem?_getD, List.getElem?_take_of_lt hc]

/-! ## Turns inside -/

section Inside

variable (h : whole.Shelters p) (hi : i < p.network.length)
include h hi

theorem canTake_part (x : Nat) (tid : TransitionId) :
    (s.part p).canTake p i a x tid = s.canTake whole i a x tid := by
  unfold canTake
  rw [h.channel i hi]
  cases ht : a.transitions[tid]? with
  | none => rfl
  | some t =>
    cases hc : p.topology.channelOf? i tid with
    | none => rfl
    | some c =>
      have hfill : (s.part p).fillOf c = s.fillOf c := fillOf_part (h.inside hc)
      have hdepth : (s.part p).depth = s.depth := rfl
      cases hd : t.comm.direction <;> simp [ready, hfill, hdepth, hd]

theorem enabled_part (x : Nat) : (s.part p).enabled p i a x = s.enabled whole i a x := by
  unfold enabled
  rw [runner_part hi]
  exact List.map_congr_left fun tid _ => canTake_part h hi x tid

theorem perform_part (tid : TransitionId) (t : Transition) :
    (s.part p).perform p i tid t = (s.perform whole i tid t).part p := by
  unfold perform
  simp only [runner_part hi, h.channel i hi]
  cases hc : p.topology.channelOf? i tid with
  | none => simp [part, List.take_set]
  | some c => simp [part, List.take_set, ← fillOf_part (s := s) (h.inside hc)]

theorem follow_part (x : Nat) (choice : Option Nat) :
    (s.part p).follow p i a x choice =
      ((s.follow whole i a x choice).1.part p, (s.follow whole i a x choice).2) := by
  unfold follow
  simp only [runner_part hi]
  split
  · rfl
  · split
    · rfl
    · next tid _ =>
      split
      · rfl
      · next t _ => exact Prod.ext (perform_part h hi tid t) rfl

/-- A turn of an automaton of the part is its turn in the part. -/
theorem turn_part :
    (s.part p).turn p i a = (s.turn whole i a).map fun r => (r.1.part p, r.2) := by
  unfold turn
  simp only [runner_part hi, enabled_part h hi, h.arbiter i hi]
  split
  · rfl
  · split
    · simp [part, List.take_set]
    · split
      · rfl
      · next arbiter _ =>
        -- both draw the same word, if they draw one
        have hsource : (s.part p).source = s.source := rfl
        have hnow : (s.part p).now = s.now := rfl
        rw [hsource, hnow]
        cases arbiter.select (s.enabled whole i a (s.now - (s.runner i).epoch)) s.source with
        | none => rfl
        | some d => exact congrArg some (follow_part (s := s.withSource d.2) h hi _ d.1)

end Inside

/-! ## Turns outside -/

theorem follow_withSource (x : Nat) (choice : Option Nat) (source : Random.Source) :
    (s.withSource source).follow p i a x choice =
      ((s.follow p i a x choice).1.withSource source, (s.follow p i a x choice).2) := by
  unfold follow
  simp only [runner_withSource]
  split
  · rfl
  · split
    · rfl
    · split <;> rfl

/-- Where the arbiter leaves no tie to chance, a turn has a result, which neither depends on the
words to come nor draws one. -/
theorem exists_turn_of_determined (p : Program) (s : Simulation) (a : Automaton)
    (h : ∀ arbiter, p.policy.arbiter? i (s.runner i).state = some arbiter → arbiter.Determined) :
    ∃ (after : Simulation) (event : Option Event), ∀ source,
      (s.withSource source).turn p i a = some (after.withSource source, event) := by
  cases hhalted : (s.runner i).halted with
  | true => exact ⟨s, none, fun source => by simp [turn, hhalted]⟩
  | false =>
    by_cases hout : a.outgoing (s.runner i).state = []
    · refine ⟨s.halt i, some (.halted a.label (a.stateName (s.runner i).state)), fun source => ?_⟩
      simp only [turn, runner_withSource, hhalted, hout, List.isEmpty_nil, Bool.false_eq_true,
        if_false, if_true]
      rfl
    · cases harbiter : p.policy.arbiter? i (s.runner i).state with
      | none => exact ⟨s, none, fun source => by simp [turn, hhalted, hout, harbiter]⟩
      | some arbiter =>
        rcases (h arbiter harbiter).exists_select (s.enabled p i a (s.clock i)) with
          ⟨choice, hchoice⟩
        refine ⟨(s.follow p i a (s.clock i) choice).1, (s.follow p i a (s.clock i) choice).2,
          fun source => ?_⟩
        have henabled : (s.withSource source).enabled p i a ((s.withSource source).clock i) =
            s.enabled p i a (s.clock i) := rfl
        rw [turn_eq_map (s := s.withSource source) hhalted hout harbiter, henabled, hchoice]
        exact congrArg some (follow_withSource (s := s) (s.clock i) choice source)

/-- A turn of another automaton does not touch the part. -/
theorem part_turn (h : whole.Shelters p) (hge : p.network.length ≤ i)
    (hlt : i < whole.network.length) (s : Simulation) (a : Automaton) :
    ∃ after event, s.turn whole i a = some (after, event) ∧ after.part p = s.part p := by
  -- what is written lies behind the part, among the runners as well as among the channels
  have hrunners : ∀ r, (s.runners.set i r).take p.network.length =
      s.runners.take p.network.length := fun r => List.take_set_of_le hge
  rcases exists_turn_of_determined whole s a fun _ => h.determined hge hlt with
    ⟨after, event, hresult⟩
  have hturn : s.turn whole i a = some (after.withSource s.source, event) := hresult s.source
  refine ⟨_, _, hturn, ?_⟩
  have hdone := done_turn hturn
  generalize after.withSource s.source = after' at hdone ⊢
  cases hdone with
  | idle => rfl
  | halts => simp [part, halt, hrunners]
  | waits harbiter hselect =>
    rw [(h.determined hge hlt harbiter).rest_eq hselect]
    rfl
  | moves harbiter hselect tid t =>
    rw [(h.determined hge hlt harbiter).rest_eq hselect]
    cases hc : whole.topology.channelOf? i tid with
    | none => simp [part, withSource, perform, hc, hrunners]
    | some c =>
      have hfill : ∀ n, (s.fill.set c n).take p.topology.channels.length =
          s.fill.take p.topology.channels.length :=
        fun n => List.take_set_of_le (h.outside hge hlt hc)
      simp [part, withSource, perform, hc, hrunners, hfill]

/-! ## Events -/

/-- The label of the automaton that an event is about. -/
def Event.automaton : Event → String
  | .halted automaton _ => automaton
  | .moved step => step.automaton

/-- What happened to the automata of a network. -/
def eventsOf (net : Network) (events : List Event) : List Event :=
  events.filter fun e => e.automaton ∈ net.map Automaton.label

@[simp] theorem eventsOf_append (net : Network) (es fs : List Event) :
    eventsOf net (es ++ fs) = eventsOf net es ++ eventsOf net fs :=
  List.filter_append ..

theorem steps_eventsOf (net : Network) (events : List Event) :
    steps (eventsOf net events) =
      (steps events).filter fun st => st.automaton ∈ net.map Automaton.label := by
  rw [steps, steps, eventsOf, List.filterMap_filter, List.filter_filterMap]
  refine List.filterMap_congr fun e _ => ?_
  cases e with
  | halted automaton state => simp [Event.step?]
  | moved step =>
    simp only [Event.step?, Event.automaton, Option.filter_some]
    rfl

/-- An event is reported under the label of the automaton that has the turn. -/
theorem automaton_of_turn {after : Simulation} {event : Option Event}
    (h : s.turn p i a = some (after, event)) : ∀ e ∈ event.toList, e.automaton = a.label := by
  cases done_turn h <;> simp [Event.automaton, report]

theorem automaton_of_turns {xs : List (Automaton × AutomatonId)} {after : Simulation}
    {events : List Event} (h : turns p s xs = some (after, events)) :
    ∀ e ∈ events, ∃ x ∈ xs, e.automaton = x.1.label := by
  induction xs generalizing s events with
  | nil =>
    rcases turns_nil_eq_some_iff.1 h with ⟨-, rfl⟩
    simp
  | cons x xs ih =>
    rcases turns_cons_eq_some_iff.1 h with ⟨middle, event, more, hturn, hturns, rfl⟩
    intro e he
    rcases List.mem_append.1 he with he | he
    · exact ⟨x, List.mem_cons_self, automaton_of_turn hturn e he⟩
    · rcases ih hturns e he with ⟨y, hy, heq⟩
      exact ⟨y, List.mem_cons_of_mem x hy, heq⟩

/-! ## Executions -/

theorem turns_part (h : whole.Shelters p) {xs : List (Automaton × AutomatonId)}
    (hxs : ∀ x ∈ xs, x.2 < p.network.length) (s : Simulation) :
    turns p (s.part p) xs = (turns whole s xs).map fun r => (r.1.part p, r.2) := by
  induction xs generalizing s with
  | nil => rfl
  | cons x xs ih =>
    rw [List.forall_mem_cons] at hxs
    simp only [turns, turn_part h hxs.1]
    cases s.turn whole x.2 x.1 with
    | none => rfl
    | some r =>
      simp only [Option.map_some, Option.bind_eq_bind, Option.bind_some, ih hxs.2]
      cases turns whole r.1 xs <;> rfl

theorem part_turns (h : whole.Shelters p) {xs : List (Automaton × AutomatonId)}
    (hxs : ∀ x ∈ xs, p.network.length ≤ x.2 ∧ x.2 < whole.network.length) (s : Simulation) :
    ∃ after events, turns whole s xs = some (after, events) ∧ after.part p = s.part p := by
  induction xs generalizing s with
  | nil => exact ⟨s, [], rfl, rfl⟩
  | cons x xs ih =>
    rw [List.forall_mem_cons] at hxs
    rcases part_turn h hxs.1.1 hxs.1.2 s x.1 with ⟨middle, event, hturn, hmiddle⟩
    rcases ih hxs.2 middle with ⟨after, events, hturns, hafter⟩
    exact ⟨after, event.toList ++ events,
      turns_cons_eq_some_iff.2 ⟨middle, event, events, hturn, hturns, rfl⟩, hafter.trans hmiddle⟩

/-- A tick, seen from the part: first the turns inside, then those outside. -/
theorem tick_part (h : whole.Shelters p) (s : Simulation) :
    (s.part p).tick p = (s.tick whole).map fun r => (r.1.part p, eventsOf p.network r.2) := by
  rcases h.network with ⟨rest, hrest⟩
  have horder : whole.network.zipIdx = p.network.zipIdx ++ rest.zipIdx p.network.length := by
    rw [← hrest, List.zipIdx_append, Nat.zero_add]
  have hinside : ∀ x ∈ p.network.zipIdx, x.2 < p.network.length := by
    intro x hx
    simpa using List.snd_lt_add_of_mem_zipIdx hx
  have houtside : ∀ x ∈ rest.zipIdx p.network.length,
      p.network.length ≤ x.2 ∧ x.2 < whole.network.length := by
    intro x hx
    refine ⟨List.le_snd_of_mem_zipIdx hx, ?_⟩
    rw [← hrest, List.length_append]
    exact List.snd_lt_add_of_mem_zipIdx hx
  simp only [tick, turns_part h hinside, horder, turns_append]
  cases hturns : turns whole s p.network.zipIdx with
  | none => rfl
  | some r =>
    rcases part_turns h houtside r.1 with ⟨after, events, houter, hpart⟩
    have hkept : eventsOf p.network r.2 = r.2 := by
      refine List.filter_eq_self.2 fun e he => decide_eq_true ?_
      rcases automaton_of_turns hturns e he with ⟨x, hx, heq⟩
      rw [heq]
      exact List.mem_map_of_mem (List.fst_mem_of_mem_zipIdx hx)
    -- an event outside is reported under a label that no automaton of the part has
    have hdropped : eventsOf p.network events = [] := by
      have hlabels := h.labels
      rw [← hrest, List.map_append, List.nodup_append] at hlabels
      refine List.filter_eq_nil_iff.2 fun e he hmem => ?_
      rcases automaton_of_turns houter e he with ⟨x, hx, heq⟩
      rw [decide_eq_true_eq, heq] at hmem
      exact hlabels.2.2 _ hmem _ (List.mem_map_of_mem (List.fst_mem_of_mem_zipIdx hx)) rfl
    simp only [some_andThen, houter, Option.map_some, Option.bind_eq_bind, Option.bind_some,
      Option.pure_def, eventsOf_append, hkept, hdropped, List.append_nil]
    rw [← hpart]
    rfl

/-- An execution, seen from the part, is an execution of the part. -/
theorem ticks_part (h : whole.Shelters p) (n : Nat) (s : Simulation) :
    ticks p n (s.part p) =
      (ticks whole n s).map fun r => (r.1.part p, eventsOf p.network r.2) := by
  induction n generalizing s with
  | zero => rfl
  | succ n ih =>
    rw [ticks_succ, ticks_succ, tick_part h]
    cases s.tick whole with
    | none => rfl
    | some r => simp [some_andThen, ih, Function.comp_def]

theorem start_part (h : whole.Shelters p) (o : Options) :
    (start whole o).part p = start p o := by
  rcases h.network with ⟨rest, hrest⟩
  rcases h.channels with ⟨more, hmore⟩
  simp [part, start, ← hrest, ← hmore]

/-! ## Two networks -/

section Append

variable {P Q : Network} {tP tQ : Topology} {πP πQ : Policy} {eP eQ : List ArbitrationEntry}

/-- Two networks that can be resolved can be resolved together, and the first is left alone if the
arbiters of the second leave no tie to chance. -/
theorem exists_shelters (hlabels : ((P ++ Q).map Automaton.label).Nodup)
    (htP : Topology.resolve P = .ok tP) (htQ : Topology.resolve Q = .ok tQ)
    (hπP : Policy.resolve P eP = .ok πP) (hπQ : Policy.resolve Q eQ = .ok πQ)
    (hdetermined : ∀ aid sid arbiter, πQ.arbiter? aid sid = some arbiter → arbiter.Determined)
    {entries : List ArbitrationEntry} (hentries : entries.Perm (eP ++ eQ)) :
    ∃ t π, Topology.resolve (P ++ Q) = .ok t ∧ Policy.resolve (P ++ Q) entries = .ok π ∧
      t.channels = tP.channels ++ tQ.channels.map (Channel.shift P.length) ∧
      Program.Shelters ⟨P ++ Q, t, π⟩ ⟨P, tP, πP⟩ := by
  rcases Topology.resolve_append hlabels htP htQ with ⟨t, ht, hchannels, hchannelP, hchannelQ⟩
  rcases Policy.resolve_append hlabels hπP hπQ hentries with ⟨π, hπ, harbiterP, harbiterQ⟩
  refine ⟨t, π, ht, hπ, hchannels, ?_⟩
  -- what stands behind `P` stands in `Q`
  have hposition : ∀ {i : AutomatonId}, P.length ≤ i → i < (P ++ Q).length →
      ∃ j < Q.length, i = P.length + j := by
    intro i hge hlt
    rw [List.length_append] at hlt
    exact ⟨i - P.length, Nat.sub_lt_left_of_lt_add hge hlt, (Nat.add_sub_cancel' hge).symm⟩
  refine ⟨List.prefix_append P Q, hlabels, ?_, hchannelP, harbiterP, ?_, ?_, ?_⟩
  · rw [hchannels]
    exact List.prefix_append _ _
  · intro i tid c hc
    rcases (Topology.channelOf?_eq_some_iff htP).1 hc with ⟨a, tr, -, -, hroute⟩
    simpa [Topology.routes] using (List.getElem?_eq_some_iff.1 hroute).1
  · intro i tid c hge hlt hc
    rcases hposition hge hlt with ⟨j, hj, rfl⟩
    rw [hchannelQ j hj, Option.map_eq_some_iff] at hc
    rcases hc with ⟨d, -, rfl⟩
    exact Nat.le_add_right _ _
  · intro i sid arbiter hge hlt harbiter
    rcases hposition hge hlt with ⟨j, hj, rfl⟩
    rw [harbiterQ j hj] at harbiter
    exact hdetermined j sid arbiter harbiter

/-- Closed subsystems do not interfere. Let two networks with different labels each have a topology
and a policy, and let the arbiters of the second leave no tie to chance. Then both networks one
after the other have a topology and a policy too, with the entries of both in any order; the
channels are those of the first and then those of the second. Any number of ticks of both, with any
options, has a result exactly if as many ticks without the second have one; and then the automata of
the first network are in the same states, halted or not, with the same clocks, their channels hold
as many messages, and they have taken the same steps. -/
theorem subsystem_runs_alone (hlabels : ((P ++ Q).map Automaton.label).Nodup)
    (htP : Topology.resolve P = .ok tP) (htQ : Topology.resolve Q = .ok tQ)
    (hπP : Policy.resolve P eP = .ok πP) (hπQ : Policy.resolve Q eQ = .ok πQ)
    (hdetermined : ∀ aid sid arbiter, πQ.arbiter? aid sid = some arbiter → arbiter.Determined)
    (entries : List ArbitrationEntry) (hentries : entries.Perm (eP ++ eQ)) :
    ∃ t π, Topology.resolve (P ++ Q) = .ok t ∧ Policy.resolve (P ++ Q) entries = .ok π ∧
      t.channels = tP.channels ++ tQ.channels.map (Channel.shift P.length) ∧
      ∀ (o : Options) (n : Nat),
        let both := ticks ⟨P ++ Q, t, π⟩ n (start ⟨P ++ Q, t, π⟩ o)
        let alone := ticks ⟨P, tP, πP⟩ n (start ⟨P, tP, πP⟩ o)
        (both = none ↔ alone = none) ∧
        ∀ {after after' events events'},
          both = some (after, events) → alone = some (after', events') →
          after.runners.take P.length = after'.runners ∧
          (∀ aid < P.length, after.clock aid = after'.clock aid) ∧
          after.fill.take tP.channels.length = after'.fill ∧
          (steps events).filter (fun st => st.automaton ∈ P.map Automaton.label) =
            steps events' := by
  rcases exists_shelters hlabels htP htQ hπP hπQ hdetermined hentries with
    ⟨t, π, ht, hπ, hchannels, hshelters⟩
  refine ⟨t, π, ht, hπ, hchannels, ?_⟩
  intro o n both alone
  have hticks : alone = both.map fun r => (r.1.part ⟨P, tP, πP⟩, eventsOf P r.2) := by
    have hpart := ticks_part hshelters n (start ⟨P ++ Q, t, π⟩ o)
    rwa [start_part hshelters] at hpart
  refine ⟨by rw [hticks, Option.map_eq_none_iff], ?_⟩
  intro after after' events events' hboth halone
  rw [hticks, hboth, Option.map_some, Option.some.injEq, Prod.mk.injEq] at halone
  obtain ⟨rfl, rfl⟩ := halone
  refine ⟨rfl, ?_, rfl, (steps_eventsOf P events).symm⟩
  intro aid haid
  rw [clock, clock, runner_part haid]
  rfl

end Append

/-- A sender that leaves its choice to chance keeps its choices beside one that goes by ranks. -/
theorem subsystem_runs_alone_beside_ranks : ∃ p q t π,
    analyze "Cta A=Init s;s B!m()s;s B!n()s;Cta B=Init t;t A?m()t;t A?n()t;"
      ⟨.default, [⟨"A", "s", [⟨0, .default, none⟩, ⟨1, .default, none⟩]⟩,
        ⟨"B", "t", [⟨1, .default, none⟩, ⟨0, .exclusive, none⟩]⟩]⟩ = .ok p ∧
    analyze "Cta C=Init u;u D!m()u;u D!n(x<3)u;Cta D=Init v;v C?m()w;w C?n()w;"
      ⟨.default, [⟨"C", "u", [⟨0, .ranked, some 2⟩, ⟨1, .ranked, some 1⟩]⟩]⟩ = .ok q ∧
    p.policy.arbiter? 0 0 = some ⟨[.default, .default]⟩ ∧
    q.policy.arbiter? 0 0 = some ⟨[.ranked 2, .ranked 1]⟩ ∧
    Topology.resolve (p.network ++ q.network) = .ok t ∧
    Policy.resolve (p.network ++ q.network)
      [⟨"B", "t", [⟨1, .default, none⟩, ⟨0, .exclusive, none⟩]⟩,
        ⟨"C", "u", [⟨0, .ranked, some 2⟩, ⟨1, .ranked, some 1⟩]⟩,
        ⟨"A", "s", [⟨0, .default, none⟩, ⟨1, .default, none⟩]⟩] = .ok π ∧
    t.channels = p.topology.channels ++ [⟨⟨"C", "D", "m"⟩, 2, 3⟩, ⟨⟨"C", "D", "n"⟩, 2, 3⟩] ∧
    (∃ after events, ticks p 1 (start p ⟨1, 7⟩) = some (after, events)) ∧
    ∀ n after events after' events',
      ticks ⟨p.network ++ q.network, t, π⟩ n
        (start ⟨p.network ++ q.network, t, π⟩ ⟨1, 7⟩) = some (after, events) →
      ticks p n (start p ⟨1, 7⟩) = some (after', events') →
      (steps events).filter (fun st => st.automaton ∈ ["A", "B"]) = steps events' := by
  rcases Fallible.exists_ok_of_any
    (x := analyze "Cta A=Init s;s B!m()s;s B!n()s;Cta B=Init t;t A?m()t;t A?n()t;"
      ⟨.default, [⟨"A", "s", [⟨0, .default, none⟩, ⟨1, .default, none⟩]⟩,
        ⟨"B", "t", [⟨1, .default, none⟩, ⟨0, .exclusive, none⟩]⟩]⟩)
    (P := fun p => p.network.map Automaton.label = ["A", "B"] ∧
      p.policy.arbiter? 0 0 = some ⟨[.default, .default]⟩ ∧
      p.policy.arbiter? 1 0 = some ⟨[.exclusive, .default]⟩ ∧
      ∀ a ∈ p.network, a.states.length = 1 ∧ (a.outgoing 0).length ≤ 2)
    (by decide +kernel) with ⟨p, hp, hlabelsP, harbiterP, harbiterB, hsmall⟩
  rcases Fallible.exists_ok_of_any
    (x := analyze "Cta C=Init u;u D!m()u;u D!n(x<3)u;Cta D=Init v;v C?m()w;w C?n()w;"
      ⟨.default, [⟨"C", "u", [⟨0, .ranked, some 2⟩, ⟨1, .ranked, some 1⟩]⟩]⟩)
    (P := fun q => q.network.map Automaton.label = ["C", "D"] ∧
      q.topology.channels = [⟨⟨"C", "D", "m"⟩, 0, 1⟩, ⟨⟨"C", "D", "n"⟩, 0, 1⟩] ∧
      q.policy.arbiters = [((0, 0), ⟨[.ranked 2, .ranked 1]⟩), ((1, 0), ⟨[.default]⟩),
        ((1, 1), ⟨[.default]⟩)])
    (by decide +kernel) with ⟨q, hq, hlabelsQ, hchannelsQ, harbitersQ⟩
  rcases analyze_eq_ok_iff.1 hp with ⟨-, htP, hπP⟩
  rcases analyze_eq_ok_iff.1 hq with ⟨-, htQ, hπQ⟩
  have hlabels : ((p.network ++ q.network).map Automaton.label).Nodup := by
    rw [List.map_append, hlabelsP, hlabelsQ]
    decide
  have hlength : p.network.length = 2 := by
    rw [← List.length_map Automaton.label, hlabelsP]
    rfl
  -- the first word of this seed decides among two, and the receiver has no choice
  have hresult : ∃ after events, ticks p 1 (start p ⟨1, 7⟩) = some (after, events) := by
    have hanalyzed := analyzed_of_analyze hp
    have hplaced := placed_start hanalyzed ⟨1, 7⟩
    have hexclusive : (Arbiter.mk [.exclusive, .default]).tiers =
        [⟨.first, [0]⟩, ⟨.random, [1]⟩] := by cbv
    have hword : ∀ n ≤ 2, Random.accept? n ((Random.Source.ofSeed 7).word 0) ≠ none := by
      decide +kernel
    rcases List.length_eq_two.1 hlength with ⟨a, b, hab⟩
    simp only [hab, List.forall_mem_cons, List.not_mem_nil, false_imp_iff, implies_true] at hsmall
    have ha : p.network[0]? = some a := by simp [hab]
    have hb : p.network[1]? = some b := by simp [hab]
    have hstart := hplaced.state ha
    rw [hsmall.1.1, Nat.lt_one_iff] at hstart
    have hdecisive : ∀ n ≤ (a.outgoing ((start p ⟨1, 7⟩).runner 0).state).length,
        (start p ⟨1, 7⟩).source.Decisive n := by
      rw [hstart]
      exact fun n hn => ⟨0, Nat.zero_le _, hword n (Nat.le_trans hn hsmall.1.2)⟩
    rcases exists_turn hanalyzed ha hdecisive with ⟨middle, event, hfirst⟩
    have hstate := (hplaced.turn hanalyzed ha hfirst).state hb
    rw [hsmall.2.1.1, Nat.lt_one_iff] at hstate
    rcases exists_turn_of_determined p middle b (i := 1) (by
      rw [hstate, harbiterB]
      rintro arbiter ⟨⟩
      simp [Arbiter.Determined, hexclusive]) with ⟨after, event', hsecond⟩
    have hturns : turns p (start p ⟨1, 7⟩) p.network.zipIdx = some (after.withSource middle.source,
        event.toList ++ (event'.toList ++ [])) := by
      rw [hab]
      exact turns_cons_eq_some_iff.2 ⟨middle, event, _, hfirst,
        turns_cons_eq_some_iff.2 ⟨_, event', [], hsecond middle.source, rfl, rfl⟩, rfl⟩
    exact ⟨_, _, ticks_succ_eq_some_iff.2
      ⟨_, _, [], tick_eq_some_iff.2 ⟨_, hturns, rfl⟩, rfl, rfl⟩⟩
  have hdetermined : ∀ aid sid arbiter, q.policy.arbiter? aid sid = some arbiter →
      arbiter.Determined := by
    have hranked : (Arbiter.mk [.ranked 2, .ranked 1]).tiers =
        [⟨.random, [1]⟩, ⟨.random, [0]⟩] := by cbv
    have hdefault : (Arbiter.mk [.default]).tiers = [⟨.random, [0]⟩] := by cbv
    intro aid sid arbiter harbiter
    have hmem := mem_of_lookup harbiter
    rw [harbitersQ] at hmem
    simp only [List.mem_cons, Prod.mk.injEq, List.not_mem_nil, or_false] at hmem
    rcases hmem with ⟨-, rfl⟩ | ⟨-, rfl⟩ | ⟨-, rfl⟩
    · simp [Arbiter.Determined, hranked]
    · simp [Arbiter.Determined, hdefault]
    · simp [Arbiter.Determined, hdefault]
  rcases subsystem_runs_alone hlabels htP htQ hπP hπQ hdetermined
    [⟨"B", "t", [⟨1, .default, none⟩, ⟨0, .exclusive, none⟩]⟩,
      ⟨"C", "u", [⟨0, .ranked, some 2⟩, ⟨1, .ranked, some 1⟩]⟩,
      ⟨"A", "s", [⟨0, .default, none⟩, ⟨1, .default, none⟩]⟩] (by decide) with
    ⟨t, π, ht, hπ, hchannels, hruns⟩
  refine ⟨p, q, t, π, hp, hq, harbiterP, ?_, ht, hπ, ?_, hresult, ?_⟩
  · rw [Policy.arbiter?, harbitersQ]
    rfl
  · rw [hchannels, hchannelsQ, hlength]
    rfl
  · intro n after events after' events' hboth halone
    rw [← hlabelsP]
    exact ((hruns ⟨1, 7⟩ n).2 hboth halone).2.2.2

end Simulation
end TimedAutomata
