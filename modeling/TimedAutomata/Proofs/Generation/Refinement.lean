import Mathlib.Data.List.Nodup
import TimedAutomata.Proofs.Generation.Naming
import TimedAutomata.Proofs.Generation.Sharing
import TimedAutomata.Proofs.Simulation.Moves

/-!
# Workers and turns

A round of a worker does what a turn of its automaton does.

* `Mirrors`: a machine whose channels hold what those of a simulation hold
* `exec_defineFlags`: the worker finds the same transitions enabled
* `exec_choice`: it performs the transition that it has chosen
* `exec_switch_state`: all outcomes of the case of a state
* `exec_state_iff_turn`: these are the outcomes of a turn
-/

namespace TimedAutomata
namespace Generation

open Simulation (Move)

/-! ## Channels -/

/-- The machine of a worker and a simulation hold the same messages. -/
structure Mirrors (p : Program) (m : Machine) (sim : Simulation) : Prop where
  depth : m.depth = sim.depth
  level : ∀ {c : ChannelId} {r}, p.topology.routes[c]? = some r →
    m.channels r.name = some (sim.fillOf c)
  names : ∀ {name level}, m.channels name = some level → ∃ r ∈ p.topology.routes, r.name = name

/-- The machine whose channels hold what those of a simulation hold. -/
def mirror (p : Program) (sim : Simulation) : Machine where
  vars := []
  channels name := (p.topology.routes.findIdx? fun r => r.name == name).map sim.fillOf
  depth := sim.depth
  performed := []

/-- Where channels have names of their own, every simulation has its mirror. -/
theorem mirrors_mirror {p : Program} (hp : p.Analyzed) (h : collisions p = []) (sim : Simulation) :
    Mirrors p (mirror p sim) sim where
  depth := rfl
  level := by
    intro c r hr
    rcases List.getElem?_eq_some_iff.1 hr with ⟨hc, hget⟩
    have hfind : (p.topology.routes.findIdx? fun r' => r'.name == r.name) = some c := by
      rw [List.findIdx?_eq_some_iff_getElem]
      refine ⟨hc, by simp [hget], ?_⟩
      intro j hj hname
      -- an earlier channel of the same name would be the same channel
      have hsame : p.topology.routes[j] = r :=
        route_eq_of_name_eq hp h (List.getElem_mem _) (List.mem_of_getElem? hr)
          (by simpa using hname)
      have hindex := hp.binds.nodup.getElem_inj_iff.1 (hsame.trans hget.symm)
      omega
    simp [mirror, hfind]
  names := by
    intro name level hlevel
    simp only [mirror, Option.map_eq_some_iff, List.findIdx?_eq_some_iff_getElem] at hlevel
    rcases hlevel with ⟨c, ⟨hc, hname, -⟩, -⟩
    exact ⟨_, List.getElem_mem hc, by simpa using hname⟩

/-- The name of a channel in the program. -/
def channelName (p : Program) (c : ChannelId) : String :=
  (p.topology.routes[c]?.map Route.name).getD ""

section

variable {p : Program} {m : Machine} {sim : Simulation}

theorem Mirrors.allows (h : Mirrors p m sim) (d : Direction) (c : ChannelId) :
    m.allows d (sim.fillOf c) = sim.ready d c := by
  cases d <;> simp [Machine.allows, Simulation.ready, h.depth]

theorem Mirrors.hosts (h : Mirrors p m sim) : Hosts p m where
  present := by
    intro r hr
    rcases List.mem_iff_getElem?.1 hr with ⟨c, hc⟩
    exact ⟨_, h.level hc⟩
  names := h.names

end

/-! ## Enabled transitions -/

section

variable {p : Program} (hp : p.Analyzed) {aid : AutomatonId} {a : Automaton}
  (ha : p.network[aid]? = some a) {m : Machine} {sim : Simulation} (hm : Mirrors p m sim)
include hp ha hm

theorem eval_enabledEntry_eq_canTake {tid : TransitionId} {t : Transition}
    (ht : a.transitions[tid]? = some t) (l : Locals) (o : Option Nat) :
    (enabledEntry p aid (tid, t)).eval goCall (m.within l o) =
      .ret (.bool (sim.canTake p aid a l.clock tid)) := by
  rcases hp.binds.bound ha ht with ⟨c, hc, hroute⟩
  rw [eval_enabledEntry_within hp ha ht hm.hosts (hm.level hroute), hm.allows]
  simp [Simulation.canTake, ht, hc, Bool.and_comm]

/-- The flags of a worker are those of the simulation. -/
theorem exec_defineFlags {sid : StateId} {s : State} (hs : a.states[sid]? = some s) (l : Locals)
    (o : Option Nat) :
    (Stmt.defineFlags "enabled" ((leaving a s).map (enabledEntry p aid))).exec goCall
      (m.within l o) =
        .ret (.on, decided m l (s.outgoing.map (sim.canTake p aid a l.clock)) o) := by
  have hflags : ∀ tids : List TransitionId, (∀ tid ∈ tids, ∃ t, a.transitions[tid]? = some t) →
      Expr.evalAll goCall (m.within l o)
        ((tids.filterMap fun tid => a.transitions[tid]?.map fun t => (tid, t)).map
          (enabledEntry p aid)) =
        .ret (tids.map fun tid => .bool (sim.canTake p aid a l.clock tid)) := by
    intro tids htids
    induction tids with
    | nil => rfl
    | cons tid tids ih =>
      rw [List.forall_mem_cons] at htids
      rcases htids with ⟨⟨t, ht⟩, htids⟩
      simp [ht, Expr.evalAll, eval_enabledEntry_eq_canTake hp ha hm ht, ih htids]
  have hbools : ∀ tids : List TransitionId,
      flags? (tids.map fun tid => .bool (sim.canTake p aid a l.clock tid)) =
        some (tids.map (sim.canTake p aid a l.clock)) := by
    intro tids
    induction tids with
    | nil => rfl
    | cons tid tids ih => simp [flags?, ih]
  have hvalid := fun tid (htid : tid ∈ s.outgoing) =>
    (hp.wellFormed ha).exists_transition hs htid
  simp only [Stmt.exec, leaving, hflags s.outgoing hvalid, Runs.ret_andThen, hbools]
  rfl

end

/-! ## Performing a transition -/

/-- The worker after a move. -/
def after (p : Program) (a : Automaton) (m : Machine) (l : Locals) : Option Move → Machine
  | none => m.within l none
  | some v =>
    (m.communicated v.direction (channelName p v.channel)).within
      { l with
        state := a.stateName v.target
        epoch := if v.resets then l.now else l.epoch }
      (some v.ordinal)

theorem leave_decided (p : Program) (a : Automaton) (m : Machine) (l : Locals) (mask : List Bool)
    (o : Option Nat) (v : Option Move) :
    (decided m l mask o).leave ((after p a m l v).define "enabled" (.bools mask)) =
      (after p a m l v).define "enabled" (.bools mask) := by
  cases v <;> rfl

/-- The flags are gone after the case of a state. -/
theorem leave_within (p : Program) (a : Automaton) (m : Machine) (l : Locals) (mask : List Bool)
    (v : Option Move) :
    (m.within l none).leave ((after p a m l v).define "enabled" (.bools mask)) =
      after p a m l v := by
  cases v <;> rfl

section

variable {m : Machine} {l : Locals} {mask : List Bool} {o : Option Nat}

theorem exec_assign_state {name : String} (hname : isPlain name = true) :
    (Stmt.assign "state" (.string name)).exec goCall (decided m l mask o) =
      .ret (.on, decided m { l with state := name } mask o) := by
  have hassign : (decided m l mask o).assign "state" (.string name) =
      .ret (decided m { l with state := name } mask o) := rfl
  simp [Stmt.exec, Expr.eval, hname, hassign]

theorem exec_assign_epoch :
    (Stmt.assign "epoch" (.name "now")).exec goCall (decided m l mask o) =
      .ret (.on, decided m { l with epoch := l.now } mask o) := by
  have hread : (decided m l mask o).read "now" = .ret (.int l.now) := rfl
  have hassign : (decided m l mask o).assign "epoch" (.int l.now) =
      .ret (decided m { l with epoch := l.now } mask o) := rfl
  simp [Stmt.exec, Expr.eval, hread, hassign]

end

/-- The statements of an arm. -/
def armBody (p : Program) (aid : AutomatonId) (a : Automaton)
    (x : (TransitionId × Transition) × Nat) : List Stmt :=
  (match channelName? p aid x.1.1 with
    | some c => communicate x.1.2.comm c
    | none => []) ++
  [.assign "state" (.string (a.stateName x.1.2.target))] ++
  (if x.1.2.resets then [.assign "epoch" (.name "now")] else [])

theorem arm_eq (p : Program) (aid : AutomatonId) (a : Automaton) :
    arm p aid a = fun x => .mk [.int x.2] (armBody p aid a x) := rfl

/-- The statements of the case of a state with a given arbiter. -/
def branchBody (p : Program) (aid : AutomatonId) (a : Automaton) (arbiter : Arbiter) (s : State) :
    List Stmt :=
  [.defineFlags "enabled" ((leaving a s).map (enabledEntry p aid))] ++ arbiter.tiers.map pick ++
    [.switch "choice" ((leaving a s).zipIdx.map (arm p aid a))]

theorem branch_eq (p : Program) (aid : AutomatonId) (a : Automaton) (sid : StateId) (s : State) :
    branch p aid a sid s = .mk [.string s.name]
      (branchBody p aid a (arbiterOf p aid sid s.outgoing.length) s) := rfl

section

variable {p : Program} (hp : p.Analyzed) {aid : AutomatonId} {a : Automaton}
  (ha : p.network[aid]? = some a) {m : Machine} {sim : Simulation} (hm : Mirrors p m sim)
include hp ha

theorem isPlain_target {tid : TransitionId} {t : Transition} (ht : a.transitions[tid]? = some t) :
    isPlain (a.stateName t.target) = true := by
  rcases hp.exists_edge ha (List.mem_of_getElem? ht) with ⟨e, he, hedge⟩
  simp only [Automaton.stateName, hedge.target, Option.getD_some, isPlain]
  exact List.all_eq_true.2 he.target.2

theorem isPlain_name {sid : StateId} {s : State} (hs : a.states[sid]? = some s)
    (hout : s.outgoing ≠ []) : isPlain s.name = true := by
  rcases List.exists_mem_of_ne_nil _ hout with ⟨tid, htid⟩
  rw [(hp.wellFormed ha).outgoing sid s hs, Automaton.departures, List.mem_map] at htid
  rcases htid with ⟨⟨t, _⟩, hmem, rfl⟩
  rcases List.mem_filter.1 hmem with ⟨hzip, hstart⟩
  rcases hp.exists_edge ha (List.fst_mem_of_mem_zipIdx hzip) with ⟨e, he, hedge⟩
  have hname := hedge.start
  simp only [decide_eq_true_eq] at hstart
  rw [hstart, Automaton.stateName?, hs, Option.map_some, Option.some.injEq] at hname
  rw [hname, isPlain]
  exact List.all_eq_true.2 he.start.2

include hm

/-- An arm performs its transition. -/
theorem execAll_armBody {sid : StateId} {s : State} (hs : a.states[sid]? = some s) (l : Locals)
    (mask : List Bool) {i : Nat} {tid : TransitionId} {t : Transition}
    (htid : s.outgoing[i]? = some tid) (ht : a.transitions[tid]? = some t)
    (hcan : sim.canTake p aid a l.clock tid = true) :
    Stmt.execAll goCall (decided m l mask (some i)) (armBody p aid a ((tid, t), i)) =
      .ret (.on,
        (after p a m l (Move.ofOrdinal? p aid a sid i)).define "enabled" (.bools mask)) := by
  rcases hp.binds.bound ha ht with ⟨c, hc, hroute⟩
  have hname : channelName? p aid tid = some (channelName p c) := by
    simp [channelName?_eq hp ha ht, channelName, hroute]
  have hlevel : m.channels (channelName p c) = some (sim.fillOf c) := by
    simpa [channelName, hroute] using hm.level hroute
  have hmove : Move.ofOrdinal? p aid a sid i =
      some ⟨i, t.comm.direction, c, t.target, t.resets⟩ := by
    simp [Move.ofOrdinal?, Automaton.outgoing_eq hs, htid, ht, hc]
  have hallows : m.allows t.comm.direction (sim.fillOf c) = true := by
    rw [hm.allows]
    simp only [Simulation.canTake, ht, hc, Bool.and_eq_true] at hcan
    exact hcan.1
  have hcomm : Stmt.execAll goCall (decided m l mask (some i))
      (communicate t.comm (channelName p c)) = .ret (.on, decided
        (m.communicated t.comm.direction (channelName p c)) l mask (some i)) :=
    execAll_communicate hlevel hallows
  -- the communication goes through, and then only variables are assigned
  simp only [armBody, hname, hmove, after]
  rw [List.append_assoc, execAll_append, hcomm]
  simp only [Runs.ret_andThen, List.singleton_append]
  rw [execAll_cons_on (exec_assign_state (isPlain_target hp ha ht))]
  cases t.resets with
  | true =>
    rw [if_pos rfl, execAll_cons_on exec_assign_epoch, Stmt.execAll]
    rfl
  | false =>
    rw [if_neg (by decide), Stmt.execAll]
    rfl

/-- The worker performs the transition that it has decided on, if that is enabled. -/
theorem exec_choice {sid : StateId} {s : State} (hs : a.states[sid]? = some s) (l : Locals)
    (hsize : s.outgoing.length ≤ 2 ^ 63) {mask : List Bool}
    (hmask : mask = s.outgoing.map (sim.canTake p aid a l.clock)) {o : Option Nat}
    (ho : ∀ i, o = some i → mask.getD i false = true) :
    (Stmt.switch "choice" ((leaving a s).zipIdx.map (arm p aid a))).exec goCall
      (decided m l mask o) =
      .ret (.on, (after p a m l (o.bind (Move.ofOrdinal? p aid a sid))).define "enabled"
        (.bools mask)) := by
  have hlength : 0 + (leaving a s).length ≤ 2 ^ 63 := by
    have hle : (leaving a s).length ≤ s.outgoing.length := List.length_filterMap_le ..
    omega
  have hread : (decided m l mask o).read "choice" = .ret (.int (decisionNumber o)) := rfl
  rw [Stmt.exec, hread, Runs.ret_andThen, arm_eq]
  cases o with
  | none => exact execCases_minusOne hlength
  | some i =>
    -- beyond the list there are no flags, so an enabled ordinal belongs to a transition
    have henabled := ho i rfl
    have hi : i < s.outgoing.length := by
      by_contra hnot
      have hnone : mask[i]? = none := by
        rw [hmask, List.getElem?_eq_none_iff, List.length_map]
        omega
      simp [List.getD, hnone] at henabled
    obtain ⟨tid, htid⟩ : ∃ tid, s.outgoing[i]? = some tid := ⟨_, List.getElem?_eq_getElem hi⟩
    rcases (hp.wellFormed ha).exists_transition hs (List.mem_of_getElem? htid) with ⟨t, ht⟩
    have hcan : sim.canTake p aid a l.clock tid = true := by
      simpa [hmask, List.getD, htid] using henabled
    have hcase : Stmt.execCases goCall (decided m l mask (some i)) (.int (0 + i : Nat))
        ((leaving a s).zipIdx.map fun y => .mk [.int y.2] (armBody p aid a y)) =
          block goCall (decided m l mask (some i)) (armBody p aid a ((tid, t), 0 + i)) :=
      execCases_number (getElem?_leaving (hp.wellFormed ha) hs htid ht) hlength
    rw [Nat.zero_add] at hcase
    rw [decisionNumber, hcase, block, execAll_armBody hp ha hm hs l mask htid ht hcan]
    simp [leave_decided]

/-- The outcomes of the case of a state: one for each decision that the tiers allow. -/
theorem block_branch {sid : StateId} {s : State} (hs : a.states[sid]? = some s) (l : Locals)
    (hsize : s.outgoing.length ≤ 2 ^ 63) {arbiter : Arbiter}
    (hclasses : arbiter.classes.length = s.outgoing.length) :
    block goCall (m.within l none) (branchBody p aid a arbiter s) =
      (Arbiter.choices (s.outgoing.map (sim.canTake p aid a l.clock)) arbiter.tiers).map fun o =>
        .ok (.on, after p a m l (o.bind (Move.ofOrdinal? p aid a sid))) := by
  set mask := s.outgoing.map (sim.canTake p aid a l.clock) with hmask
  have hordinals : ∀ t ∈ arbiter.tiers, ∀ i ∈ t.ordinals, i < mask.length := by
    intro t ht i hi
    rw [hmask, List.length_map, ← hclasses]
    exact Arbiter.lt_of_mem_ordinals ht hi
  have hpicks : Stmt.execAll goCall (decided m l mask none) (arbiter.tiers.map pick) =
      (Arbiter.choices mask arbiter.tiers).map fun o => .ok (.on, decided m l mask o) :=
    execAll_pick hordinals (by simpa [hmask] using hsize)
  have hperform : ∀ o ∈ Arbiter.choices mask arbiter.tiers,
      (Stmt.switch "choice" ((leaving a s).zipIdx.map (arm p aid a))).exec goCall
        (decided m l mask o) = .ret (.on, (after p a m l
          (o.bind (Move.ofOrdinal? p aid a sid))).define "enabled" (.bools mask)) := by
    intro o ho
    refine exec_choice hp ha hm hs l hsize hmask ?_
    rintro i rfl
    exact Arbiter.enabled_of_mem_choices ho
  rw [block, branchBody, List.append_assoc, List.singleton_append,
    execAll_cons_on (exec_defineFlags hp ha hm hs l none), execAll_append, Runs.andThen_assoc,
    hpicks, Runs.map_ok_andThen]
  -- every decision leads to one outcome, without the flags of the block
  refine (List.flatMap_congr ?_).trans List.map_eq_flatMap.symm
  intro o ho
  simp only [Stmt.execAll, hperform o ho, Runs.ret_andThen, leave_within]
  rfl

/-- The outcomes of a worker whose automaton is in a state with outgoing transitions. -/
theorem exec_switch_state {sid : StateId} {s : State} (hs : a.states[sid]? = some s)
    (hout : s.outgoing ≠ []) (hsize : s.outgoing.length ≤ 2 ^ 63) {l : Locals}
    (hl : l.state = s.name) {arbiter : Arbiter}
    (harbiter : p.policy.arbiter? aid sid = some arbiter)
    (hclasses : arbiter.classes.length = s.outgoing.length) (e : Emission) :
    (Stmt.switch "state" (stateCases p e aid a)).exec goCall (m.within l none) =
      (Arbiter.choices (s.outgoing.map (sim.canTake p aid a l.clock)) arbiter.tiers).map fun o =>
        .ok (.on, after p a m l (o.bind (Move.ofOrdinal? p aid a sid))) := by
  set active := a.states.zipIdx.filter fun x => !x.1.outgoing.isEmpty with hactive
  have hplain : ∀ x ∈ active, isPlain x.1.name = true := by
    intro x hx
    rcases List.mem_filter.1 hx with ⟨hmem, hsome⟩
    exact isPlain_name hp ha (List.mk_mem_zipIdx_iff_getElem?.1 hmem) (by simpa using hsome)
  -- names are different, so no other case comes first; end states come last
  have hnodup : (active.map fun x => x.1.name).Nodup := by
    have hsub : (active.map fun x => x.1.name).Sublist
        (a.states.zipIdx.map fun x => x.1.name) := List.filter_sublist.map _
    have hnames : (a.states.zipIdx.map fun x => x.1.name) = a.stateNames := by
      rw [Automaton.stateNames, ← List.zipIdx_map_fst 0 a.states, List.map_map]
      simp [Function.comp_def]
    rw [hnames] at hsub
    exact (hp.wellFormed ha).names.sublist hsub
  have hmem : (s, sid) ∈ active := by
    rw [hactive, List.mem_filter]
    exact ⟨List.mk_mem_zipIdx_iff_getElem?.2 hs, by simpa using hout⟩
  have hread : (m.within l none).read "state" = .ret (.string s.name) := by
    rw [← hl]
    rfl
  have harbiterOf : arbiterOf p aid sid s.outgoing.length = arbiter := by
    simp [arbiterOf, harbiter]
  rw [Stmt.exec, hread, Runs.ret_andThen, stateCases]
  simp only [branch_eq]
  rw [execCases_text hplain hnodup hmem (haltCases e a), harbiterOf]
  exact block_branch hp ha hm hs l hsize hclasses

end

/-! ## Workers and turns -/

theorem length_outgoing_lt {text : String} {c : Config} {p : Program}
    (h : analyze text c = .ok p) {aid : AutomatonId} {a : Automaton}
    (ha : p.network[aid]? = some a) {sid : StateId} {s : State} (hs : a.states[sid]? = some s) :
    s.outgoing.length < text.length := by
  have hwell := (analyzed_of_analyze h).wellFormed ha
  calc s.outgoing.length = (a.departures sid).length := by rw [hwell.outgoing sid s hs]
    _ ≤ a.transitions.length := by
      rw [Automaton.departures, List.length_map]
      exact (List.length_filter_le ..).trans_eq List.length_zipIdx
    _ < text.length :=
      Network.length_transitions_lt (analyze_eq_ok_iff.1 h).1 (List.mem_of_getElem? ha)

/-- The move of an automaton is along the transition that its arbiter selects. -/
theorem move?_eq {p : Program} {aid : AutomatonId} {a : Automaton} {sid : StateId} {s : State}
    (hs : a.states[sid]? = some s) {arbiter : Arbiter}
    (harbiter : p.policy.arbiter? aid sid = some arbiter) {sim : Simulation} {epoch : Nat}
    (hrunner : sim.runner aid = ⟨sid, epoch, false⟩) (source : Random.Source) :
    sim.move? p aid a source =
      (Arbiter.selectFrom (s.outgoing.map (sim.canTake p aid a (sim.now - epoch))) source
        arbiter.tiers).map fun d => d.1.bind (Move.ofOrdinal? p aid a sid) := by
  simp [Simulation.move?, hrunner, harbiter, Simulation.enabled, Automaton.outgoing_eq hs,
    Arbiter.select]

/-- A worker whose automaton is in a state with outgoing transitions has the same outcomes as a
turn of the automaton. Its channels hold what the simulation says, and its clock shows the time
since the last reset. Whatever `now` and `epoch` are, an outcome is no transition, or the ordinal
of a transition, its communication, its target and, if it resets, the new epoch. Over all sources
of random words these are the moves of the automaton. A turn makes that move, and has no result if
the draw has no end. The text has fewer than `2 ^ 63` characters, so that ordinals are numbers of
64 bits. -/
theorem exec_state_iff_turn {text : String} {c : Config} {p : Program}
    (h : analyze text c = .ok p) (htext : text.length < 2 ^ 63) {aid : AutomatonId} {a : Automaton}
    (ha : p.network[aid]? = some a) {sid : StateId} {s : State} (hs : a.states[sid]? = some s)
    (hout : s.outgoing ≠ []) {sim : Simulation} {epoch : Nat}
    (hrunner : sim.runner aid = ⟨sid, epoch, false⟩) {m : Machine} (hm : Mirrors p m sim)
    {l : Locals} (hstate : l.state = s.name) (hclock : l.clock = sim.now - epoch) (e : Emission) :
    (∀ r, r ∈ (Stmt.switch "state" (stateCases p e aid a)).exec goCall (m.within l none) ↔
      ∃ source v, sim.move? p aid a source = some v ∧ r = .ok (.on, after p a m l v)) ∧
    ∀ source, (sim.move? p aid a source = none → { sim with source }.turn p aid a = none) ∧
      ∀ v, sim.move? p aid a source = some v →
        ∃ rest event, { sim with source }.turn p aid a =
          some ({ sim.moved aid v with source := rest }, event) ∧ event.isSome = v.isSome := by
  have hp := analyzed_of_analyze h
  have hsize := length_outgoing_lt h ha hs
  rcases hp.arbiter ha hs hout with ⟨arbiter, harbiter, hclasses⟩
  have hordinals : ∀ t ∈ arbiter.tiers, t.ordinals.length ≤ UInt64.size := by
    intro t ht
    calc t.ordinals.length ≤ arbiter.classes.length := Arbiter.length_ordinals_le ht
      _ = s.outgoing.length := hclasses
      _ ≤ 2 ^ 63 := by omega
      _ ≤ UInt64.size := by decide
  refine ⟨fun r => ?_, Simulation.turn_eq_moved hp ha hs hout hrunner⟩
  -- both sides are the decisions that the tiers allow, followed by the move
  rw [exec_switch_state hp ha hm hs hout (by omega) hstate harbiter hclasses e, List.mem_map,
    hclock]
  simp only [Arbiter.mem_choices_iff hordinals, move?_eq hs harbiter hrunner,
    Option.map_eq_some_iff]
  constructor
  · rintro ⟨o, ⟨source, rest, hselect⟩, rfl⟩
    exact ⟨source, _, ⟨_, hselect, rfl⟩, rfl⟩
  · rintro ⟨source, v, ⟨⟨o, rest⟩, hselect, rfl⟩, rfl⟩
    exact ⟨o, ⟨source, rest, hselect⟩, rfl⟩

/-- A state in which chance decides between two messages, one of which resets the clock. -/
theorem exec_state_iff_turn_two_messages : ∃ p a s,
    analyze "Cta A=Init s;s B!m(x<5||!(x>7),{ x })s;s B!n()t;Cta B=Init s;s A?m()s;s A?n()s;"
      ⟨.default, [⟨"A", "s", [⟨0, .default, none⟩, ⟨1, .default, none⟩]⟩,
        ⟨"B", "s", [⟨0, .exclusive, none⟩, ⟨1, .ranked, some 3⟩]⟩]⟩ = .ok p ∧
    p.network[0]? = some a ∧ a.states[0]? = some s ∧ s.outgoing = [0, 1] ∧
    ∀ now epoch r, r ∈ (Stmt.switch "state" (stateCases p .default 0 a)).exec goCall
        ((mirror p (.start p .default)).within ⟨0, now, epoch, s.name⟩ none) ↔
      ∃ source v, (Simulation.start p .default).move? p 0 a source = some v ∧
        r = .ok (.on, after p a (mirror p (.start p .default)) ⟨0, now, epoch, s.name⟩ v) := by
  rcases Fallible.exists_ok_of_any
    (x := analyze
      "Cta A=Init s;s B!m(x<5||!(x>7),{ x })s;s B!n()t;Cta B=Init s;s A?m()s;s A?n()s;"
      ⟨.default, [⟨"A", "s", [⟨0, .default, none⟩, ⟨1, .default, none⟩]⟩,
        ⟨"B", "s", [⟨0, .exclusive, none⟩, ⟨1, .ranked, some 3⟩]⟩]⟩)
    (P := fun p => (p.network[0]?.bind fun a => a.states[0]?).map State.outgoing = some [0, 1] ∧
      collisions p = [] ∧ (Simulation.start p .default).runner 0 = ⟨0, 0, false⟩)
    (by decide +kernel) with ⟨p, hp, hstates, hcollisions, hrunner⟩
  simp only [Option.map_eq_some_iff, Option.bind_eq_some_iff] at hstates
  rcases hstates with ⟨s, ⟨a, ha, hs⟩, hout⟩
  have hmirrors := mirrors_mirror (analyzed_of_analyze hp) hcollisions (.start p .default)
  refine ⟨p, a, s, hp, ha, hs, hout, fun now epoch => ?_⟩
  exact (exec_state_iff_turn hp (by decide +kernel) ha hs (by simp [hout]) hrunner hmirrors
    (l := ⟨0, now, epoch, s.name⟩) rfl rfl .default).1

end Generation
end TimedAutomata
