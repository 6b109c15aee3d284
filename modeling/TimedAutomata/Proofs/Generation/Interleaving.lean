import Mathlib.Data.List.Nodup
import TimedAutomata.Compilation.Basic
import TimedAutomata.Proofs.Generation.Naming
import TimedAutomata.Proofs.Generation.Sharing

/-!
# Workers side by side

All workers of a generated program together. A worker tests its transitions one after another and
performs a communication only later, and in between the other workers and the clock go on. Still no
communication ever waits: each end of a channel belongs to one worker, so what another worker does
to the channel cannot make it less ready.

* `Worker`, `Worker.Step`: a worker, and the steps it takes one at a time
* `System`, `System.Step`, `System.Reachable`: the workers with their channels and the clock
* `Ready.communicated`: a channel stays ready when another worker communicates
* `System.Sound`: what every step preserves
* `System.never_waits`: no worker waits for a channel
-/

namespace TimedAutomata
namespace Generation

/-! ## Workers -/

/-- How far a worker has come. -/
inductive Phase where
  /-- Before its first round. -/
  | entering
  /-- Before the next round. -/
  | resting
  /-- Testing its transitions, with the flags found so far. -/
  | testing (flags : List Bool)
  /-- Decided on a transition, and about to perform its communication. -/
  | committed (ordinal : Nat)
  /-- About to move to the target of the transition. -/
  | moving (ordinal : Nat)
  deriving DecidableEq, Repr

structure Worker where
  state : StateId
  epoch : Nat
  /-- The time when the worker last looked at the clock. -/
  now : Nat
  phase : Phase
  deriving DecidableEq, Repr

namespace Worker

def start (a : Automaton) : Worker :=
  ⟨a.initial, 0, 0, .entering⟩

/-- The transitions that leave the state of the worker, by ordinal. -/
def transitions (w : Worker) (a : Automaton) : List (TransitionId × Transition) :=
  (a.states[w.state]?.map (leaving a)).getD []

def locals (w : Worker) (a : Automaton) : Locals :=
  ⟨w.now - w.epoch, w.now, w.epoch, a.stateName w.state⟩

/-- The arbiter of the state of the worker. -/
def arbiter (w : Worker) (p : Program) (aid : AutomatonId) (a : Automaton) : Arbiter :=
  arbiterOf p aid w.state (a.outgoing w.state).length

/-- The steps of the worker of an automaton, on the channels that it shares with the others. Flags
are evaluated one by one, each in the machine as it is at that moment, and the communication is
performed as it is written in the program. -/
inductive Step (p : Program) (aid : AutomatonId) (a : Automaton) (time : Nat) :
    Machine × Worker → Machine × Worker → Prop
  | enter {m w} (hphase : w.phase = .entering) :
      Step p aid a time (m, w) (m, { w with epoch := time, phase := .resting })
  | load {m w} (hphase : w.phase = .resting) (hactive : w.transitions a ≠ []) :
      Step p aid a time (m, w) (m, { w with now := time, phase := .testing [] })
  | test {m w flags x flag} (hphase : w.phase = .testing flags)
      (hnext : (w.transitions a)[flags.length]? = some x)
      (hflag : .ok (.bool flag) ∈ (enabledEntry p aid x).eval goCall (m.within (w.locals a) none)) :
      Step p aid a time (m, w) (m, { w with phase := .testing (flags ++ [flag]) })
  | pass {m w flags} (hphase : w.phase = .testing flags)
      (hall : flags.length = (w.transitions a).length)
      (hnone : none ∈ Arbiter.choices flags (w.arbiter p aid a).tiers) :
      Step p aid a time (m, w) (m, { w with phase := .resting })
  | commit {m w flags ordinal} (hphase : w.phase = .testing flags)
      (hall : flags.length = (w.transitions a).length)
      (hsome : some ordinal ∈ Arbiter.choices flags (w.arbiter p aid a).tiers) :
      Step p aid a time (m, w) (m, { w with phase := .committed ordinal })
  | communicate {m m' w ordinal x name} (hphase : w.phase = .committed ordinal)
      (hchosen : (w.transitions a)[ordinal]? = some x) (hname : channelName? p aid x.1 = some name)
      (hdone : .ok (.on, m') ∈ Stmt.execAll goCall (m.within (w.locals a) (some ordinal))
        (Generation.communicate x.2.comm name)) :
      Step p aid a time (m, w) ({ m' with vars := m.vars }, { w with phase := .moving ordinal })
  | move {m w ordinal x} (hphase : w.phase = .moving ordinal)
      (hchosen : (w.transitions a)[ordinal]? = some x) :
      Step p aid a time (m, w) (m, { w with
        state := x.2.target
        epoch := if x.2.resets then w.now else w.epoch
        phase := .resting })

theorem transition_of_mem {w : Worker} {a : Automaton} {x : TransitionId × Transition}
    (h : x ∈ w.transitions a) : a.transitions[x.1]? = some x.2 := by
  unfold transitions at h
  cases hs : a.states[w.state]? with
  | none => simp [hs] at h
  | some s =>
    simp only [hs, Option.map_some, Option.getD_some, leaving, List.mem_filterMap,
      Option.map_eq_some_iff] at h
    rcases h with ⟨tid, -, t, ht, rfl⟩
    exact ht

end Worker

/-! ## Systems -/

/-- The workers of a program, what they share, and the clock. -/
structure System where
  shared : Machine
  time : Nat
  workers : List Worker

namespace System

/-- All workers before their first round, all channels empty. -/
def start (p : Program) (depth : Nat) : System where
  shared := {
    vars := []
    channels := fun name => if name ∈ p.topology.routes.map Route.name then some 0 else none
    depth
    performed := [] }
  time := 0
  workers := p.network.map Worker.start

/-- The clock advances, or some worker takes a step. -/
inductive Step (p : Program) : System → System → Prop
  | tick (s : System) : Step p s { s with time := s.time + 1 }
  | work {s : System} {aid : AutomatonId} {a : Automaton} {w w' : Worker} {m' : Machine}
      (ha : p.network[aid]? = some a) (hw : s.workers[aid]? = some w)
      (hstep : Worker.Step p aid a s.time (s.shared, w) (m', w')) :
      Step p s { s with shared := m', workers := s.workers.set aid w' }

/-- The systems that some interleaving leads to. -/
inductive Reachable (p : Program) (depth : Nat) : System → Prop
  | start : Reachable p depth (start p depth)
  | step {s s' : System} (h : Reachable p depth s) (hstep : Step p s s') : Reachable p depth s'

end System

/-! ## Ready channels -/

/-- The channel of a transition is ready for its communication. -/
def Ready (p : Program) (m : Machine) (aid : AutomatonId) (x : TransitionId × Transition) : Prop :=
  ∃ name level, channelName? p aid x.1 = some name ∧ m.channels name = some level ∧
    m.allows x.2.comm.direction level = true

section

variable {p : Program} (hp : p.Analyzed) (hnames : collisions p = []) {aid other : AutomatonId}
  {a b : Automaton} (ha : p.network[aid]? = some a) (hb : p.network[other]? = some b)
include hp ha hb hnames

/-- Two automata that communicate over one channel do so from different ends. -/
theorem direction_ne_of_name_eq (hne : aid ≠ other) {tid uid : TransitionId} {t u : Transition}
    (ht : a.transitions[tid]? = some t) (hu : b.transitions[uid]? = some u)
    (hname : (t.comm.route a.label).name = (u.comm.route b.label).name) :
    t.comm.direction ≠ u.comm.direction := by
  intro hdirection
  have hroute := route_eq_of_name_eq hp hnames (route_mem_routes hp ha ht)
    (route_mem_routes hp hb hu) hname
  -- at the same end of a route stands the same label
  apply hne
  apply Network.index_eq_of_label_eq hp.labels ha hb
  unfold Communication.route at hroute
  rw [hdirection] at hroute
  cases hd : u.comm.direction with
  | send =>
    rw [hd] at hroute
    exact congrArg Route.sender hroute
  | receive =>
    rw [hd] at hroute
    exact congrArg Route.receiver hroute

/-- A channel that is ready for one worker stays so when another one communicates. -/
theorem Ready.communicated (hne : aid ≠ other) {x y : TransitionId × Transition}
    (hx : a.transitions[x.1]? = some x.2) (hy : b.transitions[y.1]? = some y.2) {m : Machine}
    {name : String} (hname : channelName? p aid x.1 = some name) (h : Ready p m other y) :
    Ready p (m.communicated x.2.comm.direction name) other y := by
  rcases h with ⟨name', level, hname', hlevel, hallows⟩
  by_cases heq : name' = name
  · subst heq
    -- the same channel: the other worker has the other end of it
    have hends : x.2.comm.direction ≠ y.2.comm.direction := by
      apply direction_ne_of_name_eq hp hnames ha hb hne hx hy
      rw [channelName?_eq hp ha hx] at hname
      rw [channelName?_eq hp hb hy, ← hname] at hname'
      exact (Option.some.inj hname').symm
    cases hd : x.2.comm.direction with
    | send =>
      have hd' : y.2.comm.direction = .receive := by
        cases hd' : y.2.comm.direction with
        | send => exact absurd (hd.trans hd'.symm) hends
        | receive => rfl
      refine ⟨name', level + 1, hname', by simp [Machine.communicated, hlevel], ?_⟩
      simp [hd', Machine.allows]
    | receive =>
      have hd' : y.2.comm.direction = .send := by
        cases hd' : y.2.comm.direction with
        | send => rfl
        | receive => exact absurd (hd.trans hd'.symm) hends
      have hroom : level < m.depth := by simpa [hd', Machine.allows] using hallows
      refine ⟨name', level - 1, hname', by simp [Machine.communicated, hlevel], ?_⟩
      simp only [hd', Machine.allows, Machine.communicated, decide_eq_true_eq]
      omega
  · exact ⟨name', level, hname', by simp [Machine.communicated, heq, hlevel], hallows⟩

end

/-! ## Messages -/

/-- Each channel holds what was sent and not yet received, and not more than it can hold. -/
def Machine.Balanced (m : Machine) : Prop :=
  ∀ name level, m.channels name = some level →
    level + m.performed.count (.receive, name) = m.performed.count (.send, name) ∧ level ≤ m.depth

theorem Machine.Balanced.communicated {m : Machine} (h : m.Balanced) {d : Direction} {name : String}
    {level : Nat} (hlevel : m.channels name = some level) (hallows : m.allows d level = true) :
    (m.communicated d name).Balanced := by
  intro name' level' hlevel'
  by_cases heq : name' = name
  · subst heq
    rcases h _ _ hlevel with ⟨hcount, hroom⟩
    cases d with
    | send =>
      obtain rfl : level + 1 = level' := by simpa [Machine.communicated, hlevel] using hlevel'
      have hfree : level < m.depth := by simpa [Machine.allows] using hallows
      constructor
      · simp only [Machine.communicated, List.count_append, List.count_singleton]
        simp
        omega
      · exact hfree
    | receive =>
      obtain rfl : level - 1 = level' := by simpa [Machine.communicated, hlevel] using hlevel'
      have hsome : 0 < level := by simpa [Machine.allows] using hallows
      constructor
      · simp only [Machine.communicated, List.count_append, List.count_singleton]
        simp
        omega
      · exact Nat.le_trans (Nat.sub_le ..) hroom
  · have hold : m.channels name' = some level' := by simpa [Machine.communicated, heq] using hlevel'
    simpa [Machine.communicated, List.count_append, List.count_singleton, Ne.symm heq] using
      h _ _ hold

theorem Hosts.communicated {p : Program} {m : Machine} (h : Hosts p m) (d : Direction)
    (name : String) : Hosts p (m.communicated d name) where
  present := by
    intro r hr
    rcases h.present r hr with ⟨level, hlevel⟩
    by_cases heq : r.name = name
    · rw [heq] at hlevel
      simp [Machine.communicated, heq, hlevel]
    · exact ⟨level, by simp [Machine.communicated, heq, hlevel]⟩
  names := by
    intro name' level hlevel
    by_cases heq : name' = name
    · simp only [Machine.communicated, heq, if_true, Option.map_eq_some_iff] at hlevel
      rcases hlevel with ⟨level', hlevel', -⟩
      rw [heq]
      exact h.names hlevel'
    · exact h.names (by simpa [Machine.communicated, heq] using hlevel)

/-! ## What a worker relies on -/

/-- The transitions that a worker has found enabled have ready channels, and so has the one that it
has decided on. -/
def Worker.Secure (w : Worker) (p : Program) (m : Machine) (aid : AutomatonId) (a : Automaton) :
    Prop :=
  match w.phase with
  | .testing flags => ∀ (i : Nat) x, flags[i]? = some true → (w.transitions a)[i]? = some x →
    Ready p m aid x
  | .committed ordinal => ∃ x, (w.transitions a)[ordinal]? = some x ∧ Ready p m aid x
  | .entering | .resting | .moving _ => True

namespace Worker

variable {p : Program} {aid : AutomatonId} {a : Automaton} {time : Nat} {m m' : Machine}
  {w w' : Worker}

/-- A step leaves the channels as they are, or performs a communication over a ready one. -/
theorem Step.shared_cases (hsecure : w.Secure p m aid a)
    (h : Step p aid a time (m, w) (m', w')) :
    m' = m ∨ ∃ x name level, x ∈ w.transitions a ∧ channelName? p aid x.1 = some name ∧
      m.channels name = some level ∧ m.allows x.2.comm.direction level = true ∧
      m' = m.communicated x.2.comm.direction name := by
  cases h with
  | enter | load | test | pass | commit | move => exact .inl rfl
  | @communicate _ m' _ ordinal x name hphase hchosen hname hdone =>
    -- the worker relies on its channel, so the communication is performed and nothing else
    right
    simp only [Secure, hphase, hchosen, Option.some.injEq, exists_eq_left'] at hsecure
    rcases hsecure with ⟨name', level, hname', hlevel, hallows⟩
    rw [hname, Option.some.injEq] at hname'
    subst hname'
    have hexec : Stmt.execAll goCall (m.within (w.locals a) (some ordinal))
        (Generation.communicate x.2.comm name) = .ret (.on,
          (m.within (w.locals a) (some ordinal)).communicated x.2.comm.direction name) :=
      execAll_communicate hlevel hallows
    rw [hexec, Runs.mem_ret, Except.ok.injEq, Prod.mk.injEq] at hdone
    rcases hdone with ⟨-, rfl⟩
    exact ⟨x, name, level, List.mem_of_getElem? hchosen, hname, hlevel, hallows, rfl⟩

/-- A step keeps what the worker relies on. -/
theorem Step.secure (hp : p.Analyzed) (ha : p.network[aid]? = some a) (hm : Hosts p m)
    (hsecure : w.Secure p m aid a) (h : Step p aid a time (m, w) (m', w')) :
    w'.Secure p m' aid a := by
  cases h with
  | enter | pass | communicate | move => trivial
  | load => simp [Secure]
  | @test _ _ flags x flag hphase hnext hflag =>
    simp only [Secure, hphase] at hsecure
    intro i y hi hy
    by_cases hlt : i < flags.length
    · rw [List.getElem?_append_left hlt] at hi
      exact hsecure i y hi hy
    · -- the flag just found: it is set only if the channel was ready at this moment
      rw [List.getElem?_append_right (by omega), List.getElem?_singleton] at hi
      obtain ⟨hzero, rfl⟩ : i - flags.length = 0 ∧ flag = true := by simpa using hi
      obtain rfl : i = flags.length := by omega
      obtain rfl : x = y := Option.some.inj (hnext.symm.trans hy)
      have hx := transition_of_mem (List.mem_of_getElem? hnext)
      rcases hm.present _ (route_mem_routes hp ha hx) with ⟨level, hlevel⟩
      rw [eval_enabledEntry_within hp ha hx hm hlevel, Runs.mem_ret, Except.ok.injEq,
        Value.bool.injEq, eq_comm, Bool.and_eq_true] at hflag
      exact ⟨_, level, channelName?_eq hp ha hx, hlevel, hflag.2⟩
  | @commit _ _ flags ordinal hphase hall hsome =>
    simp only [Secure, hphase] at hsecure
    have hflag : flags[ordinal]? = some true := by
      have henabled := Arbiter.enabled_of_mem_choices hsome
      rw [List.getD_eq_getElem?_getD] at henabled
      cases hget : flags[ordinal]? with
      | none => simp [hget] at henabled
      | some flag => simpa [hget] using henabled
    -- all transitions have been tested, so the ordinal is one of theirs
    have hlt : ordinal < (w.transitions a).length := by
      rw [← hall]
      exact (List.getElem?_eq_some_iff.1 hflag).1
    exact ⟨_, List.getElem?_eq_getElem hlt, hsecure ordinal _ hflag (List.getElem?_eq_getElem hlt)⟩

/-- What a worker relies on is not affected by a communication of another one. -/
theorem Secure.communicated (hp : p.Analyzed) (hnames : collisions p = []) {other : AutomatonId}
    {b : Automaton} (ha : p.network[aid]? = some a) (hb : p.network[other]? = some b)
    (hne : aid ≠ other) {x : TransitionId × Transition} (hx : a.transitions[x.1]? = some x.2)
    {name : String} (hname : channelName? p aid x.1 = some name) (h : w.Secure p m other b) :
    w.Secure p (m.communicated x.2.comm.direction name) other b := by
  have hready : ∀ y ∈ w.transitions b, Ready p m other y →
      Ready p (m.communicated x.2.comm.direction name) other y := by
    intro y hy
    exact Ready.communicated hp hnames ha hb hne hx (transition_of_mem hy) hname
  unfold Secure at h ⊢
  cases hphase : w.phase with
  | entering | resting | moving => trivial
  | testing flags =>
    simp only [hphase] at h
    intro i y hi hy
    exact hready y (List.mem_of_getElem? hy) (h i y hi hy)
  | committed ordinal =>
    simp only [hphase] at h
    rcases h with ⟨y, hy, hyready⟩
    exact ⟨y, hy, hready y (List.mem_of_getElem? hy) hyready⟩

end Worker

/-! ## All workers -/

namespace System

variable {p : Program} {depth : Nat} {s s' : System}

/-- What holds in every system that can be reached. -/
structure Sound (p : Program) (depth : Nat) (s : System) : Prop where
  capacity : s.shared.depth = depth
  hosts : Hosts p s.shared
  balanced : s.shared.Balanced
  secure : ∀ {aid : AutomatonId} {a w}, p.network[aid]? = some a → s.workers[aid]? = some w →
    w.Secure p s.shared aid a

theorem sound_start : (start p depth).Sound p depth where
  capacity := rfl
  hosts := by
    constructor
    · intro r hr
      have hmem : r.name ∈ p.topology.routes.map Route.name := List.mem_map_of_mem hr
      exact ⟨0, if_pos hmem⟩
    · intro name level hlevel
      simp only [start, Option.ite_none_right_eq_some] at hlevel
      exact List.mem_map.1 hlevel.1
  balanced := by
    intro name level hlevel
    simp only [start, Option.ite_none_right_eq_some, Option.some.injEq] at hlevel
    simp [start, ← hlevel.2]
  secure := by
    intro aid a w ha hw
    obtain rfl : Worker.start a = w := by simpa [start, ha] using hw
    trivial

/-- Every step of the system keeps it sound. -/
theorem Sound.step (hp : p.Analyzed) (hnames : collisions p = []) (h : s.Sound p depth)
    (hstep : Step p s s') : s'.Sound p depth := by
  cases hstep with
  | tick => exact ⟨h.capacity, h.hosts, h.balanced, h.secure⟩
  | @work aid a w w' m' ha hw hstep =>
    have hown := h.secure ha hw
    have hown' := hstep.secure hp ha h.hosts hown
    -- the other workers find their channels as ready as before
    have hshared : (m'.depth = depth ∧ Hosts p m' ∧ m'.Balanced) ∧
        ∀ {other : AutomatonId} {b v}, aid ≠ other → p.network[other]? = some b →
          s.workers[other]? = some v → v.Secure p m' other b := by
      rcases hstep.shared_cases hown with rfl | ⟨x, name, level, hx, hname, hlevel, hallows, rfl⟩
      · exact ⟨⟨h.capacity, h.hosts, h.balanced⟩, fun _ hb hv => h.secure hb hv⟩
      · refine ⟨⟨h.capacity, h.hosts.communicated _ _, h.balanced.communicated hlevel hallows⟩, ?_⟩
        intro other b v hne hb hv
        exact (h.secure hb hv).communicated hp hnames ha hb hne (Worker.transition_of_mem hx) hname
    rcases hshared with ⟨⟨hcapacity, hhosts, hbalanced⟩, hothers⟩
    refine ⟨hcapacity, hhosts, hbalanced, ?_⟩
    intro other b v hb hv
    by_cases heq : aid = other
    · subst heq
      obtain rfl : a = b := Option.some.inj (ha.symm.trans hb)
      have hlt := (List.getElem?_eq_some_iff.1 hw).1
      obtain rfl : w' = v := by simpa [hlt] using hv
      exact hown'
    · rw [List.getElem?_set_ne heq] at hv
      exact hothers heq hb hv

theorem Reachable.sound (hp : p.Analyzed) (hnames : collisions p = []) (h : Reachable p depth s) :
    s.Sound p depth := by
  induction h with
  | start => exact sound_start
  | step _ hstep ih => exact ih.step hp hnames hstep

/-- However the workers of a generated program and the clock interleave: a worker that has decided
on a transition finds room for its message, or a message to receive, and so never waits; and every
channel holds as many messages as were sent and not received over it, at most its capacity. -/
theorem never_waits {text : String} {c : Config} (h : analyze text c = .ok p) {e : Emission}
    {code : String} (hemit : emit p e = .ok code) (hreach : Reachable p depth s) :
    (∀ {aid : AutomatonId} {a w ordinal}, p.network[aid]? = some a → s.workers[aid]? = some w →
      w.phase = .committed ordinal →
      ∃ x name level, (w.transitions a)[ordinal]? = some x ∧
        channelName? p aid x.1 = some name ∧ s.shared.channels name = some level ∧
        (x.2.comm.direction = .send → level < depth) ∧
        (x.2.comm.direction = .receive → 0 < level) ∧
        ∃ m', Worker.Step p aid a s.time (s.shared, w) (m', { w with phase := .moving ordinal })) ∧
    ∀ r ∈ p.topology.routes, ∃ level, s.shared.channels r.name = some level ∧
      (level : Int) = s.shared.performed.count (.send, r.name) -
        s.shared.performed.count (.receive, r.name) ∧ level ≤ depth := by
  have hnames : collisions p = [] := by
    unfold emit at hemit
    cases hcollisions : collisions p with
    | nil => rfl
    | cons first more => simp [hcollisions] at hemit
  have hsound := hreach.sound (analyzed_of_analyze h) hnames
  constructor
  · intro aid a w ordinal ha hw hphase
    have hsecure := hsound.secure ha hw
    simp only [Worker.Secure, hphase] at hsecure
    rcases hsecure with ⟨x, hx, name, level, hname, hlevel, hallows⟩
    have hdone : .ok (.on, (s.shared.within (w.locals a) (some ordinal)).communicated
        x.2.comm.direction name) ∈ Stmt.execAll goCall
          (s.shared.within (w.locals a) (some ordinal)) (communicate x.2.comm name) := by
      rw [execAll_communicate (m := s.shared.within (w.locals a) (some ordinal)) hlevel hallows]
      exact Runs.mem_ret.2 rfl
    refine ⟨x, name, level, hx, hname, hlevel, ?_, ?_, _, .communicate hphase hx hname hdone⟩
    · intro hd
      rw [← hsound.capacity]
      simpa [hd, Machine.allows] using hallows
    · intro hd
      simpa [hd, Machine.allows] using hallows
  · intro r hr
    rcases hsound.hosts.present r hr with ⟨level, hlevel⟩
    rcases hsound.balanced _ _ hlevel with ⟨hcount, hroom⟩
    refine ⟨level, hlevel, by omega, ?_⟩
    rw [← hsound.capacity]
    exact hroom

/-- A worker can come to be `w` before anything else happens. -/
def Reaches (p : Program) (depth : Nat) (aid : AutomatonId) (w : Worker) : Prop :=
  ∃ s, Reachable p depth s ∧ s.shared = (start p depth).shared ∧ s.time = 0 ∧
    s.workers[aid]? = some w

theorem Reaches.step {aid : AutomatonId} {a : Automaton} {w w' : Worker}
    (h : Reaches p depth aid w) (ha : p.network[aid]? = some a)
    (hstep : Worker.Step p aid a 0 ((start p depth).shared, w) ((start p depth).shared, w')) :
    Reaches p depth aid w' := by
  rcases h with ⟨s, hreach, hshared, htime, hw⟩
  rw [← hshared, ← htime] at hstep
  have hlt := (List.getElem?_eq_some_iff.1 hw).1
  exact ⟨_, hreach.step (.work ha hw hstep), hshared, htime, by simp [hlt]⟩

/-- A worker that has decided to send, while its partner has not yet started. -/
theorem never_waits_sender : ∃ p code a s w,
    analyze "Cta A=Init s;s B!m(x<5)s;Cta B=Init s;s A?m()s;" .default = .ok p ∧
    emit p .default = .ok code ∧ p.network[0]? = some a ∧ Reachable p 1 s ∧
    s.workers[0]? = some w ∧ w.phase = .committed 0 ∧
    ∃ x name level, (w.transitions a)[0]? = some x ∧ x.2.comm.direction = .send ∧
      channelName? p 0 x.1 = some name ∧ s.shared.channels name = some level ∧ level < 1 := by
  rcases Fallible.exists_ok_of_any
    (x := analyze "Cta A=Init s;s B!m(x<5)s;Cta B=Init s;s A?m()s;" .default)
    (P := fun p => collisions p = [] ∧ ∃ a ∈ p.network[0]?,
      ∃ x ∈ ((Worker.start a).transitions a)[0]?, x.2.comm.direction = .send ∧
        1 = ((Worker.start a).transitions a).length ∧
        .ok (.bool true) ∈ (enabledEntry p 0 x).eval goCall
          ((start p 1).shared.within ((Worker.start a).locals a) none) ∧
        some 0 ∈ Arbiter.choices [true] ((Worker.start a).arbiter p 0 a).tiers)
    (by decide +kernel) with ⟨p, hp, hnames, a, ha, x, hx, hsend, hlength, hflag, hchoice⟩
  have hemit : emit p .default = .ok (fileText p .default) := by simp [emit, hnames]
  have hstart : Reaches p 1 0 (Worker.start a) :=
    ⟨_, .start, rfl, rfl, by simp [start, Option.mem_def.1 ha]⟩
  have hactive : (Worker.start a).transitions a ≠ [] := by
    intro hnil
    simp [hnil] at hlength
  have htested := ((hstart.step ha (.enter rfl)).step ha (.load rfl hactive)).step ha
    (.test rfl hx hflag)
  rcases htested.step ha (.commit rfl hlength hchoice) with ⟨s, hreach, -, -, hw⟩
  rcases (never_waits hp hemit hreach).1 ha hw rfl with
    ⟨y, name, level, hy, hname, hlevel, hroom, -⟩
  obtain rfl : x = y := Option.some.inj (hx.symm.trans hy)
  exact ⟨p, _, a, s, _, hp, hemit, ha, hreach, hw, rfl, x, name, level, hy, hsend, hname, hlevel,
    hroom hsend⟩

end System

end Generation
end TimedAutomata
