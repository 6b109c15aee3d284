import Mathlib.Data.List.DropRight
import Mathlib.Data.List.Nodup
import TimedAutomata.Proofs.Automaton.Discovery
import TimedAutomata.Proofs.Notation.Reading

/-!
# Histories of automata

An automaton keeps several views of the same thing: its states by position and by name, its
transitions and the outgoing lists of its states, and the list of its end states. States and
transitions can be added in any order, as long as transitions go between states that are known. The
views agree after every operation, but for one of them: states that were added since the last
transition are not among the end states yet, and these are exactly the violations that are found.

* `Automaton.Operation`, `Automaton.after`: operations and what they lead to
* `Automaton.Legal`: transitions go between states that were returned before
* `Automaton.Settled`: the list of end states is up to date as regards the first states
* `Settled.addState`, `Settled.addTransition`, `settled_after`: steps, and whole histories
* `Settled.violations_eq`: the violations of an automaton
* `Automaton.Agrees`: what the views of an automaton have to be after a history
* `Automaton.views_agree`: they are that, also for automata that are read
-/

namespace TimedAutomata
namespace Automaton

variable {a : Automaton}

/-! ## Views of well-formed automata -/

theorem mem_departures {id : StateId} {tid : TransitionId} :
    tid ∈ a.departures id ↔ ∃ t, a.transitions[tid]? = some t ∧ t.start = id := by
  simp only [departures, List.mem_map, List.mem_filter, decide_eq_true_eq, Prod.exists]
  constructor
  · rintro ⟨t, i, ⟨hmem, hstart⟩, rfl⟩
    exact ⟨t, List.mk_mem_zipIdx_iff_getElem?.1 hmem, hstart⟩
  · rintro ⟨t, ht, hstart⟩
    exact ⟨t, tid, ⟨List.mk_mem_zipIdx_iff_getElem?.2 ht, hstart⟩, rfl⟩

theorem ascending_departures (a : Automaton) (id : StateId) :
    (a.departures id).Pairwise (· < ·) := by
  have hall : (a.transitions.zipIdx.map Prod.snd).Pairwise (· < ·) := by
    rw [List.zipIdx_map_snd]
    exact List.pairwise_lt_range'
  exact hall.sublist (List.filter_sublist.map Prod.snd)

/-- Names and positions of states determine each other. -/
theorem WellFormed.stateId?_iff (h : a.WellFormed) {name : String} {id : StateId} :
    a.stateId? name = some id ↔ a.stateName? id = some name := by
  refine ⟨h.indexed.stateName?_of_stateId?, ?_⟩
  rw [h.indexed.stateId?_eq, List.idxOf?_eq_some_iff, stateName?_eq]
  intro hname
  rcases List.getElem?_eq_some_iff.1 hname with ⟨hid, hget⟩
  refine ⟨hid, hget, fun j hj heq => ?_⟩
  have hsame := (List.Nodup.getElem_inj_iff h.names).1 (heq.trans hget.symm)
  omega

/-- Every transition leaves one state. -/
theorem WellFormed.partition (h : a.WellFormed) :
    (a.states.flatMap State.outgoing).Perm (List.range a.transitions.length) := by
  have hout : ∀ id (hid : id < a.states.length), a.states[id].outgoing = a.departures id :=
    fun id hid => h.outgoing id _ (List.getElem?_eq_getElem hid)
  have hnodup : (a.states.flatMap State.outgoing).Nodup := by
    refine List.nodup_flatMap.2 ⟨?_, ?_⟩
    · intro s hs
      rcases List.getElem_of_mem hs with ⟨id, hid, rfl⟩
      rw [hout id hid]
      exact (ascending_departures a id).imp Nat.ne_of_lt
    · -- a transition has one start
      rw [List.pairwise_iff_getElem]
      intro i j hi hj hlt tid hti htj
      rw [hout i hi, mem_departures] at hti
      rw [hout j hj, mem_departures] at htj
      rcases hti with ⟨t, ht, rfl⟩
      rcases htj with ⟨u, hu, rfl⟩
      rw [Option.some.inj (ht.symm.trans hu)] at hlt
      exact Nat.lt_irrefl _ hlt
  refine (List.perm_ext_iff_of_nodup hnodup List.nodup_range).2 fun tid => ?_
  rw [List.mem_flatMap, List.mem_range]
  constructor
  · rintro ⟨s, hs, htid⟩
    rcases List.mem_iff_getElem?.1 hs with ⟨id, hid⟩
    rcases h.exists_transition hid htid with ⟨t, ht⟩
    exact (List.getElem?_eq_some_iff.1 ht).1
  · intro htid
    have ht := List.getElem?_eq_getElem htid
    have hstart := (h.endpoints _ (List.getElem_mem htid)).1
    refine ⟨_, List.getElem_mem hstart, ?_⟩
    rw [hout _ hstart, mem_departures]
    exact ⟨_, ht, rfl⟩

/-- The dead ends of an automaton, by position. -/
theorem deadEnds_eq (a : Automaton) :
    deadEnds a.states =
      (List.range a.states.length).filter fun id => (a.outgoing id).isEmpty := by
  have hsame : ∀ x ∈ a.states.zipIdx, x.1.outgoing.isEmpty = (a.outgoing x.2).isEmpty := by
    rintro ⟨s, id⟩ hx
    simp [outgoing, outgoing?, List.mk_mem_zipIdx_iff_getElem?.1 hx]
  rw [deadEnds, List.filter_congr hsame, List.range_eq_range', ← List.zipIdx_map_snd 0 a.states,
    List.filter_map]
  rfl

/-! ## End states -/

/-- The list of end states is up to date as regards the first `n` states, and no transition leaves
the others. -/
structure Settled (a : Automaton) (n : Nat) : Prop where
  wellFormed : a.WellFormed
  le : n ≤ a.states.length
  starts : ∀ t ∈ a.transitions, t.start < n
  ends : a.endStates = (List.range n).filter fun id => (a.outgoing id).isEmpty

theorem settled_of_endStates (h : a.WellFormed) (hends : a.endStates = deadEnds a.states) :
    a.Settled a.states.length where
  wellFormed := h
  le := Nat.le_refl _
  starts t ht := (h.endpoints t ht).1
  ends := hends.trans a.deadEnds_eq

theorem settled_single (label initial source : String) (span : Span) :
    (single label initial source span).Settled 1 :=
  settled_of_endStates (wellFormed_single ..) rfl

/-- A state that is added changes no outgoing list. -/
theorem outgoing_addState (a : Automaton) (name : String) (id : StateId) :
    (a.addState name).1.outgoing id = a.outgoing id := by
  rcases a.addState_cases name with ⟨_, -, heq⟩ | ⟨-, heq⟩
  · rw [heq]
  · rw [heq, outgoing, outgoing, outgoing?, outgoing?]
    rcases Nat.lt_trichotomy id a.states.length with hid | rfl | hid
    · rw [List.getElem?_append_left hid]
    · simp
    · rw [List.getElem?_eq_none (Nat.le_of_lt hid),
        List.getElem?_eq_none (by rwa [List.length_append])]

@[simp] theorem endStates_addState (a : Automaton) (name : String) :
    (a.addState name).1.endStates = a.endStates := by
  rcases a.addState_cases name with ⟨_, -, heq⟩ | ⟨-, heq⟩ <;> rw [heq]

/-- A state that is added does not count yet. -/
theorem Settled.addState {n : Nat} (h : a.Settled n) (name : String) :
    (a.addState name).1.Settled n where
  wellFormed := h.wellFormed.addState name
  le := by
    have hlength := (a.stateNames_addState name).length_le
    rw [length_stateNames, length_stateNames] at hlength
    exact Nat.le_trans h.le hlength
  starts := by simpa using h.starts
  ends := by simpa [outgoing_addState] using h.ends

/-- With a transition, all states count. -/
theorem Settled.addTransition {n : Nat} (h : a.Settled n) {t : Transition}
    (hstart : t.start < a.states.length) (htarget : t.target < a.states.length) :
    (a.addTransition t).1.Settled (a.addTransition t).1.states.length :=
  settled_of_endStates (h.wellFormed.addTransition hstart htarget)
    (endStates_addTransition hstart)

/-! ## Violations -/

/-- What is found from a position on. -/
theorem filterMap_zipIdx_from {α β : Type} (f : α → β) (n k : Nat) (as : List α) :
    ((as.zipIdx k).filterMap fun x => if n ≤ x.2 then some (f x.1) else none) =
      (as.drop (n - k)).map f := by
  induction as generalizing k with
  | nil => simp
  | cons a as ih =>
    rw [List.zipIdx_cons, List.filterMap_cons, ih]
    by_cases h : n ≤ k
    · simp [h, Nat.sub_eq_zero_of_le h, Nat.sub_eq_zero_of_le (Nat.le_succ_of_le h)]
    · have hsub : n - k = n - (k + 1) + 1 := by omega
      simp [h, hsub]

theorem WellFormed.indexViolation?_eq (h : a.WellFormed) {x : String × StateId}
    (hx : x ∈ a.index) : a.indexViolation? x.1 x.2 = none := by
  rw [h.indexed, List.mem_zipIdx_iff_getElem?, ← stateName?_eq] at hx
  rw [indexViolation?, if_pos hx]

theorem WellFormed.transitionViolation?_eq (h : a.WellFormed) {tid : TransitionId}
    {t : Transition} (ht : a.transitions[tid]? = some t) :
    a.transitionViolation? tid t = none := by
  rcases h.endpoints t (List.mem_of_getElem? ht) with ⟨hstart, htarget⟩
  have hout : tid ∈ a.states[t.start].outgoing := by
    rw [h.outgoing _ _ (List.getElem?_eq_getElem hstart), mem_departures]
    exact ⟨t, ht, rfl⟩
  simp [transitionViolation?, hstart, htarget, hout]

theorem Settled.stateViolation?_eq {n : Nat} (h : a.Settled n) {id : StateId} {s : State}
    (hs : a.states[id]? = some s) :
    a.stateViolation? id s = if n ≤ id then some (.wrongEnd s.name) else none := by
  have hout : a.outgoing id = s.outgoing := by simp [outgoing, outgoing?, hs]
  by_cases hid : n ≤ id
  · -- no transition leaves a state that does not count, and it is no end state either
    have hnone : s.outgoing = [] := by
      rw [h.wellFormed.outgoing id s hs]
      exact departures_eq_nil fun t ht => Nat.ne_of_lt (Nat.lt_of_lt_of_le (h.starts t ht) hid)
    have hlate : ¬ id < n := Nat.not_lt.2 hid
    simp [stateViolation?, h.ends, hid, hlate, hnone]
  · have hearly : id < n := Nat.lt_of_not_le hid
    have hcontains : a.endStates.contains id = s.outgoing.isEmpty := by
      rw [Bool.eq_iff_iff]
      simp [h.ends, hearly, hout]
    rw [stateViolation?, if_pos hcontains, if_neg hid]

/-- The violations are the states that do not count yet. -/
theorem Settled.violations_eq {n : Nat} (h : a.Settled n) :
    a.violations = (a.stateNames.drop n).map .wrongEnd := by
  have hindex : ∀ x ∈ a.index, a.indexViolation? x.1 x.2 = none :=
    fun _ hx => h.wellFormed.indexViolation?_eq hx
  have htransitions : ∀ x ∈ a.transitions.zipIdx, a.transitionViolation? x.2 x.1 = none :=
    fun _ hx => h.wellFormed.transitionViolation?_eq (List.mem_zipIdx_iff_getElem?.1 hx)
  have hstates : ∀ x ∈ a.states.zipIdx,
      a.stateViolation? x.2 x.1 = if n ≤ x.2 then some (.wrongEnd x.1.name) else none :=
    fun _ hx => h.stateViolation?_eq (List.mem_zipIdx_iff_getElem?.1 hx)
  have hnames : (a.states.drop n).map (fun s => Violation.wrongEnd s.name) =
      (a.stateNames.drop n).map .wrongEnd := by
    rw [stateNames, ← List.map_drop, List.map_map]
    rfl
  rw [violations, if_pos h.wellFormed.initial, List.filterMap_eq_nil_iff.2 hindex,
    if_pos h.wellFormed.indexed.length_index, List.filterMap_eq_nil_iff.2 htransitions,
    List.filterMap_congr hstates,
    filterMap_zipIdx_from (fun s : State => Violation.wrongEnd s.name) n 0]
  simpa using hnames

/-! ## Operations -/

/-- A call by which an automaton grows. -/
inductive Operation where
  | state (name : String)
  | transition (t : Transition)
  deriving DecidableEq, Repr

def Operation.isState : Operation → Bool
  | .state _ => true
  | .transition _ => false

/-- The automaton after an operation. -/
def apply (a : Automaton) : Operation → Automaton
  | .state name => (a.addState name).1
  | .transition t => (a.addTransition t).1

/-- The automaton after operations, in order. -/
def after (a : Automaton) (ops : List Operation) : Automaton :=
  ops.foldl apply a

/-- The states that operations return, in order. -/
def returned (a : Automaton) : List Operation → List StateId
  | [] => []
  | .state name :: ops => (a.addState name).2 :: (a.addState name).1.returned ops
  | .transition t :: ops => (a.addTransition t).1.returned ops

/-- Every transition goes between states that were returned before it, the initial one among
them. -/
def Legal (a : Automaton) (ops : List Operation) : Prop :=
  ∀ before t rest, ops = before ++ .transition t :: rest →
    t.start ∈ a.initial :: a.returned before ∧ t.target ∈ a.initial :: a.returned before

/-- The operations up to the last transition. -/
def settling (ops : List Operation) : List Operation :=
  ops.rdropWhile Operation.isState

theorem after_append (a : Automaton) (ops more : List Operation) :
    a.after (ops ++ more) = (a.after ops).after more :=
  List.foldl_append

theorem Legal.of_prefix {ops early : List Operation} (h : a.Legal ops) (hearly : early <+: ops) :
    a.Legal early := by
  rintro before t rest rfl
  rcases hearly with ⟨more, rfl⟩
  exact h before t (rest ++ more) (by simp)

/-- An operation moves no state and no transition. -/
theorem prefix_apply (a : Automaton) (op : Operation) :
    a.stateNames <+: (a.apply op).stateNames ∧ a.transitions <+: (a.apply op).transitions := by
  cases op with
  | state name => exact ⟨a.stateNames_addState name, by simp [apply]⟩
  | transition t => simp [apply]

theorem prefix_after (a : Automaton) (ops : List Operation) :
    a.stateNames <+: (a.after ops).stateNames ∧ a.transitions <+: (a.after ops).transitions := by
  induction ops generalizing a with
  | nil => exact ⟨List.prefix_rfl, List.prefix_rfl⟩
  | cons op ops ih =>
    have hop := a.prefix_apply op
    have hrest := ih (a.apply op)
    exact ⟨hop.1.trans hrest.1, hop.2.trans hrest.2⟩

theorem initial_after (a : Automaton) (ops : List Operation) :
    (a.after ops).initial = a.initial := by
  induction ops generalizing a with
  | nil => rfl
  | cons op ops ih =>
    have hop : (a.apply op).initial = a.initial := by cases op <;> simp [apply]
    exact (ih (a.apply op)).trans hop

/-- A state that was returned is still there. -/
theorem lt_of_mem_returned (ha : a.Indexed) {ops : List Operation} {id : StateId}
    (h : id ∈ a.returned ops) : id < (a.after ops).states.length := by
  induction ops generalizing a with
  | nil => simp [returned] at h
  | cons op ops ih =>
    cases op with
    | transition t => exact ih (ha.addTransition t) h
    | state name =>
      rcases List.mem_cons.1 h with rfl | h
      · have hname := stateName?_addState ha name
        exact lt_length_of_stateName? (stateName?_mono (prefix_after _ ops).1 hname)
      · exact ih (ha.addState name) h

/-- A legal transition goes between states of the automaton. -/
theorem Legal.endpoints (hindexed : a.Indexed) {before rest : List Operation} {t : Transition}
    (h : a.Legal (before ++ .transition t :: rest)) (ha : (a.after before).WellFormed) :
    t.start < (a.after before).states.length ∧ t.target < (a.after before).states.length := by
  have hknown : ∀ {id}, id ∈ a.initial :: a.returned before →
      id < (a.after before).states.length := by
    intro id hid
    rcases List.mem_cons.1 hid with rfl | hid
    · rw [← a.initial_after before]
      exact ha.initial
    · exact lt_of_mem_returned hindexed hid
  rcases h before t rest rfl with ⟨hstart, htarget⟩
  exact ⟨hknown hstart, hknown htarget⟩

/-- Legal histories keep the list of end states up to date as of the last transition. -/
theorem settled_after (ha : a.Settled a.states.length) {ops : List Operation}
    (h : a.Legal ops) : (a.after ops).Settled (a.after (settling ops)).states.length := by
  induction ops using List.reverseRecOn with
  | nil => exact ha
  | append_singleton ops op ih =>
    have hbefore := ih (h.of_prefix (List.prefix_append ops [op]))
    rw [after_append]
    cases op with
    | state name =>
      rw [settling, List.rdropWhile_concat_pos _ _ _ rfl]
      exact hbefore.addState name
    | transition t =>
      rcases h.endpoints ha.wellFormed.indexed hbefore.wellFormed with ⟨hstart, htarget⟩
      rw [settling, List.rdropWhile_concat_neg _ _ _ (by simp [Operation.isState]), after_append]
      exact hbefore.addTransition hstart htarget

/-- What the views of an automaton have to be after a history. -/
structure Agrees (start : Automaton) (ops : List Operation) : Prop where
  names : (start.after ops).stateNames.Nodup
  /-- The index has one entry for each state, with its name and its position. -/
  index : (start.after ops).index = (start.after ops).stateNames.zipIdx
  inverse : ∀ {name id}, (start.after ops).stateId? name = some id ↔
    (start.after ops).stateName? id = some name
  initial : (start.after ops).initial = start.initial
  /-- The state that was returned for a name is the state of that name. -/
  states : ∀ before name rest, ops = before ++ .state name :: rest →
    (start.after ops).stateId? name = some ((start.after before).addState name).2
  /-- The position that was returned for a transition is where it stands. -/
  transitions : ∀ before t rest, ops = before ++ .transition t :: rest →
    ∃ tid, ((start.after before).addTransition t).2 = some tid ∧
      (start.after ops).transitions[tid]? = some t
  outgoing : ∀ {id : StateId} {s : State}, (start.after ops).states[id]? = some s →
    s.outgoing.Pairwise (· < ·) ∧
      ∀ tid, tid ∈ s.outgoing ↔ ∃ t, (start.after ops).transitions[tid]? = some t ∧ t.start = id
  partition : ((start.after ops).states.flatMap State.outgoing).Perm
    (List.range (start.after ops).transitions.length)
  /-- Of the states that there were at the last transition, those that none leaves. -/
  ends : (start.after ops).endStates =
    (List.range (start.after (settling ops)).states.length).filter
      fun id => ((start.after ops).outgoing id).isEmpty
  /-- A state that was added since is a violation, and there is no other. -/
  violations : (start.after ops).violations =
    ((start.after ops).stateNames.drop (start.after (settling ops)).states.length).map .wrongEnd
  valid_iff : (start.after ops).violations = [] ↔
    (start.after ops).stateNames = (start.after (settling ops)).stateNames

theorem addTransition_eq_some {t : Transition} (hstart : t.start < a.states.length) :
    (a.addTransition t).2 = some a.transitions.length := by
  simp [addTransition, List.getElem?_eq_getElem hstart]

theorem agrees_of_legal (ha : a.Settled a.states.length) {ops : List Operation}
    (h : a.Legal ops) : a.Agrees ops := by
  have hsettled := settled_after ha h
  have hwellFormed := hsettled.wellFormed
  -- states are only added, so those of the last transition come first
  have hearlier : (a.after (settling ops)).stateNames <+: (a.after ops).stateNames := by
    obtain ⟨more, hmore⟩ : settling ops <+: ops := List.rdropWhile_prefix _ ops
    have hsplit : a.after ops = (a.after (settling ops)).after more := by
      rw [← after_append, hmore]
    rw [hsplit]
    exact (prefix_after _ more).1
  refine ⟨hwellFormed.names, hwellFormed.indexed, hwellFormed.stateId?_iff, a.initial_after ops,
    ?_, ?_, ?_, hwellFormed.partition, hsettled.ends, hsettled.violations_eq, ?_⟩
  · rintro before name rest rfl
    rw [hwellFormed.stateId?_iff, after_append]
    have hbefore := settled_after ha (h.of_prefix (List.prefix_append before _))
    exact stateName?_mono (prefix_after _ rest).1
      (stateName?_addState hbefore.wellFormed.indexed name)
  · rintro before t rest rfl
    have hbefore := settled_after ha (h.of_prefix (List.prefix_append before _))
    have hstart := (h.endpoints ha.wellFormed.indexed hbefore.wellFormed).1
    refine ⟨_, addTransition_eq_some hstart, ?_⟩
    have hkept := (prefix_after ((a.after before).addTransition t).1 rest).2
    rw [transitions_addTransition] at hkept
    rw [after_append]
    exact (List.prefix_iff_getElem?.1 hkept _ (by simp)).trans (by simp)
  · intro id s hs
    rw [hwellFormed.outgoing id s hs]
    exact ⟨ascending_departures _ id, fun tid => mem_departures⟩
  · rw [hsettled.violations_eq, List.map_eq_nil_iff, List.drop_eq_nil_iff, length_stateNames,
      ← length_stateNames, ← length_stateNames]
    constructor
    · intro hle
      exact (hearlier.eq_of_length_le hle).symm
    · intro heq
      rw [heq]

/-! ## Automata that are read -/

/-- The states of an automaton made from edges, by its initial state and its transitions. -/
theorem stateNames_eq_mentioned (header : Header) (source : Clause) (es : List Edge) :
    let a := ofEdges header source es
    a.stateNames = ((a.initial :: a.transitions.flatMap fun t => [t.start, t.target]).map
      a.stateName).eraseDups := by
  intro a
  have hrep := represents_ofEdges header source es
  have hname : ∀ {id name}, a.stateName? id = some name → a.stateName id = name := by
    intro id name h
    rw [stateName, h, Option.getD_some]
  have hedges : ∀ {ts : List Transition} {es : List Edge}, List.Forall₂ (IsEdge a) ts es →
      (ts.flatMap fun t => [t.start, t.target]).map a.stateName =
        es.flatMap fun e => [e.start, e.target] := by
    intro ts es h
    induction h with
    | nil => rfl
    | cons hedge _ ih => simp [hname hedge.start, hname hedge.target, ih]
  rw [List.map_cons, hname hrep.initial, hedges hrep.edges]
  exact stateNames_ofEdges header source es

theorem violations_ofEdges (header : Header) (source : Clause) (es : List Edge) :
    (ofEdges header source es).violations = [] := by
  have hsettled := settled_of_endStates (wellFormed_ofEdges header source es)
    (endStates_ofEdges header source es)
  rw [hsettled.violations_eq, List.map_eq_nil_iff, List.drop_eq_nil_iff, length_stateNames]

/-- The views of an automaton agree. Whatever states and transitions are added to a new automaton,
as long as transitions go between states that were returned before: after every operation, names
and positions determine each other, also through the index, positions that were returned are those
at which things stand, the outgoing lists share out the transitions in ascending order, and the end
states are those of the last transition; and no violation is found exactly if no state was added
since. So none is found in an automaton that is read from a declaration, whatever becomes of the
other declarations. The states of an automaton that is read are its initial state and those of its
transitions, in the order of their first mention. -/
theorem views_agree :
    (∀ (label initial source : String) (span : Span) (ops : List Operation),
      (single label initial source span).Legal ops → ∀ early, early <+: ops →
        (single label initial source span).Agrees early) ∧
    (∀ (d : Declaration) (a : Automaton), d.automaton = .ok a → a.violations = []) ∧
    ∀ (text : String) (net : Network), Network.read text = .ok net → ∀ a ∈ net,
      a.violations = [] ∧ a.stateNames = ((a.initial :: a.transitions.flatMap fun t =>
        [t.start, t.target]).map a.stateName).eraseDups := by
  refine ⟨?_, ?_, ?_⟩
  · intro label initial source span ops h early hearly
    exact agrees_of_legal (settled_single ..) (h.of_prefix hearly)
  · intro d a hd
    rcases Declaration.automaton_eq_ok_iff.1 hd with ⟨header, es, -, -, rfl⟩
    exact violations_ofEdges header d.whole es
  · intro text net hread a ha
    rcases Network.read_eq_ok_iff.1 hread with ⟨-, hwritten, -⟩
    rcases Fallible.exists_of_mem_right hwritten ha with ⟨piece, -, d, -, hd⟩
    rcases Declaration.automaton_eq_ok_iff.1 hd with ⟨header, es, -, -, rfl⟩
    exact ⟨violations_ofEdges header d.whole es, stateNames_eq_mentioned header d.whole es⟩

/-- A state that was added behind the last transition is the only violation, until the next one. -/
theorem views_agree_late_state :
    let start := single "A" "a" "" ⟨0, 0⟩
    let comm : Communication := ⟨.send, "B", "m"⟩
    let early : List Operation := [.state "b", .transition ⟨0, 1, comm, .always, false, ⟨0, 0⟩⟩,
      .state "c", .state "a"]
    let ops := early ++ [.transition ⟨1, 2, comm, .always, true, ⟨0, 0⟩⟩]
    start.Legal ops ∧ start.Agrees early ∧ start.Agrees ops ∧
      (start.after early).endStates = [1] ∧ (start.after early).violations = [.wrongEnd "c"] ∧
      (start.after ops).endStates = [2] ∧ (start.after ops).violations = [] ∧
      ∃ net, Network.read "Cta A=Init a;a B!m()b;b B!m()c;" = .ok net ∧
        ∃ a ∈ net, a.violations = [] ∧ a.stateNames = ["a", "b", "c"] := by
  intro start comm early ops
  have hlegal : start.Legal ops := by
    intro before t rest h
    rcases before with _ | ⟨_, _ | ⟨_, _ | ⟨_, _ | ⟨_, _ | ⟨_, before⟩⟩⟩⟩⟩ <;>
      simp [ops, early] at h
    · rcases h with ⟨rfl, rfl, -⟩
      decide
    · rcases h with ⟨rfl, rfl, rfl, rfl, rfl, -⟩
      decide
  rcases views_agree with ⟨hagrees, -, hread⟩
  have hops := hagrees _ _ _ _ ops hlegal
  rcases Fallible.exists_ok_of_any (x := Network.read "Cta A=Init a;a B!m()b;b B!m()c;")
    (P := fun net => ∃ a ∈ net, a.stateNames = ["a", "b", "c"]) (by decide +kernel) with
    ⟨net, hnet, a, ha, hnames⟩
  exact ⟨hlegal, hops early (List.prefix_append ..), hops ops List.prefix_rfl, by decide,
    by decide, by decide, by decide, net, hnet, a, ha, (hread _ _ hnet a ha).1, hnames⟩

end Automaton
end TimedAutomata
