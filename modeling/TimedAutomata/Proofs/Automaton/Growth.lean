import Mathlib.Data.List.Forall2
import Mathlib.Data.List.Infix
import TimedAutomata.Network.Reader
import TimedAutomata.Proofs.Lookup

/-!
# Growth of automata

An automaton that is read grows by one edge at a time. States are only added at the end, so a
state keeps its position and its name, and what was recorded about earlier edges stays true.

* `Indexed`: the index has the names of the states, in order, with their positions
* `Grows a e b`: what adding the edge `e` does
* `Represents a es`: the transitions of `a` are the edges `es`, in order
* `WellFormed`: positions are in range and the outgoing lists are those of the transitions
* `represents_ofEdges`, `wellFormed_ofEdges`: both hold of every automaton made from edges
* `Automaton.bare`: an automaton without the texts and positions it was read from
* `bare_ofEdges`: the bare automaton depends on the bare edges only
-/

namespace TimedAutomata
namespace Automaton

theorem stateName?_eq (a : Automaton) (id : StateId) : a.stateName? id = a.stateNames[id]? := by
  simp [stateName?, stateNames]

@[simp] theorem length_stateNames (a : Automaton) : a.stateNames.length = a.states.length := by
  simp [stateNames]

/-- States that are added later change no name. -/
theorem stateName?_mono {a b : Automaton} (h : a.stateNames <+: b.stateNames) {id : StateId}
    {name : String} (ha : a.stateName? id = some name) : b.stateName? id = some name := by
  rw [stateName?_eq] at ha ⊢
  obtain ⟨more, hmore⟩ := h
  obtain ⟨hid, -⟩ := List.getElem?_eq_some_iff.1 ha
  rw [← hmore, List.getElem?_append_left hid, ha]

theorem lt_length_of_stateName? {a : Automaton} {id : StateId} {name : String}
    (h : a.stateName? id = some name) : id < a.states.length := by
  rw [stateName?_eq] at h
  obtain ⟨hid, -⟩ := List.getElem?_eq_some_iff.1 h
  simpa using hid

/-! ## The index -/

/-- The index has the names of the states, in order, each with the position of its state. -/
def Indexed (a : Automaton) : Prop :=
  a.index = a.stateNames.zipIdx

/-- A name leads to the first state that has it. -/
theorem Indexed.stateId?_eq {a : Automaton} (h : a.Indexed) (name : String) :
    a.stateId? name = a.stateNames.idxOf? name := by
  rw [stateId?, h, lookup_zipIdx]
  simp

theorem Indexed.stateName?_of_stateId? {a : Automaton} (h : a.Indexed) {name : String}
    {id : StateId} (hid : a.stateId? name = some id) : a.stateName? id = some name := by
  rw [h.stateId?_eq, List.idxOf?_eq_some_iff] at hid
  rcases hid with ⟨hlt, hname, -⟩
  rw [stateName?_eq, List.getElem?_eq_getElem hlt, hname]

theorem Indexed.stateId?_eq_none_iff {a : Automaton} (h : a.Indexed) {name : String} :
    a.stateId? name = none ↔ name ∉ a.stateNames := by
  rw [h.stateId?_eq, List.idxOf?_eq_none_iff]

/-- The index has an entry for every state. -/
theorem Indexed.length_index {a : Automaton} (h : a.Indexed) :
    a.index.length = a.states.length := by
  rw [h, List.length_zipIdx, length_stateNames]

/-! ## Adding a state -/

/-- A name that is known keeps its state; a new one gets a state at the end. -/
theorem addState_cases (a : Automaton) (name : String) :
    (∃ id, a.stateId? name = some id ∧ a.addState name = (a, id)) ∨
      (a.stateId? name = none ∧
        a.addState name =
          ({ a with states := a.states ++ [⟨name, []⟩]
                    index := a.index ++ [(name, a.states.length)] }, a.states.length)) := by
  unfold addState
  cases h : a.stateId? name with
  | some id => exact .inl ⟨id, rfl, rfl⟩
  | none => exact .inr ⟨rfl, rfl⟩

theorem Indexed.addState {a : Automaton} (h : a.Indexed) (name : String) :
    (a.addState name).1.Indexed := by
  rcases a.addState_cases name with ⟨id, -, heq⟩ | ⟨-, heq⟩
  · rwa [heq]
  · rw [heq]
    simp only [Indexed, stateNames, List.map_append, List.zipIdx_append] at h ⊢
    simp [h]

theorem stateNames_addState (a : Automaton) (name : String) :
    a.stateNames <+: (a.addState name).1.stateNames := by
  rcases a.addState_cases name with ⟨id, -, h⟩ | ⟨-, h⟩
  · rw [h]
  · simp [h, stateNames]

theorem stateName?_addState {a : Automaton} (ha : a.Indexed) (name : String) :
    (a.addState name).1.stateName? (a.addState name).2 = some name := by
  rcases a.addState_cases name with ⟨id, hid, h⟩ | ⟨-, h⟩
  · rw [h]
    exact ha.stateName?_of_stateId? hid
  · simp [h, stateName?]

@[simp] theorem transitions_addState (a : Automaton) (name : String) :
    (a.addState name).1.transitions = a.transitions := by
  rcases a.addState_cases name with ⟨id, -, h⟩ | ⟨-, h⟩ <;> rw [h]

@[simp] theorem label_addState (a : Automaton) (name : String) :
    (a.addState name).1.label = a.label := by
  rcases a.addState_cases name with ⟨id, -, h⟩ | ⟨-, h⟩ <;> rw [h]

@[simp] theorem initial_addState (a : Automaton) (name : String) :
    (a.addState name).1.initial = a.initial := by
  rcases a.addState_cases name with ⟨id, -, h⟩ | ⟨-, h⟩ <;> rw [h]

@[simp] theorem source_addState (a : Automaton) (name : String) :
    (a.addState name).1.source = a.source := by
  rcases a.addState_cases name with ⟨id, -, h⟩ | ⟨-, h⟩ <;> rw [h]

@[simp] theorem span_addState (a : Automaton) (name : String) :
    (a.addState name).1.span = a.span := by
  rcases a.addState_cases name with ⟨id, -, h⟩ | ⟨-, h⟩ <;> rw [h]

/-! ## Adding a transition -/

@[simp] theorem transitions_addTransition (a : Automaton) (t : Transition) :
    (a.addTransition t).1.transitions = a.transitions ++ [t] := by
  unfold addTransition
  cases a.states[t.start]? <;> rfl

@[simp] theorem label_addTransition (a : Automaton) (t : Transition) :
    (a.addTransition t).1.label = a.label := by
  unfold addTransition
  cases a.states[t.start]? <;> rfl

@[simp] theorem initial_addTransition (a : Automaton) (t : Transition) :
    (a.addTransition t).1.initial = a.initial := by
  unfold addTransition
  cases a.states[t.start]? <;> rfl

@[simp] theorem source_addTransition (a : Automaton) (t : Transition) :
    (a.addTransition t).1.source = a.source := by
  unfold addTransition
  cases a.states[t.start]? <;> rfl

@[simp] theorem span_addTransition (a : Automaton) (t : Transition) :
    (a.addTransition t).1.span = a.span := by
  unfold addTransition
  cases a.states[t.start]? <;> rfl

@[simp] theorem stateNames_addTransition (a : Automaton) (t : Transition) :
    (a.addTransition t).1.stateNames = a.stateNames := by
  unfold addTransition
  cases h : a.states[t.start]? with
  | none => rfl
  | some s =>
    obtain ⟨hlt, hs⟩ := List.getElem?_eq_some_iff.1 h
    simp only [stateNames, List.map_set]
    refine List.ext_getElem? fun i => ?_
    rw [List.getElem?_set]
    split
    · next hi => simp [← hi, hs, hlt]
    · rfl

@[simp] theorem index_addTransition (a : Automaton) (t : Transition) :
    (a.addTransition t).1.index = a.index := by
  unfold addTransition
  cases a.states[t.start]? <;> rfl

theorem Indexed.addTransition {a : Automaton} (h : a.Indexed) (t : Transition) :
    (a.addTransition t).1.Indexed := by
  rw [Indexed, index_addTransition, stateNames_addTransition]
  exact h

/-! ## Adding an edge -/

theorem Indexed.addEdge {a : Automaton} (h : a.Indexed) (e : Edge) : (a.addEdge e).Indexed :=
  ((h.addState e.start).addState e.target).addTransition _

/-- What an automaton becomes when the edge `e` is added. -/
structure Grows (a : Automaton) (e : Edge) (b : Automaton) : Prop where
  label : b.label = a.label
  initial : b.initial = a.initial
  names : a.stateNames <+: b.stateNames
  transitions : ∃ start target,
    b.transitions = a.transitions ++ [⟨start, target, e.comm, e.guard, e.resets, e.span⟩] ∧
    b.stateName? start = some e.start ∧ b.stateName? target = some e.target

theorem grows_addEdge {a : Automaton} (ha : a.Indexed) (e : Edge) : Grows a e (a.addEdge e) where
  label := by simp [addEdge]
  initial := by simp [addEdge]
  names := by
    simp only [addEdge, stateNames_addTransition]
    exact (a.stateNames_addState e.start).trans (stateNames_addState _ e.target)
  transitions := by
    refine ⟨_, _, by simp only [addEdge, transitions_addTransition, transitions_addState]; rfl,
      ?_, ?_⟩
    · rw [stateName?_eq, addEdge, stateNames_addTransition, ← stateName?_eq]
      exact stateName?_mono (stateNames_addState _ e.target) (stateName?_addState ha e.start)
    · rw [stateName?_eq, addEdge, stateNames_addTransition, ← stateName?_eq]
      exact stateName?_addState (ha.addState e.start) e.target

/-! ## Edges and transitions -/

/-- The transition `t` of `a` is the edge `e`. -/
structure IsEdge (a : Automaton) (t : Transition) (e : Edge) : Prop where
  start : a.stateName? t.start = some e.start
  target : a.stateName? t.target = some e.target
  comm : t.comm = e.comm
  guard : t.guard = e.guard
  resets : t.resets = e.resets

theorem IsEdge.mono {a b : Automaton} (h : a.stateNames <+: b.stateNames) {t : Transition}
    {e : Edge} (ht : IsEdge a t e) : IsEdge b t e where
  start := stateName?_mono h ht.start
  target := stateName?_mono h ht.target
  comm := ht.comm
  guard := ht.guard
  resets := ht.resets

/-- The automaton has the given label and initial state, and its transitions are the edges
`es`. -/
structure Represents (a : Automaton) (header : Header) (es : List Edge) : Prop where
  label : a.label = header.label
  initial : a.stateName? a.initial = some header.initial
  edges : List.Forall₂ (IsEdge a) a.transitions es

theorem Represents.addEdge {a : Automaton} (ha : a.Indexed) {header : Header} {es : List Edge}
    (h : Represents a header es) (e : Edge) : Represents (a.addEdge e) header (es ++ [e]) := by
  have hgrow := grows_addEdge ha e
  obtain ⟨start, target, htrans, hstart, htarget⟩ := hgrow.transitions
  refine ⟨hgrow.label.trans h.label, ?_, ?_⟩
  · rw [hgrow.initial]
    exact stateName?_mono hgrow.names h.initial
  · rw [htrans]
    refine List.rel_append ?_ (.cons ⟨hstart, htarget, rfl, rfl, rfl⟩ .nil)
    exact h.edges.imp fun _ _ ht => ht.mono hgrow.names

theorem represents_foldl {a : Automaton} (ha : a.Indexed) {header : Header} {es : List Edge}
    (h : Represents a header es) (more : List Edge) :
    Represents (more.foldl Automaton.addEdge a) header (es ++ more) := by
  induction more generalizing a es with
  | nil => simpa using h
  | cons e more ih => simpa using ih (ha.addEdge e) (h.addEdge ha e)

theorem indexed_single (label initial source : String) (span : Span) :
    (single label initial source span).Indexed := rfl

/-- The transitions of an automaton made from edges are these edges. -/
theorem represents_ofEdges (header : Header) (source : Clause) (es : List Edge) :
    Represents (ofEdges header source es) header es := by
  have hsingle : Represents
      (single header.label header.initial (String.ofList source.text) source.span) header [] :=
    ⟨rfl, rfl, .nil⟩
  simpa [ofEdges] using represents_foldl (indexed_single ..) hsingle es

/-! ## Well-formed automata -/

/-- The transitions that start in a state, in order. -/
def departures (a : Automaton) (id : StateId) : List TransitionId :=
  (a.transitions.zipIdx.filter fun p => p.1.start = id).map Prod.snd

structure WellFormed (a : Automaton) : Prop where
  names : a.stateNames.Nodup
  indexed : a.Indexed
  initial : a.initial < a.states.length
  endpoints : ∀ t ∈ a.transitions, t.start < a.states.length ∧ t.target < a.states.length
  outgoing : ∀ id s, a.states[id]? = some s → s.outgoing = a.departures id

/-- The outgoing transitions of a state are transitions of the automaton. -/
theorem WellFormed.exists_transition {a : Automaton} (h : a.WellFormed) {sid : StateId} {s : State}
    (hs : a.states[sid]? = some s) {tid : TransitionId} (htid : tid ∈ s.outgoing) :
    ∃ t, a.transitions[tid]? = some t := by
  rw [h.outgoing sid s hs, departures, List.mem_map] at htid
  rcases htid with ⟨⟨t, _⟩, hmem, rfl⟩
  exact ⟨t, List.mk_mem_zipIdx_iff_getElem?.1 (List.mem_filter.1 hmem).1⟩

/-- A transition leaves the state that has it among its outgoing transitions. -/
theorem WellFormed.start_of_mem {a : Automaton} (h : a.WellFormed) {sid : StateId} {s : State}
    (hs : a.states[sid]? = some s) {tid : TransitionId} {t : Transition}
    (htid : tid ∈ s.outgoing) (ht : a.transitions[tid]? = some t) : t.start = sid := by
  rw [h.outgoing sid s hs, departures, List.mem_map] at htid
  rcases htid with ⟨⟨u, i⟩, hmem, rfl⟩
  rcases List.mem_filter.1 hmem with ⟨hget, hstart⟩
  obtain rfl : t = u := Option.some.inj (ht.symm.trans (List.mk_mem_zipIdx_iff_getElem?.1 hget))
  simpa using hstart

theorem departures_eq_nil {a : Automaton} {id : StateId}
    (h : ∀ t ∈ a.transitions, t.start ≠ id) : a.departures id = [] := by
  simp only [departures, List.map_eq_nil_iff, List.filter_eq_nil_iff, decide_eq_true_eq]
  intro p hp
  exact h p.1 (List.fst_mem_of_mem_zipIdx hp)

theorem departures_addTransition (a : Automaton) (t : Transition) (id : StateId) :
    (a.addTransition t).1.departures id =
      a.departures id ++ if t.start = id then [a.transitions.length] else [] := by
  simp only [departures, transitions_addTransition, List.zipIdx_append, List.filter_append,
    List.map_append]
  by_cases h : t.start = id <;> simp [h]

theorem WellFormed.addState {a : Automaton} (h : a.WellFormed) (name : String) :
    (a.addState name).1.WellFormed := by
  have hindexed := h.indexed.addState name
  rcases a.addState_cases name with ⟨id, -, heq⟩ | ⟨hnew, heq⟩
  · rwa [heq]
  · rw [heq] at hindexed ⊢
    refine ⟨?_, hindexed, ?_, ?_, ?_⟩
    · have hname := h.indexed.stateId?_eq_none_iff.1 hnew
      have hnames := h.names
      simp only [stateNames, List.map_append, List.map_cons, List.map_nil] at hname hnames ⊢
      exact List.nodup_append.2 ⟨hnames, by simp, by simpa using hname⟩
    · simpa using Nat.lt_succ_of_lt h.initial
    · intro t ht
      obtain ⟨hstart, htarget⟩ := h.endpoints t ht
      simpa using And.intro (Nat.lt_succ_of_lt hstart) (Nat.lt_succ_of_lt htarget)
    · intro id s hs
      change s.outgoing = a.departures id
      rcases Nat.lt_or_ge id a.states.length with hid | hid
      · exact h.outgoing id s (by rwa [List.getElem?_append_left hid] at hs)
      · -- the new state: no transition starts there yet
        rw [departures_eq_nil fun t ht =>
          Nat.ne_of_lt (Nat.lt_of_lt_of_le (h.endpoints t ht).1 hid)]
        rw [List.getElem?_append_right hid] at hs
        obtain ⟨-, rfl⟩ := List.getElem?_eq_some_iff.1 hs
        simp

theorem WellFormed.addTransition {a : Automaton} (h : a.WellFormed) {t : Transition}
    (hstart : t.start < a.states.length) (htarget : t.target < a.states.length) :
    (a.addTransition t).1.WellFormed := by
  have hlength : (a.addTransition t).1.states.length = a.states.length := by
    rw [← length_stateNames, stateNames_addTransition, length_stateNames]
  refine ⟨?_, h.indexed.addTransition t, ?_, ?_, ?_⟩
  · rw [stateNames_addTransition]
    exact h.names
  · rw [initial_addTransition, hlength]
    exact h.initial
  · intro u hu
    rw [hlength]
    simp only [transitions_addTransition, List.mem_append, List.mem_singleton] at hu
    rcases hu with hu | rfl
    · exact h.endpoints u hu
    · exact ⟨hstart, htarget⟩
  · intro id s hs
    rw [departures_addTransition]
    have hstates : (a.addTransition t).1.states =
        a.states.set t.start
          { a.states[t.start] with
            outgoing := a.states[t.start].outgoing ++ [a.transitions.length] } := by
      simp [Automaton.addTransition, List.getElem?_eq_getElem hstart]
    rw [hstates, List.getElem?_set] at hs
    by_cases hid : t.start = id
    · subst hid
      have hold := h.outgoing _ _ (List.getElem?_eq_getElem hstart)
      obtain rfl : _ = s := by simpa [hstart] using hs
      simp [hold]
    · simpa [hid] using h.outgoing id s (by simpa [hid] using hs)

theorem WellFormed.addEdge {a : Automaton} (h : a.WellFormed) (e : Edge) :
    (a.addEdge e).WellFormed := by
  have hboth := (h.addState e.start).addState e.target
  refine hboth.addTransition ?_ ?_
  · exact lt_length_of_stateName?
      (stateName?_mono (stateNames_addState _ e.target) (stateName?_addState h.indexed e.start))
  · exact lt_length_of_stateName? (stateName?_addState (h.addState e.start).indexed e.target)

theorem wellFormed_foldl {a : Automaton} (h : a.WellFormed) (es : List Edge) :
    (es.foldl Automaton.addEdge a).WellFormed := by
  induction es generalizing a with
  | nil => exact h
  | cons e es ih => exact ih (h.addEdge e)

theorem wellFormed_single (label initial source : String) (span : Span) :
    (single label initial source span).WellFormed where
  names := by simp [stateNames, single]
  indexed := indexed_single ..
  initial := by simp [single]
  endpoints := by simp [single]
  outgoing := by
    intro id s hs
    obtain ⟨hid, rfl⟩ := List.getElem?_eq_some_iff.1 hs
    simp [single, departures]

/-- Every automaton made from edges is well formed. -/
theorem wellFormed_ofEdges (header : Header) (source : Clause) (es : List Edge) :
    (ofEdges header source es).WellFormed :=
  wellFormed_foldl (wellFormed_single ..) es

end Automaton

/-! ## Without texts and positions -/

/-- The transition without the text of its guard and without its position. -/
def Transition.bare (t : Transition) : Transition :=
  { t with guard := ⟨"", t.guard.expr⟩, span := ⟨0, 0⟩ }

/-- The edge without the text of its guard and without its position. -/
def Edge.bare (e : Edge) : Edge :=
  { e with guard := ⟨"", e.guard.expr⟩, span := ⟨0, 0⟩ }

namespace Automaton

/-- The automaton without its source text, the texts of its guards and all positions. Two
automata with the same bare automaton have the same label, the same states in the same order,
with the same outgoing lists, and the same transitions up to the spelling of guards. -/
def bare (a : Automaton) : Automaton :=
  { a with transitions := a.transitions.map Transition.bare, source := "", span := ⟨0, 0⟩ }

@[simp] theorem stateNames_bare (a : Automaton) : a.bare.stateNames = a.stateNames := rfl

@[simp] theorem label_bare (a : Automaton) : a.bare.label = a.label := rfl

theorem addState_bare (a : Automaton) (name : String) :
    a.bare.addState name = ((a.addState name).1.bare, (a.addState name).2) := by
  have hid : a.bare.stateId? name = a.stateId? name := rfl
  unfold addState
  rw [hid]
  cases a.stateId? name <;> rfl

theorem addTransition_bare (a : Automaton) (t : Transition) :
    (a.bare.addTransition t.bare).1 = (a.addTransition t).1.bare := by
  have hstates : a.bare.states[t.bare.start]? = a.states[t.start]? := rfl
  unfold addTransition
  rw [hstates]
  cases a.states[t.start]? <;> simp [bare, Transition.bare]

theorem addEdge_bare (a : Automaton) (e : Edge) : a.bare.addEdge e.bare = (a.addEdge e).bare := by
  simp only [addEdge, Edge.bare, addState_bare]
  exact addTransition_bare _ ⟨_, _, e.comm, e.guard, e.resets, e.span⟩

theorem foldl_addEdge_bare (a : Automaton) (es : List Edge) :
    (es.foldl addEdge a).bare = (es.map Edge.bare).foldl addEdge a.bare := by
  induction es generalizing a with
  | nil => rfl
  | cons e es ih => rw [List.foldl_cons, ih, List.map_cons, List.foldl_cons, addEdge_bare]

/-- Automata made from the same bare edges are the same, bare. -/
theorem bare_ofEdges {header : Header} {es fs : List Edge} (source source' : Clause)
    (h : es.map Edge.bare = fs.map Edge.bare) :
    (ofEdges header source es).bare = (ofEdges header source' fs).bare := by
  rw [ofEdges, ofEdges, foldl_addEdge_bare, foldl_addEdge_bare, h]
  rfl

end Automaton
end TimedAutomata
