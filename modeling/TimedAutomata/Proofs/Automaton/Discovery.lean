import TimedAutomata.Proofs.Automaton.Growth
import TimedAutomata.Sequence

/-!
# Discovery of states

The states of an automaton that is read are those that its clauses name, each once, in the order
in which they are first named. Its end states are the states that no transition leaves: the list
is brought up to date with every transition, and no state is added after the last one.

* `Discovers`: the states are those named so far
* `stateNames_ofEdges`, `endStates_ofEdges`: what holds of every automaton made from edges
* `source_ofEdges`, `span_ofEdges`, `spans_ofEdges`: where it was read from
-/

namespace TimedAutomata

namespace Automaton

/-- The states have the given names, each once, in the order of first mention. -/
def Discovers (a : Automaton) (names : List String) : Prop :=
  a.stateNames = names.eraseDups

theorem Discovers.addState {a : Automaton} (ha : a.Indexed) {names : List String}
    (h : a.Discovers names) (name : String) :
    (a.addState name).1.Discovers (names ++ [name]) := by
  have hknown : name ∈ a.stateNames ↔ name ∈ names := by
    rw [h, List.mem_eraseDups]
  unfold Discovers at h ⊢
  rw [Sequence.eraseDups_concat]
  rcases a.addState_cases name with ⟨id, hid, heq⟩ | ⟨hnew, heq⟩
  · have hname := ha.stateName?_of_stateId? hid
    rw [stateName?_eq] at hname
    rw [heq, if_pos (hknown.1 (List.mem_of_getElem? hname)), h]
  · rw [ha.stateId?_eq_none_iff] at hnew
    rw [heq, if_neg (fun hmem => hnew (hknown.2 hmem)), ← h]
    simp [stateNames]

theorem Discovers.addEdge {a : Automaton} (ha : a.Indexed) {names : List String}
    (h : a.Discovers names) (e : Edge) :
    (a.addEdge e).Discovers (names ++ [e.start, e.target]) := by
  have hboth := (h.addState ha e.start).addState (ha.addState e.start) e.target
  rw [List.append_assoc] at hboth
  unfold Discovers at hboth ⊢
  rw [Automaton.addEdge, stateNames_addTransition]
  exact hboth

theorem discovers_foldl {a : Automaton} (ha : a.Indexed) {names : List String}
    (h : a.Discovers names) (es : List Edge) :
    (es.foldl Automaton.addEdge a).Discovers
      (names ++ es.flatMap fun e => [e.start, e.target]) := by
  induction es generalizing a names with
  | nil => simpa using h
  | cons e es ih => simpa using ih (ha.addEdge e) (h.addEdge ha e)

/-- The states of an automaton made from edges, in the order of first mention. -/
theorem stateNames_ofEdges (header : Header) (source : Clause) (es : List Edge) :
    (ofEdges header source es).stateNames =
      (header.initial :: es.flatMap fun e => [e.start, e.target]).eraseDups := by
  have hsingle : (single header.label header.initial (String.ofList source.text)
      source.span).Discovers [header.initial] := by
    simp [Discovers, stateNames, single, List.eraseDups_cons]
  exact discovers_foldl (indexed_single ..) hsingle es

/-! ## End states -/

/-- A transition brings the list of end states up to date. -/
theorem endStates_addTransition {a : Automaton} {t : Transition}
    (hstart : t.start < a.states.length) :
    (a.addTransition t).1.endStates = deadEnds (a.addTransition t).1.states := by
  simp [addTransition, List.getElem?_eq_getElem hstart]

theorem endStates_addEdge {a : Automaton} (ha : a.Indexed) (e : Edge) :
    (a.addEdge e).endStates = deadEnds (a.addEdge e).states := by
  refine endStates_addTransition ?_
  exact lt_length_of_stateName?
    (stateName?_mono (stateNames_addState _ e.target) (stateName?_addState ha e.start))

/-- The end states of an automaton made from edges are the states that no transition leaves. -/
theorem endStates_ofEdges (header : Header) (source : Clause) (es : List Edge) :
    (ofEdges header source es).endStates = deadEnds (ofEdges header source es).states := by
  -- only the last edge matters
  cases es using List.reverseRecOn with
  | nil => rfl
  | append_singleton es e =>
    rw [ofEdges, List.foldl_append]
    exact endStates_addEdge (wellFormed_ofEdges header source es).indexed e

/-! ## Sources -/

/-- The source of an automaton is kept as it was given. -/
theorem source_ofEdges (header : Header) (source : Clause) (es : List Edge) :
    (ofEdges header source es).source = String.ofList source.text := by
  unfold ofEdges
  induction es using List.reverseRecOn with
  | nil => rfl
  | append_singleton es e ih =>
    rw [List.foldl_append, List.foldl_cons, List.foldl_nil, addEdge]
    simpa using ih

theorem span_ofEdges (header : Header) (source : Clause) (es : List Edge) :
    (ofEdges header source es).span = source.span := by
  unfold ofEdges
  induction es using List.reverseRecOn with
  | nil => rfl
  | append_singleton es e ih =>
    rw [List.foldl_append, List.foldl_cons, List.foldl_nil, addEdge]
    simpa using ih

/-- The transitions stand where the edges stand. -/
theorem spans_ofEdges (header : Header) (source : Clause) (es : List Edge) :
    (ofEdges header source es).transitions.map Transition.span = es.map Edge.span := by
  unfold ofEdges
  induction es using List.reverseRecOn with
  | nil => rfl
  | append_singleton es e ih =>
    rw [List.foldl_append, List.foldl_cons, List.foldl_nil]
    have hindexed := (wellFormed_ofEdges header source es).indexed
    rw [ofEdges] at hindexed
    rcases (grows_addEdge hindexed e).transitions with ⟨start, target, htransitions, -, -⟩
    rw [htransitions, List.map_append, ih]
    simp

end Automaton
end TimedAutomata
