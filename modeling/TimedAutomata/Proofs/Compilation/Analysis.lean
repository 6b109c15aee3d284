import TimedAutomata.Compilation.Basic
import TimedAutomata.Proofs.Notation.Reading
import TimedAutomata.Proofs.Policy.Coverage
import TimedAutomata.Proofs.Topology.Binding

/-!
# Analysed programs

What holds of every program that an analysis returns: its automata are made from parts in the
notation and have different labels, its transitions have channels and its states have arbiters.

* `analyze_eq_ok_iff`, `analyze_eq_error_iff`: the three stages
* `Program.Analyzed`: the facts
* `analyzed_of_analyze`: they hold
* `Network.length_transitions_lt`: a text is longer than the list of transitions read from it
-/

namespace TimedAutomata

theorem analyze_eq_ok_iff {text : String} {c : Config} {p : Program} :
    analyze text c = .ok p ↔ Network.read text = .ok p.network ∧
      Topology.resolve p.network = .ok p.topology ∧
      Policy.resolve p.network c.arbitration = .ok p.policy := by
  simp only [analyze, Fallible.bind_eq_ok_iff, Fallible.mapError_eq_ok_iff,
    Fallible.pure_eq_ok_iff]
  constructor
  · rintro ⟨net, hnet, topology, htopology, policy, hpolicy, rfl⟩
    exact ⟨hnet, htopology, hpolicy⟩
  · rintro ⟨hnet, htopology, hpolicy⟩
    exact ⟨p.network, hnet, p.topology, htopology, p.policy, hpolicy, rfl⟩

/-- The stage that fails is the first that can. -/
theorem analyze_eq_error_iff {text : String} {c : Config} {f : Failure} :
    analyze text c = .error f ↔ (∃ e, Network.read text = .error e ∧ f = .unreadable e) ∨
      ∃ net, Network.read text = .ok net ∧
        ((∃ us, Topology.resolve net = .error us ∧ f = .unmatched us) ∨
          ∃ t, Topology.resolve net = .ok t ∧
            ∃ fs, Policy.resolve net c.arbitration = .error fs ∧ f = .unsettled fs) := by
  simp only [analyze, Fallible.bind_eq_error_iff, Fallible.mapError_eq_error_iff,
    Fallible.mapError_eq_ok_iff, Fallible.pure_ne_error, and_false, exists_false, or_false,
    eq_comm (a := f)]

/-- What an analysis establishes. -/
structure Program.Analyzed (p : Program) : Prop where
  parts : ∀ {aid : AutomatonId} {a}, p.network[aid]? = some a →
    ∃ q : Parts, q.Written ∧ q.automaton = a
  labels : (p.network.map Automaton.label).Nodup
  binds : p.topology.Binds p.network
  arbiter : ∀ {aid : AutomatonId} {a} {sid : StateId} {s}, p.network[aid]? = some a →
    a.states[sid]? = some s → s.outgoing ≠ [] →
    ∃ arbiter, p.policy.arbiter? aid sid = some arbiter ∧
      arbiter.classes.length = s.outgoing.length

theorem analyzed_of_analyze {text : String} {c : Config} {p : Program}
    (h : analyze text c = .ok p) : p.Analyzed := by
  rcases analyze_eq_ok_iff.1 h with ⟨hnet, htopology, hpolicy⟩
  refine ⟨?_, Network.nodup_labels_of_read hnet, Topology.binds_of_resolve htopology,
    Policy.arbiter_of_resolve hpolicy⟩
  intro aid a ha
  rcases Network.exists_parts_of_read hnet with ⟨qs, hqs, hmap⟩
  have hmem := List.mem_of_getElem? ha
  rw [← hmap] at hmem
  rcases List.mem_map.1 hmem with ⟨q, hq, rfl⟩
  exact ⟨q, hqs q hq, rfl⟩

namespace Program.Analyzed

variable {p : Program} {aid : AutomatonId} {a : Automaton}

theorem wellFormed (h : p.Analyzed) (ha : p.network[aid]? = some a) : a.WellFormed := by
  rcases h.parts ha with ⟨q, -, rfl⟩
  exact q.wellFormed

/-- Every transition comes from an edge in the notation. -/
theorem exists_edge (h : p.Analyzed) (ha : p.network[aid]? = some a) {t : Transition}
    (ht : t ∈ a.transitions) : ∃ e : Edge, e.Written ∧ a.IsEdge t e := by
  rcases h.parts ha with ⟨q, hq, rfl⟩
  rcases Fallible.exists_of_mem_left q.represents.edges ht with ⟨e, he, hedge⟩
  exact ⟨e, hq.edges e he, hedge⟩

end Program.Analyzed

/-! ## Sizes -/

namespace Declaration

theorem length_cut_le (offset : Nat) (before : Option Char) (cs : List Char) :
    (cut offset before cs).1.length ≤ cs.length ∧
      ∀ piece ∈ (cut offset before cs).2, piece.text.length ≤ cs.length := by
  induction cs generalizing offset before with
  | nil => simp [cut]
  | cons c cs ih =>
    rcases ih (offset + c.utf8Size) (some c) with ⟨hhead, hpieces⟩
    have hlater : ∀ piece ∈ (cut (offset + c.utf8Size) (some c) cs).2,
        piece.text.length ≤ cs.length + 1 :=
      fun piece hpiece => Nat.le_succ_of_le (hpieces piece hpiece)
    rw [cut_cons]
    split
    · simpa using ⟨hhead, hlater⟩
    · simpa using ⟨hhead, hlater⟩

theorem length_split_le (offset : Nat) (cs : List Char) :
    (split offset cs).1.length ≤ cs.length := by
  induction cs generalizing offset with
  | nil => simp [split]
  | cons c cs ih =>
    have hrest := ih (offset + c.utf8Size)
    unfold split
    cases hclosed : (split (offset + c.utf8Size) cs).1 with
    | nil =>
      simp only [hclosed]
      split <;> simp
    | cons first closed =>
      rw [hclosed] at hrest
      simp only [List.length_cons] at hrest ⊢
      simp only [hclosed]
      split <;> simp <;> omega

theorem length_edges_lt {piece : Clause} {d : Declaration} (h : ofPiece piece = .ok d) :
    d.edges.length < piece.text.length := by
  have hle := length_split_le piece.offset piece.text
  rcases ofPiece_eq_ok_iff.1 h with ⟨header, edges, hclosed, -, rfl⟩
  rw [hclosed] at hle
  simpa using Nat.lt_of_succ_le hle

end Declaration

/-- Every transition takes up some of the text. -/
theorem Network.length_transitions_lt {text : String} {net : Network} (h : read text = .ok net)
    {a : Automaton} (ha : a ∈ net) : a.transitions.length < text.length := by
  rcases read_eq_ok_iff.1 h with ⟨-, hwritten, -⟩
  rcases Fallible.exists_of_mem_right hwritten ha with ⟨piece, hpiece, d, hd, hda⟩
  rcases Declaration.automaton_eq_ok_iff.1 hda with ⟨header, es, -, hes, rfl⟩
  have hrep := Automaton.represents_ofEdges header d.whole es
  calc (Automaton.ofEdges header d.whole es).transitions.length
      = d.edges.length := by rw [hrep.edges.length_eq, hes.length_eq]
    _ < piece.text.length := Declaration.length_edges_lt hd
    _ ≤ text.toList.length := (Declaration.length_cut_le 0 none text.toList).2 piece hpiece
    _ = text.length := String.length_toList

end TimedAutomata
