import TimedAutomata.Proofs.Notation.Locations
import TimedAutomata.Proofs.Topology.Channels

/-!
# Unmatched transitions

The topology of a network that was read can be resolved unless some transition has no counterpart.
All such transitions are then reported, each once, in the order in which they are declared: the
places of transitions in a text ascend, so that sorting by place changes nothing.

* `Network.Answered`: a transition with a counterpart
* `Network.isMatched_iff`: matching finds it
* `Network.unmatched_eq`: the reports, before they are sorted
* `Network.ascending_unmatched`: they are sorted already
* `Topology.resolve_reports_unmatched`: what resolution reports
-/

namespace TimedAutomata

namespace Network

variable {net : Network}

/-- The transitions of a network with their automata, in order of declaration. -/
def declared (net : Network) : List (Automaton × Transition) :=
  net.flatMap fun a => a.transitions.map fun t => (a, t)

theorem mem_declared {a : Automaton} {t : Transition} :
    (a, t) ∈ net.declared ↔ a ∈ net ∧ t ∈ a.transitions := by
  simp [declared]

/-- The partner of the transition `t` of `a` has a transition in the other direction, with `a` as
its partner and with the same payload. -/
def Answered (net : Network) (a : Automaton) (t : Transition) : Prop :=
  ∃ b ∈ net, b.label = t.comm.partner ∧ ∃ u ∈ b.transitions,
    u.comm.direction = t.comm.direction.opposite ∧ u.comm.partner = a.label ∧
      u.comm.payload = t.comm.payload

instance (net : Network) (a : Automaton) (t : Transition) : Decidable (net.Answered a t) :=
  inferInstanceAs (Decidable (∃ b ∈ net, _))

/-- The report on a transition without a counterpart. -/
structure Reports (net : Network) (x : Automaton × Transition) (u : Unmatched) : Prop where
  automaton : u.automaton = x.1.label
  state : x.1.stateName? x.2.start = some u.state
  comm : u.comm = x.2.comm
  declared : u.partnerDeclared = true ↔ ∃ b ∈ net, b.label = x.2.comm.partner
  span : u.span = x.2.span

theorem withLabel?_isSome_iff {label : String} :
    (net.withLabel? label).isSome = true ↔ ∃ b ∈ net, b.label = label := by
  simp only [withLabel?, List.find?_isSome, List.mem_reverse, beq_iff_eq]
  constructor
  · rintro ⟨x, hx, hlabel⟩
    exact ⟨x.1, List.fst_mem_of_mem_zipIdx hx, hlabel⟩
  · rintro ⟨b, hb, hlabel⟩
    rcases List.getElem?_of_mem hb with ⟨i, hi⟩
    exact ⟨(b, i), List.mk_mem_zipIdx_iff_getElem?.2 hi, hlabel⟩

/-- With different labels, matching finds a counterpart if there is one. -/
theorem isMatched_iff (hlabels : (net.map Automaton.label).Nodup) {a : Automaton}
    {t : Transition} : net.isMatched a.label t.comm = true ↔ net.Answered a t := by
  unfold isMatched Answered
  cases hfound : net.withLabel? t.comm.partner with
  | none =>
    have hnone : ¬ ∃ b ∈ net, b.label = t.comm.partner := by
      rw [← withLabel?_isSome_iff, hfound]
      simp
    simp only [Bool.false_eq_true, false_iff]
    rintro ⟨b, hb, hlabel, -⟩
    exact hnone ⟨b, hb, hlabel⟩
  | some partner =>
    rcases partner with ⟨b, bid⟩
    rcases (withLabel?_eq_some_iff hlabels).1 hfound with ⟨hb, hlabel⟩
    simp only [List.any_eq_true, Communication.completedBy_iff]
    constructor
    · intro hanswer
      exact ⟨b, List.mem_of_getElem? hb, hlabel, hanswer⟩
    · rintro ⟨b', hb', hlabel', hanswer⟩
      -- the label of the partner stands for one automaton
      rcases List.getElem?_of_mem hb' with ⟨i, hi⟩
      obtain rfl := index_eq_of_label_eq hlabels hb hi (hlabel.trans hlabel'.symm)
      obtain rfl : b = b' := by simpa [hb] using hi
      exact hanswer

/-- The reports, in order of declaration. -/
theorem unmatched_eq (hlabels : (net.map Automaton.label).Nodup) :
    net.unmatched = (net.declared.filter fun x => ¬ net.Answered x.1 x.2).map net.report := by
  rw [unmatched, declared, List.filter_flatMap, List.map_flatMap]
  refine List.flatMap_congr fun a _ => ?_
  rw [List.filter_map, List.map_map]
  induction a.transitions with
  | nil => rfl
  | cons t ts ih =>
    by_cases hanswered : net.Answered a t
    · have hmatched := (isMatched_iff hlabels).2 hanswered
      simpa [List.filterMap_cons, hmatched, hanswered] using ih
    · have hmatched : ¬ net.isMatched a.label t.comm = true :=
        fun h => hanswered ((isMatched_iff hlabels).1 h)
      simpa [List.filterMap_cons, hmatched, hanswered, report] using ih

theorem reports_report {a : Automaton} {t : Transition} (ht : t.start < a.states.length) :
    net.Reports (a, t) (net.report (a, t)) where
  automaton := rfl
  state := by
    simp [report, Automaton.stateName, Automaton.stateName?, List.getElem?_eq_getElem ht]
  comm := rfl
  declared := withLabel?_isSome_iff
  span := rfl

/-! ## Networks that were read -/

section Read

variable {text : String} (h : read text = .ok net)
include h

/-- The reports stand in the order of their places. -/
theorem ascending_unmatched : net.unmatched.Pairwise fun u v => u.span.Before v.span := by
  have hspans : (net.unmatched.map Unmatched.span).Sublist
      (net.flatMap fun a => a.transitions.map Transition.span) := by
    have hdeclared : (net.flatMap fun a => a.transitions.map Transition.span) =
        net.declared.map fun x => x.2.span := by
      simp [declared, List.map_flatMap, Function.comp_def]
    rw [unmatched_eq (nodup_labels_of_read h), List.map_map, hdeclared]
    exact List.filter_sublist.map _
  -- leaving out transitions keeps the order of the rest
  rw [← List.pairwise_map]
  exact (located_of_read h).transitions.sublist hspans

theorem mergeSort_unmatched :
    net.unmatched.mergeSort (fun u v => u.span.le v.span) = net.unmatched := by
  apply List.mergeSort_of_pairwise
  refine (ascending_unmatched h).imp ?_
  intro u v hbefore
  simp [Span.le, hbefore.1]

theorem wellFormed_of_read {a : Automaton} (ha : a ∈ net) : a.WellFormed := by
  rcases exists_parts_of_read h with ⟨qs, -, rfl⟩
  rcases List.mem_map.1 ha with ⟨q, -, rfl⟩
  exact q.wellFormed

theorem start_lt_of_read {a : Automaton} (ha : a ∈ net) {t : Transition} (ht : t ∈ a.transitions) :
    t.start < a.states.length :=
  ((wellFormed_of_read h ha).endpoints t ht).1

end Read
end Network

namespace Topology

/-- The topology of a network that was read is refused exactly if some transition has no
counterpart. All of them are then reported, one by one and in order of declaration. This is the
order of their places in the text, so that sorting the reports by place changes nothing. -/
theorem resolve_reports_unmatched {text : String} {net : Network}
    (h : Network.read text = .ok net) :
    ((∃ us, resolve net = .error us) ↔
      ∃ a ∈ net, ∃ t ∈ a.transitions, ¬ net.Answered a t) ∧
    ∀ us, resolve net = .error us → us = net.unmatched ∧
      List.Forall₂ net.Reports (net.declared.filter fun x => ¬ net.Answered x.1 x.2) us ∧
      us.Pairwise fun u v => u.span.Before v.span := by
  have hunmatched := Network.unmatched_eq (Network.nodup_labels_of_read h)
  constructor
  · have hnone : net.unmatched = [] ↔ ∀ a ∈ net, ∀ t ∈ a.transitions, net.Answered a t := by
      simp only [hunmatched, List.map_eq_nil_iff, List.filter_eq_nil_iff, decide_not,
        Bool.not_eq_true, Bool.not_eq_false', decide_eq_true_eq]
      constructor
      · intro hall a ha t ht
        exact hall (a, t) (Network.mem_declared.2 ⟨ha, ht⟩)
      · rintro hall ⟨a, t⟩ hx
        rcases Network.mem_declared.1 hx with ⟨ha, ht⟩
        exact hall a ha t ht
    simp only [resolve_eq_error_iff, exists_and_left, exists_eq, and_true, ne_eq, hnone, not_forall,
      exists_prop]
  · intro us hus
    rcases resolve_eq_error_iff.1 hus with ⟨-, rfl⟩
    rw [Network.mergeSort_unmatched h]
    refine ⟨rfl, ?_, Network.ascending_unmatched h⟩
    rw [hunmatched]
    apply List.forall₂_map_right_iff.2
    apply List.forall₂_same.2
    rintro ⟨a, t⟩ hx
    rcases Network.mem_declared.1 (List.mem_filter.1 hx).1 with ⟨ha, ht⟩
    exact Network.reports_report (Network.start_lt_of_read h ha ht)

/-- A partner that is not declared, and one that has nothing to go with a send or a receive. -/
theorem resolve_reports_unmatched_three_reasons :
    ∃ net us, Network.read
      "Cta A=Init s;s B!m()t;t B!m(x<3)s;t D!m()s;\u3000Cta B=Init u;u A?m()u;u A!k()u;u A?k()u;" =
        .ok net ∧
      resolve net = .error us ∧
      us.map (fun u => (u.automaton, u.state, u.partnerDeclared, u.span)) =
        [("A", "t", false, ⟨34, 42⟩), ("B", "u", true, ⟨68, 76⟩), ("B", "u", true, ⟨77, 85⟩)] ∧
      List.Forall₂ net.Reports (net.declared.filter fun x => ¬ net.Answered x.1 x.2) us ∧
      us.Pairwise fun u v => u.span.Before v.span := by
  rcases Fallible.exists_ok_of_any
    (x := Network.read
      "Cta A=Init s;s B!m()t;t B!m(x<3)s;t D!m()s;\u3000Cta B=Init u;u A?m()u;u A!k()u;u A?k()u;")
    (P := fun net => (∃ a ∈ net, ∃ t ∈ a.transitions, ¬ net.Answered a t) ∧
      net.unmatched.map (fun u => (u.automaton, u.state, u.partnerDeclared, u.span)) =
        [("A", "t", false, ⟨34, 42⟩), ("B", "u", true, ⟨68, 76⟩), ("B", "u", true, ⟨77, 85⟩)])
    (by decide +kernel) with ⟨net, hnet, hlacking, hdata⟩
  rcases resolve_reports_unmatched hnet with ⟨hrefused, hreports⟩
  rcases hrefused.2 hlacking with ⟨us, hus⟩
  rcases hreports us hus with ⟨rfl, hforall, hascending⟩
  exact ⟨net, _, hnet, hus, hdata, hforall, hascending⟩

end Topology
end TimedAutomata
