import TimedAutomata.Proofs.Topology.Channels

/-!
# Warnings about competing transitions

Transitions of an automaton compete for the same end of a channel. Competing is an equivalence, and
the warnings about an automaton are one for each of its classes with several members, in the order
of their first members.

* `Transition.Competes`: when two transitions compete
* `Automaton.contenders`: the positions of the transitions of one class
* `Sequence.foldl_addTo`, `Automaton.rivals_eq`: the groups that are built up one transition at a
  time are the classes
* `Automaton.Contests`: the classes with several members
* `Automaton.contests_classes`: these are the classes that are found
* `Ambiguity.Describes`: what a warning says about a class
* `Topology.warnings_of_resolve`: the warnings about all automata
-/

namespace TimedAutomata

/-! ## Classes -/

/-- Receives compete if they have the same partner and payload; so do sends, if in addition they
leave the same state. -/
def Transition.Competes (t u : Transition) : Prop :=
  t.comm.partner = u.comm.partner ∧ t.comm.payload = u.comm.payload ∧
    (t.comm.direction = .receive ∧ u.comm.direction = .receive ∨
      t.comm.direction = .send ∧ u.comm.direction = .send ∧ t.start = u.start)

theorem Transition.contest_fst (t : Transition) : t.contest.1 = t.comm := by
  unfold contest
  cases t.comm.direction <;> rfl

theorem Transition.competes_iff {t u : Transition} : t.Competes u ↔ t.contest = u.contest := by
  rcases t with ⟨start, target, ⟨d, partner, payload⟩, guard, resets, span⟩
  rcases u with ⟨start', target', ⟨d', partner', payload'⟩, guard', resets', span'⟩
  cases d <;> cases d' <;> simp [Competes, contest, and_assoc]

/-- A member goes to the group with its key, or into a group of its own. -/
theorem Sequence.addTo_map {κ α : Type} [DecidableEq κ] (k : κ) (a : α) {ks : List κ}
    (hks : ks.Nodup) (members : κ → List α) :
    addTo k a (ks.map fun l => (l, members l)) =
      if k ∈ ks then ks.map fun l => (l, if l = k then members l ++ [a] else members l)
      else (ks.map fun l => (l, members l)) ++ [(k, [a])] := by
  induction ks with
  | nil => rfl
  | cons l ks ih =>
    rw [List.nodup_cons] at hks
    rw [List.map_cons, addTo]
    by_cases hl : l = k
    · subst hl
      -- the key occurs in no later group
      have hrest : (ks.map fun l' => (l', if l' = l then members l' ++ [a] else members l')) =
          ks.map fun l' => (l', members l') := by
        apply List.map_congr_left
        intro l' hl'
        rw [if_neg fun heq => hks.1 (by rwa [← heq])]
      simp [hrest]
    · have hne : ¬ k = l := fun heq => hl heq.symm
      rw [if_neg hl, ih hks.2]
      by_cases hk : k ∈ ks <;> simp [hk, hl, hne]

/-- Groups that are built up one member at a time are the classes under the key, in the order of
their first members. -/
theorem Sequence.foldl_addTo {β κ α : Type} [DecidableEq κ] [BEq κ] [LawfulBEq κ] (key : β → κ)
    (value : β → α) (xs : List β) :
    xs.foldl (fun groups x => addTo (key x) (value x) groups) [] =
      (xs.map key).eraseDups.map fun k => (k, (xs.filter fun x => key x = k).map value) := by
  induction xs using List.reverseRecOn with
  | nil => rfl
  | append_singleton xs x ih =>
    rw [List.foldl_append, List.foldl_cons, List.foldl_nil, ih,
      addTo_map _ _ (nodup_eraseDups _), List.map_append, List.map_singleton, eraseDups_concat]
    by_cases hx : key x ∈ xs.map key
    · rw [if_pos (List.mem_eraseDups.2 hx), if_pos hx]
      apply List.map_congr_left
      intro k _
      by_cases hk : k = key x
      · simp [hk]
      · simp [hk, Ne.symm hk]
    · rw [if_neg fun hmem => hx (List.mem_eraseDups.1 hmem), if_neg hx, List.map_append]
      congr 1
      · apply List.map_congr_left
        intro k hk
        have hne : ¬ key x = k := by
          rintro rfl
          exact hx (List.mem_eraseDups.1 hk)
        simp [hne]
      · have hnone : (xs.filter fun y => key y = key x) = [] := by
          rw [List.filter_eq_nil_iff]
          intro y hy hkey
          exact hx (of_decide_eq_true hkey ▸ List.mem_map_of_mem hy)
        simp [hnone]

/-- The first position found for a key is where the key is first seen. -/
theorem Sequence.head?_findIdxs {α κ : Type} [DecidableEq κ] [BEq κ] [LawfulBEq κ] (key : α → κ)
    {as : List α} {k : κ} (hk : k ∈ as.map key) :
    (as.findIdxs fun a => key a = k).head? = some ((as.map key).idxOf k) := by
  rcases List.mem_map.1 hk with ⟨a, ha, rfl⟩
  rcases List.getElem_of_mem ha with ⟨i, hi, rfl⟩
  have hpos : 0 < (as.findIdxs fun b => key b = key as[i]).length :=
    List.length_pos_of_mem (List.mem_findIdxs_iff_exists_getElem_pos.2 ⟨hi, by simp⟩)
  rw [List.head?_eq_getElem?, List.getElem?_eq_getElem hpos, List.getElem_zero_findIdxs_eq_findIdx,
    List.idxOf, List.findIdx_map]
  have htest : (fun b => decide (key b = key as[i])) = (· == key as[i]) ∘ key := by
    funext b
    rw [Function.comp_apply, Bool.eq_iff_iff, decide_eq_true_iff, beq_iff_eq]
  rw [htest]

namespace Automaton

variable {a : Automaton}

/-- The transitions at two positions compete. -/
def CompeteAt (a : Automaton) (i j : TransitionId) : Prop :=
  ∃ t u, a.transitions[i]? = some t ∧ a.transitions[j]? = some u ∧ t.Competes u

/-- The classes of competing transitions with several members. -/
structure Contests (a : Automaton) (cs : List (List TransitionId)) : Prop where
  /-- Every one is a whole class, in order of declaration. -/
  whole : ∀ c ∈ cs, 2 ≤ c.length ∧ c.Pairwise (· < ·) ∧ ∀ i ∈ c, ∀ j, j ∈ c ↔ a.CompeteAt i j
  /-- Transitions that compete are in one of them. -/
  complete : ∀ i j, i ≠ j → a.CompeteAt i j → ∃ c ∈ cs, i ∈ c ∧ j ∈ c
  /-- They stand in the order of their first members. -/
  order : cs.Pairwise fun c d => ∃ i j, c.head? = some i ∧ d.head? = some j ∧ i < j

/-- The positions of the transitions that compete for the same. -/
def contenders (a : Automaton) (k : Communication × Option StateId) : List TransitionId :=
  a.transitions.findIdxs fun t => t.contest = k

theorem mem_contenders {k : Communication × Option StateId} {i : TransitionId} :
    i ∈ a.contenders k ↔ ∃ t, a.transitions[i]? = some t ∧ t.contest = k := by
  simp only [contenders, List.mem_findIdxs_iff_exists_getElem_pos, decide_eq_true_eq,
    List.getElem?_eq_some_iff]
  constructor
  · rintro ⟨hlt, hk⟩
    exact ⟨a.transitions[i], ⟨hlt, rfl⟩, hk⟩
  · rintro ⟨t, ⟨hlt, rfl⟩, hk⟩
    exact ⟨hlt, hk⟩

/-- Transitions compete exactly if they compete for the same. -/
theorem competeAt_iff {k : Communication × Option StateId} {i j : TransitionId}
    (hi : i ∈ a.contenders k) : a.CompeteAt i j ↔ j ∈ a.contenders k := by
  rcases mem_contenders.1 hi with ⟨t, ht, rfl⟩
  rw [mem_contenders]
  constructor
  · rintro ⟨t', u, ht', hu, hcompetes⟩
    obtain rfl : t = t' := by simpa [ht] using ht'
    exact ⟨u, hu, (Transition.competes_iff.1 hcompetes).symm⟩
  · rintro ⟨u, hu, hk⟩
    exact ⟨t, u, ht, hu, Transition.competes_iff.2 hk.symm⟩

/-- What is competed for, in the order of the first competitors. -/
def stakes (a : Automaton) : List (Communication × Option StateId) :=
  (a.transitions.map Transition.contest).eraseDups

/-- The groups that are found are the classes of transitions that compete. -/
theorem rivals_eq (a : Automaton) : a.rivals = a.stakes.map fun k => (k, a.contenders k) := by
  have hkeys : (a.transitions.zipIdx.map fun x => x.1.contest) =
      a.transitions.map Transition.contest := by
    conv_rhs => rw [← List.zipIdx_map_fst 0 a.transitions, List.map_map]
    rfl
  rw [rivals, Sequence.foldl_addTo (fun x : Transition × TransitionId => x.1.contest) Prod.snd,
    hkeys]
  apply List.map_congr_left
  intro k _
  rw [contenders, List.findIdxs_eq_filterMap_zipIdx]
  simp only [← List.filterMap_eq_filter, List.map_filterMap, Option.guard_def]
  congr 1
  refine List.filterMap_congr fun x _ => ?_
  by_cases hk : x.1.contest = k <;> simp [hk]

/-- The classes with several members, as they are found. -/
def contests (a : Automaton) : List (List TransitionId) :=
  (a.rivals.filter fun g => 1 < g.2.length).map Prod.snd

theorem contests_eq (a : Automaton) :
    a.contests = (a.stakes.map a.contenders).filter fun c => 2 ≤ c.length := by
  rw [contests, rivals_eq, List.filter_map, List.map_map, List.filter_map]
  rfl

/-- A list with two different members has at least two. -/
theorem two_le_length {c : List TransitionId} {i j : TransitionId} (hi : i ∈ c) (hj : j ∈ c)
    (hne : i ≠ j) : 2 ≤ c.length := by
  match c with
  | [] => cases hi
  | [x] => exact absurd ((List.mem_singleton.1 hi).trans (List.mem_singleton.1 hj).symm) hne
  | x :: y :: c => simp

theorem contests_classes (a : Automaton) : a.Contests a.contests where
  whole c hc := by
    rw [contests_eq] at hc
    rcases List.mem_filter.1 hc with ⟨hmem, hlength⟩
    rcases List.mem_map.1 hmem with ⟨k, -, rfl⟩
    refine ⟨of_decide_eq_true hlength, List.pairwise_findIdxs, ?_⟩
    intro i hi j
    rw [competeAt_iff hi]
  complete i j hne hcompete := by
    rcases hcompete with ⟨t, u, ht, hu, hcompetes⟩
    have hi : i ∈ a.contenders t.contest := mem_contenders.2 ⟨t, ht, rfl⟩
    have hj := (competeAt_iff hi).1 ⟨t, u, ht, hu, hcompetes⟩
    have hstake : t.contest ∈ a.stakes :=
      List.mem_eraseDups.2 (List.mem_map_of_mem (List.mem_of_getElem? ht))
    rw [contests_eq]
    refine ⟨a.contenders t.contest, List.mem_filter.2 ⟨List.mem_map_of_mem hstake, ?_⟩, hi, hj⟩
    exact decide_eq_true (two_le_length hi hj hne)
  order := by
    -- first members stand where what they compete for is first seen
    rw [contests_eq]
    refine List.Pairwise.filter _ (List.pairwise_map.2 ?_)
    refine (Sequence.pairwise_eraseDups _).imp_of_mem ?_
    intro k l hk hl hlt
    rw [List.mem_eraseDups] at hk hl
    exact ⟨_, _, Sequence.head?_findIdxs _ hk, Sequence.head?_findIdxs _ hl, hlt⟩

end Automaton

/-! ## Warnings -/

/-- The warning is about the transitions of `a` at the given positions. -/
structure Ambiguity.Describes (a : Automaton) (c : List TransitionId) (w : Ambiguity) : Prop where
  automaton : w.automaton = a.label
  candidates : w.candidates = c.length
  states : List.Forall₂ (fun i name => ∃ t, a.transitions[i]? = some t ∧
    a.stateName t.start = name) c w.states
  primary : ∃ i t, c.head? = some i ∧ a.transitions[i]? = some t ∧ w.comm = t.comm ∧
    w.span = t.span

namespace Automaton

/-- Every position of a class is that of a transition. -/
theorem forall₂_contenders (a : Automaton) (k : Communication × Option StateId) :
    List.Forall₂ (fun i t => a.transitions[i]? = some t ∧ t.contest = k) (a.contenders k)
      ((a.contenders k).filterMap fun i => a.transitions[i]?) := by
  have hall : ∀ i ∈ a.contenders k, ∃ t, a.transitions[i]? = some t ∧ t.contest = k :=
    fun i hi => mem_contenders.1 hi
  generalize a.contenders k = c at hall
  induction c with
  | nil => exact .nil
  | cons i c ih =>
    rw [List.forall_mem_cons] at hall
    rcases hall with ⟨⟨t, ht, hk⟩, hrest⟩
    rw [List.filterMap_cons, ht]
    exact .cons ⟨ht, hk⟩ (ih hrest)

/-- The warning about a class describes it. -/
theorem describes_ambiguity (a : Automaton) {k : Communication × Option StateId}
    (hlength : 1 < (a.contenders k).length) :
    Ambiguity.Describes a (a.contenders k) (a.ambiguity k.1 (a.contenders k)) := by
  have hmembers := a.forall₂_contenders k
  refine ⟨rfl, rfl, ?_, ?_⟩
  · apply List.forall₂_map_right_iff.2
    exact hmembers.imp fun i t ht => ⟨t, ht.1, rfl⟩
  · -- there is a first member, and what is competed for is its communication
    unfold ambiguity
    generalize ((a.contenders k).filterMap fun i => a.transitions[i]?) = ts at hmembers ⊢
    generalize a.contenders k = c at hmembers hlength ⊢
    cases hmembers with
    | nil => simp at hlength
    | @cons i t c ts ht _ =>
      exact ⟨i, t, rfl, ht.1, by rw [← t.contest_fst, ht.2], rfl⟩

theorem describes_ambiguities (a : Automaton) :
    List.Forall₂ (Ambiguity.Describes a) a.contests a.ambiguities := by
  apply List.forall₂_map_left_iff.2
  apply List.forall₂_map_right_iff.2
  apply List.forall₂_same.2
  intro g hg
  rcases List.mem_filter.1 hg with ⟨hmem, hlength⟩
  rw [rivals_eq] at hmem
  rcases List.mem_map.1 hmem with ⟨k, -, rfl⟩
  exact a.describes_ambiguity (of_decide_eq_true hlength)

end Automaton

/-- The warnings of a topology are those about its automata, in order, and the warnings about an
automaton are one for each class of several competing transitions, in the order of their first
members. -/
theorem Topology.warnings_of_resolve {net : Network} {t : Topology} (h : resolve net = .ok t) :
    ∃ parts, t.warnings = parts.flatten ∧ List.Forall₂ (fun a ws => ∃ cs, a.Contests cs ∧
      List.Forall₂ (Ambiguity.Describes a) cs ws) net parts := by
  refine ⟨net.map Automaton.ambiguities, ?_, ?_⟩
  · rcases resolve_eq_ok_iff.1 h with ⟨-, rfl⟩
    exact List.flatMap_def
  · apply List.forall₂_map_right_iff.2
    apply List.forall₂_same.2
    intro a _
    exact ⟨a.contests, a.contests_classes, a.describes_ambiguities⟩

/-- Two sends from one state, with a third from another state between them, and receives from both
states. -/
theorem Topology.warnings_of_resolve_interleaved :
    ∃ net t, Network.read ("Cta A=Init s;s B!m()t;t B?k()s;t B!m()t;s B!m()s;s B?k()t;t B?k()t;" ++
        "Cta B=Init u;u A?m()u;u A!k()u;") = .ok net ∧ resolve net = .ok t ∧
      t.warnings = [⟨"A", ["s", "s"], ⟨.send, "B", "m"⟩, 2, ⟨13, 21⟩⟩,
        ⟨"A", ["t", "s", "t"], ⟨.receive, "B", "k"⟩, 3, ⟨22, 30⟩⟩] ∧
      net.map Automaton.contests = [[[0, 3], [1, 4, 5]], []] ∧
      ∃ parts, t.warnings = parts.flatten ∧ List.Forall₂ (fun a ws => ∃ cs, a.Contests cs ∧
        List.Forall₂ (Ambiguity.Describes a) cs ws) net parts := by
  rcases Fallible.exists_ok_of_any
    (x := Network.read ("Cta A=Init s;s B!m()t;t B?k()s;t B!m()t;s B!m()s;s B?k()t;t B?k()t;" ++
      "Cta B=Init u;u A?m()u;u A!k()u;"))
    (P := fun net => (resolve net).toOption.any (fun t => decide
        (t.warnings = [⟨"A", ["s", "s"], ⟨.send, "B", "m"⟩, 2, ⟨13, 21⟩⟩,
          ⟨"A", ["t", "s", "t"], ⟨.receive, "B", "k"⟩, 3, ⟨22, 30⟩⟩])) = true ∧
      net.map Automaton.contests = [[[0, 3], [1, 4, 5]], []])
    (by decide +kernel) with ⟨net, hnet, hresolve, hcontests⟩
  rcases Fallible.exists_ok_of_any hresolve with ⟨t, ht, hwarnings⟩
  exact ⟨net, t, hnet, ht, hwarnings, hcontests, warnings_of_resolve ht⟩

end TimedAutomata
