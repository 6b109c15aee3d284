import Mathlib.Data.List.Forall2
import Mathlib.Data.List.Perm.Basic
import TimedAutomata.Proofs.Lookup
import TimedAutomata.Proofs.Policy.Coverage
import TimedAutomata.Proofs.Topology.Channels

/-!
# What the entries of a configuration settle

Whether a policy can be resolved, and which arbiters it then has, does not depend on the order in
which the entries are worked off. Each entry settles one state on its own, or nothing at all; a
policy can be resolved exactly if all entries settle states, no two of them the same one, and none
is missing.

* `settled?`: the state that an entry settles, and the arbiter it gives to it
* `faults_draft`: the faults of the entries, and the states that need an entry and have none
* `Settles`: the entries settle given states, among them all that need an entry
* `settles_of_resolve`, `resolve_of_settles`: a policy can be resolved exactly if they do
* `Settles.perm`: they do in any order
* `arbiter?_of_settles`: the arbiters of the policy
-/

namespace TimedAutomata

/-- The transitions that leave a state of a network. -/
def Network.outgoing (net : Network) (k : StateKey) : List TransitionId :=
  match net[k.1]? with
  | none => []
  | some a => a.outgoing k.2

namespace Policy

variable {net : Network} {entries : List ArbitrationEntry} {xs : List (StateKey × Arbiter)}

/-! ## Entries -/

theorem firstWithLabel?_eq_some_iff (hlabels : (net.map Automaton.label).Nodup) {label : String}
    {a : Automaton} {aid : AutomatonId} :
    firstWithLabel? net label = some (a, aid) ↔ net[aid]? = some a ∧ a.label = label :=
  Network.find?_label_eq_some_iff hlabels fun _ => List.mk_mem_zipIdx_iff_getElem?

/-- The state that an entry settles, and the arbiter that it gives to it. An entry with a fault
settles nothing. -/
def settled? (net : Network) (entry : ArbitrationEntry) : Option (StateKey × Arbiter) :=
  match firstWithLabel? net entry.automaton with
  | none => none
  | some (a, aid) =>
    match a.stateId? entry.state with
    | none => none
    | some sid =>
      let s := slots entry (a.outgoing sid).length
      if s.faults = [] then some ((aid, sid), ⟨s.classes.filterMap id⟩) else none

theorem settled?_eq_some_iff {entry : ArbitrationEntry} {x : StateKey × Arbiter} :
    settled? net entry = some x ↔ ∃ a aid sid,
      firstWithLabel? net entry.automaton = some (a, aid) ∧ a.stateId? entry.state = some sid ∧
      (slots entry (a.outgoing sid).length).faults = [] ∧
      x = ((aid, sid), ⟨(slots entry (a.outgoing sid).length).classes.filterMap id⟩) := by
  unfold settled?
  cases hlabel : firstWithLabel? net entry.automaton with
  | none => simp
  | some found =>
    rcases found with ⟨a, aid⟩
    cases hstate : a.stateId? entry.state with
    | none => simp [hstate]
    | some sid =>
      by_cases hfaults : (slots entry (a.outgoing sid).length).faults = []
      · simp [hstate, hfaults, @eq_comm _ x]
      · simp [hstate, hfaults]

/-- An entry goes through without a fault exactly if it settles a state that was not settled. -/
theorem addEntry_eq_iff {d : Draft} {entry : ArbitrationEntry} {as : List (StateKey × Arbiter)} :
    addEntry net d entry = ⟨as, []⟩ ↔ d.faults = [] ∧
      ∃ x, settled? net entry = some x ∧ d.has x.1 = false ∧ as = d.arbiters ++ [x] := by
  unfold addEntry settled?
  cases hlabel : firstWithLabel? net entry.automaton with
  | none => simp [Draft.fault]
  | some found =>
    rcases found with ⟨a, aid⟩
    cases hstate : a.stateId? entry.state with
    | none => simp [hstate, Draft.fault]
    | some sid =>
      by_cases hhas : d.has (aid, sid) = true
      · simp [hstate, hhas, Draft.fault]
      · cases hfaults : (slots entry (a.outgoing sid).length).faults with
        | nil => simp [hstate, hhas, hfaults, Draft.settle, and_comm, @eq_comm _ as]
        | cons f fs => simp [hstate, hhas, hfaults]

theorem has_append {d : Draft} {k l : StateKey} {arbiter : Arbiter} :
    Draft.has ⟨d.arbiters ++ [(l, arbiter)], []⟩ k = false ↔ d.has k = false ∧ k ≠ l := by
  simp only [Draft.has, ← Bool.not_eq_true, lookup_isSome_iff]
  simp

/-- Entries go through without a fault exactly if they settle different states that were not
settled before. -/
theorem foldl_addEntry_eq_iff {d : Draft} {as : List (StateKey × Arbiter)} :
    entries.foldl (addEntry net) d = ⟨as, []⟩ ↔ d.faults = [] ∧
      ∃ xs, List.Forall₂ (fun entry x => settled? net entry = some x) entries xs ∧
        (xs.map Prod.fst).Nodup ∧ (∀ x ∈ xs, d.has x.1 = false) ∧ as = d.arbiters ++ xs := by
  induction entries generalizing d with
  | nil =>
    rcases d with ⟨arbiters, faults⟩
    simp [and_comm, @eq_comm _ as]
  | cons entry entries ih =>
    rw [List.foldl_cons, ih]
    constructor
    · -- no fault at the end means none after the first entry
      rintro ⟨hfaults, xs, hsettled, hkeys, hfree, rfl⟩
      have hstep : addEntry net d entry = ⟨(addEntry net d entry).arbiters, []⟩ := by
        rw [← hfaults]
      rcases addEntry_eq_iff.1 hstep with ⟨hd, ⟨k, arbiter⟩, hx, hhas, has⟩
      rw [hstep, has] at hfree
      simp only [has_append] at hfree
      refine ⟨hd, (k, arbiter) :: xs, .cons hx hsettled, ?_, ?_, ?_⟩
      · rw [List.map_cons, List.nodup_cons]
        refine ⟨?_, hkeys⟩
        intro hmem
        rcases List.mem_map.1 hmem with ⟨y, hy, heq⟩
        exact (hfree y hy).2 heq
      · intro y hy
        rcases List.mem_cons.1 hy with rfl | hy
        · exact hhas
        · exact (hfree y hy).1
      · rw [has, List.append_assoc, List.singleton_append]
    · rintro ⟨hd, ys, hsettled, hkeys, hfree, rfl⟩
      cases hsettled with
      | @cons _ x _ xs hx hsettled =>
        rcases x with ⟨k, arbiter⟩
        rw [List.map_cons, List.nodup_cons] at hkeys
        rw [List.forall_mem_cons] at hfree
        have hstep : addEntry net d entry = ⟨d.arbiters ++ [(k, arbiter)], []⟩ :=
          addEntry_eq_iff.2 ⟨hd, (k, arbiter), hx, hfree.1, rfl⟩
        rw [hstep]
        refine ⟨rfl, xs, hsettled, hkeys.2, ?_, by simp⟩
        intro y hy
        refine has_append.2 ⟨hfree.2 y hy, ?_⟩
        intro heq
        exact hkeys.1 (List.mem_map.2 ⟨y, hy, heq⟩)

/-! ## States -/

/-- The arbiter of a state without an entry: a single transition is taken whenever it can be. -/
def standard? (net : Network) (k : StateKey) : Option Arbiter :=
  if (net.outgoing k).length = 1 then some ⟨[.default]⟩ else none

/-- A state of a network, with its automaton. -/
abbrev Place := (Automaton × AutomatonId) × (State × StateId)

def Place.key (x : Place) : StateKey :=
  (x.1.2, x.2.2)

/-- The states of a network, in order. -/
def places (net : Network) : List Place :=
  net.zipIdx.flatMap fun a => a.1.states.zipIdx.map fun s => (a, s)

/-- One state, as `addState` works it off. -/
def addPlace (d : Draft) (x : Place) : Draft :=
  addState x.1.1 x.1.2 d x.2

theorem draft_eq (net : Network) (entries : List ArbitrationEntry) :
    draft net entries = (places net).foldl addPlace (entryDraft net entries) := by
  unfold draft places
  rw [List.foldl_flatMap]
  simp only [List.foldl_map]
  rfl

theorem mem_places {x : Place} :
    x ∈ places net ↔ net[x.1.2]? = some x.1.1 ∧ x.1.1.states[x.2.2]? = some x.2.1 := by
  rcases x with ⟨⟨a, aid⟩, s, sid⟩
  simp [places, List.mk_mem_zipIdx_iff_getElem?]

theorem outgoing_key {x : Place} (h : x ∈ places net) : net.outgoing x.key = x.2.1.outgoing := by
  rcases mem_places.1 h with ⟨ha, hs⟩
  simp [Network.outgoing, Place.key, ha, Automaton.outgoing, Automaton.outgoing?, hs]

/-- Only a state of the network has transitions. -/
theorem exists_place {k : StateKey} (h : net.outgoing k ≠ []) : ∃ x ∈ places net, x.key = k := by
  unfold Network.outgoing at h
  cases ha : net[k.1]? with
  | none => simp [ha] at h
  | some a =>
    cases hs : a.states[k.2]? with
    | none => simp [ha, Automaton.outgoing, Automaton.outgoing?, hs] at h
    | some s => exact ⟨((a, k.1), (s, k.2)), mem_places.2 ⟨ha, hs⟩, rfl⟩

/-- A place with one transition is settled unless it was. -/
theorem lookup_addPlace {x : Place} (hx : x ∈ places net) (d : Draft) (k : StateKey) :
    (addPlace d x).arbiters.lookup k =
      (d.arbiters.lookup k).or (if x.key = k then standard? net k else none) := by
  have hkey := outgoing_key hx
  by_cases hk : x.key = k
  · subst hk
    simp only [if_true, standard?, hkey, addPlace, addState]
    match x.2.1.outgoing with
    | [] => simp
    | [t] =>
      by_cases hhas : d.has (x.1.2, x.2.2) = true
      · rcases Option.isSome_iff_exists.1 hhas with ⟨arbiter, harbiter⟩
        simp [hhas, Place.key, harbiter]
      · simp [hhas, Draft.settle, List.lookup_append, Place.key]
    | first :: second :: more =>
      by_cases hhas : d.has (x.1.2, x.2.2) = true <;> simp [hhas, Draft.fault]
  · have hne : (k == (x.1.2, x.2.2)) = false := by
      rw [beq_eq_false_iff_ne]
      exact Ne.symm hk
    simp only [if_neg hk, Option.or_none, addPlace, addState]
    match x.2.1.outgoing with
    | [] => rfl
    | [t] =>
      by_cases hhas : d.has (x.1.2, x.2.2) = true
      · simp [hhas]
      · simp [hhas, Draft.settle, List.lookup_append, List.lookup_cons, hne]
    | first :: second :: more =>
      by_cases hhas : d.has (x.1.2, x.2.2) = true <;> simp [hhas, Draft.fault]

/-- What is reported about a place that needs an entry. -/
def Place.missing (x : Place) : Fault :=
  let first := x.2.1.outgoing.head?.bind fun t => x.1.1.transitions[t]?
  .missingArbitration x.1.1.label x.2.1.name x.2.1.outgoing.length
    ((first.map Transition.span).getD ⟨0, 0⟩)

/-- A place that needs an entry is reported unless it is settled. -/
theorem faults_addPlace (d : Draft) (x : Place) :
    (addPlace d x).faults = d.faults ++
      if 2 ≤ x.2.1.outgoing.length ∧ d.has x.key = false then [x.missing] else [] := by
  simp only [addPlace, addState, Place.key, Place.missing]
  match x.2.1.outgoing with
  | [] => simp
  | [t] => by_cases hhas : d.has (x.1.2, x.2.2) = true <;> simp [hhas, Draft.settle]
  | first :: second :: more =>
    by_cases hhas : d.has (x.1.2, x.2.2) = true <;> simp [hhas, Draft.fault]

/-- A state that needs an entry is not settled without one. -/
theorem has_addPlace {x : Place} (hx : x ∈ places net) (d : Draft) {k : StateKey}
    (hk : 2 ≤ (net.outgoing k).length) : (addPlace d x).has k = d.has k := by
  have hstandard : standard? net k = none := if_neg (by omega)
  simp only [Draft.has, lookup_addPlace hx, hstandard, ite_self, Option.or_none]

section Places

variable {ys : List Place} (hys : ∀ x ∈ ys, x ∈ places net)
include hys

theorem lookup_foldl_addPlace (d : Draft) (k : StateKey) :
    (ys.foldl addPlace d).arbiters.lookup k =
      (d.arbiters.lookup k).or (if k ∈ ys.map Place.key then standard? net k else none) := by
  induction ys generalizing d with
  | nil => simp
  | cons x ys ih =>
    rw [List.forall_mem_cons] at hys
    rw [List.foldl_cons, ih hys.2, lookup_addPlace hys.1, Option.or_assoc]
    congr 1
    by_cases hk : x.key = k
    · cases hstandard : standard? net k <;> simp [hk]
    · have hmem : k ∈ (x :: ys).map Place.key ↔ k ∈ ys.map Place.key := by
        rw [List.map_cons, List.mem_cons, or_iff_right (Ne.symm hk)]
      simp only [if_neg hk, Option.none_or, hmem]

/-- The places that need an entry and have none are reported, in order. -/
theorem faults_foldl_addPlace (d : Draft) :
    (ys.foldl addPlace d).faults = d.faults ++
      (ys.filter fun x => 2 ≤ x.2.1.outgoing.length ∧ d.has x.key = false).map Place.missing := by
  induction ys generalizing d with
  | nil => simp
  | cons x ys ih =>
    rw [List.forall_mem_cons] at hys
    -- a place does not settle those behind it that need an entry
    have hlater :
        (ys.filter fun y => 2 ≤ y.2.1.outgoing.length ∧ (addPlace d x).has y.key = false) =
          ys.filter fun y => 2 ≤ y.2.1.outgoing.length ∧ d.has y.key = false := by
      refine List.filter_congr fun y hy => ?_
      rw [decide_eq_decide]
      refine and_congr_right fun hneeds => ?_
      rw [← outgoing_key (hys.2 y hy)] at hneeds
      rw [has_addPlace hys.1 d hneeds]
    rw [List.foldl_cons, ih hys.2, faults_addPlace, hlater, List.append_assoc]
    by_cases hneeds : 2 ≤ x.2.1.outgoing.length ∧ d.has x.key = false
    · rw [if_pos hneeds, List.filter_cons_of_pos (by simpa using hneeds), List.map_cons,
        List.singleton_append]
    · rw [if_neg hneeds, List.filter_cons_of_neg (by simpa using hneeds), List.nil_append]

end Places

/-! ## Policies -/

/-- The entries settle the states `xs`, each entry one, among them all that need an entry. -/
structure Settles (net : Network) (entries : List ArbitrationEntry)
    (xs : List (StateKey × Arbiter)) : Prop where
  settled : List.Forall₂ (fun entry x => settled? net entry = some x) entries xs
  keys : (xs.map Prod.fst).Nodup
  covers : ∀ k, 2 ≤ (net.outgoing k).length → k ∈ xs.map Prod.fst

theorem resolve_eq_ok_iff {policy : Policy} :
    resolve net entries = .ok policy ↔ draft net entries = ⟨policy.arbiters, []⟩ := by
  unfold resolve
  cases hdraft : draft net entries with
  | mk arbiters faults =>
    rcases policy with ⟨as⟩
    cases faults <;> simp

/-- No place is reported exactly if all states that need an entry are settled. -/
theorem filter_places_eq_nil_iff (d : Draft) :
    ((places net).filter fun x => 2 ≤ x.2.1.outgoing.length ∧ d.has x.key = false) = [] ↔
      ∀ k, 2 ≤ (net.outgoing k).length → k ∈ d.arbiters.map Prod.fst := by
  simp only [List.filter_eq_nil_iff, decide_eq_true_eq, not_and, Bool.not_eq_false]
  constructor
  · intro h k hk
    -- a state that needs an entry has transitions, so it is one of the places
    have hne : net.outgoing k ≠ [] := List.ne_nil_of_length_pos (by omega)
    rcases exists_place hne with ⟨x, hx, rfl⟩
    rw [outgoing_key hx] at hk
    exact lookup_isSome_iff.1 (h x hx hk)
  · intro h x hx hk
    rw [← outgoing_key hx] at hk
    exact lookup_isSome_iff.2 (h x.key hk)

theorem faults_draft (net : Network) (entries : List ArbitrationEntry) :
    (draft net entries).faults = (entryDraft net entries).faults ++ ((places net).filter fun x =>
      2 ≤ x.2.1.outgoing.length ∧ (entryDraft net entries).has x.key = false).map
        Place.missing := by
  rw [draft_eq, faults_foldl_addPlace fun x hx => hx]

/-- The draft has no fault exactly if the entries settle all that they have to. -/
theorem faults_draft_iff : (draft net entries).faults = [] ↔ ∃ xs, Settles net entries xs := by
  rw [faults_draft, List.append_eq_nil_iff, List.map_eq_nil_iff, filter_places_eq_nil_iff]
  constructor
  · rintro ⟨hfaults, hcovers⟩
    have hdraft : entryDraft net entries = ⟨(entryDraft net entries).arbiters, []⟩ := by
      rw [← hfaults]
    rcases foldl_addEntry_eq_iff.1 hdraft with ⟨-, xs, hsettled, hkeys, -, heq⟩
    rw [heq] at hcovers
    exact ⟨xs, hsettled, hkeys, hcovers⟩
  · rintro ⟨xs, h⟩
    have hdraft : entryDraft net entries = ⟨xs, []⟩ :=
      foldl_addEntry_eq_iff.2 ⟨rfl, xs, h.settled, h.keys, fun _ _ => rfl, rfl⟩
    rw [hdraft]
    exact ⟨rfl, h.covers⟩

theorem settles_of_resolve {policy : Policy} (h : resolve net entries = .ok policy) :
    ∃ xs, Settles net entries xs := by
  apply faults_draft_iff.1
  rw [resolve_eq_ok_iff.1 h]

theorem resolve_of_settles (h : Settles net entries xs) :
    ∃ policy, resolve net entries = .ok policy := by
  refine ⟨⟨(draft net entries).arbiters⟩, resolve_eq_ok_iff.2 ?_⟩
  rw [← faults_draft_iff.2 ⟨xs, h⟩]

/-- The arbiter of a state is the one that it was given, or the standard one. -/
theorem arbiter?_of_settles (h : Settles net entries xs) {policy : Policy}
    (hpolicy : resolve net entries = .ok policy) (aid : AutomatonId) (sid : StateId) :
    policy.arbiter? aid sid = (xs.lookup (aid, sid)).or (standard? net (aid, sid)) := by
  have hdraft : entryDraft net entries = ⟨xs, []⟩ :=
    foldl_addEntry_eq_iff.2 ⟨rfl, xs, h.settled, h.keys, fun _ _ => rfl, rfl⟩
  have hpolicy := resolve_eq_ok_iff.1 hpolicy
  rw [draft_eq, hdraft] at hpolicy
  have harbiters : policy.arbiters = ((places net).foldl addPlace ⟨xs, []⟩).arbiters := by
    rw [hpolicy]
  rw [arbiter?, harbiters, lookup_foldl_addPlace fun x hx => hx]
  congr 1
  by_cases hmem : (aid, sid) ∈ (places net).map Place.key
  · rw [if_pos hmem]
  · -- what is not a state of the network has no transitions
    rw [if_neg hmem, standard?, if_neg]
    intro hone
    have hne : net.outgoing (aid, sid) ≠ [] := List.ne_nil_of_length_pos (by omega)
    rcases exists_place hne with ⟨x, hx, hkey⟩
    exact hmem (List.mem_map.2 ⟨x, hx, hkey⟩)

/-- The order of the entries does not matter. -/
theorem Settles.perm (h : Settles net entries xs) {others : List ArbitrationEntry}
    (hperm : others.Perm entries) : ∃ ys, Settles net others ys ∧ ys.Perm xs := by
  -- what an entry settles depends on the entry only
  rcases List.perm_comp_forall₂ hperm h.settled with ⟨ys, hsettled, hys⟩
  have hkeys := hys.map Prod.fst
  refine ⟨ys, ⟨hsettled, hkeys.nodup_iff.2 h.keys, ?_⟩, hys⟩
  intro k hk
  exact hkeys.mem_iff.2 (h.covers k hk)

end Policy
end TimedAutomata
