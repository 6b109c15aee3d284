import Mathlib.Data.List.Range
import TimedAutomata.Proofs.Policy.Settlement
import TimedAutomata.Proofs.Topology.Unmatched

/-!
# Which configurations are accepted

The faults of an entry hide one another: an assignment without its rank leaves its ordinal free, and
a faulty entry leaves its state free for a later one. Still an entry settles its state exactly if it
is faultless on its own, and a configuration is accepted exactly if all its entries are faultless,
are about different states, and leave out no state that needs one.

* `ArbitrationEntry.Faultless`, `ArbitrationEntry.Assigns`: an entry by itself, and its classes
* `foldl_assign_eq_iff`: the assignments that go through without a fault
* `complete_of_slots`, `slots_of_complete`: so do exactly those of complete entries
* `settled?_eq_some_iff_faultless`: faultless entries settle their states, and no others
* `settles_iff_accepted`: the configurations that are accepted
* `entryDraft_cases`: what the entries of any configuration settle
* `resolve_accepts_exactly`: acceptance, arbiters, and states reported as missing an entry
-/

namespace TimedAutomata

/-! ## Entries by themselves -/

namespace ArbitrationEntry

/-- What an entry is about, by name. -/
def subject (e : ArbitrationEntry) : String × String :=
  (e.automaton, e.state)

/-- The entry is about a state of the network. -/
def Names (e : ArbitrationEntry) (net : Network) (k : StateKey) : Prop :=
  ∃ a ∈ net[k.1]?, a.label = e.automaton ∧ a.stateId? e.state = some k.2

instance (e : ArbitrationEntry) (net : Network) (k : StateKey) : Decidable (e.Names net k) :=
  inferInstanceAs (Decidable (∃ a ∈ net[k.1]?, _))

/-- The entry assigns each of `n` ordinals once and no other, and gives a rank to what it ranks. -/
def Complete (e : ArbitrationEntry) (n : Nat) : Prop :=
  (e.assignments.map Assignment.ordinal).Perm (List.range n) ∧
    ∀ x ∈ e.assignments, x.className = .ranked → x.rank ≠ none

instance (e : ArbitrationEntry) (n : Nat) : Decidable (e.Complete n) :=
  inferInstanceAs (Decidable (_ ∧ _))

/-- Nothing is wrong with the entry, as one for the state `k`. -/
def Faultless (e : ArbitrationEntry) (net : Network) (k : StateKey) : Prop :=
  e.Names net k ∧ e.Complete (net.outgoing k).length

instance (e : ArbitrationEntry) (net : Network) (k : StateKey) : Decidable (e.Faultless net k) :=
  inferInstanceAs (Decidable (_ ∧ _))

/-- The classes are those that the entry assigns to their ordinals. -/
def Assigns (e : ArbitrationEntry) (classes : List PriorityClass) : Prop :=
  ∀ x ∈ e.assignments, ∃ c, Policy.assignedClass? x = some c ∧ classes[x.ordinal]? = some c

/-- A complete entry leaves no choice. -/
theorem Assigns.unique {e : ArbitrationEntry} {cs ds : List PriorityClass}
    (hcomplete : e.Complete cs.length) (hlength : ds.length = cs.length) (hcs : e.Assigns cs)
    (hds : e.Assigns ds) : cs = ds := by
  apply List.ext_getElem?
  intro i
  by_cases hi : i < cs.length
  · have hmem : i ∈ e.assignments.map Assignment.ordinal :=
      hcomplete.1.mem_iff.2 (List.mem_range.2 hi)
    rcases List.mem_map.1 hmem with ⟨x, hx, rfl⟩
    rcases hcs x hx with ⟨c, hc, hget⟩
    rcases hds x hx with ⟨d, hd, hget'⟩
    rw [hget, hget', ← hc, ← hd]
  · rw [List.getElem?_eq_none (by omega), List.getElem?_eq_none (by omega)]

end ArbitrationEntry

namespace Policy

variable {net : Network} {entries : List ArbitrationEntry} {entry : ArbitrationEntry}

theorem assignedClass?_ne_none_iff {x : Assignment} :
    assignedClass? x ≠ none ↔ (x.className = .ranked → x.rank ≠ none) := by
  unfold assignedClass?
  cases x.className <;> simp

/-- An assignment goes through without a fault exactly if its ordinal is free and its class is
known. -/
theorem assign_eq_iff {s : Slots} {x : Assignment} {cs : List (Option PriorityClass)} :
    assign entry s x = ⟨cs, []⟩ ↔ s.faults = [] ∧ s.classes[x.ordinal]? = some none ∧
      assignedClass? x ≠ none ∧ cs = s.classes.set x.ordinal (assignedClass? x) := by
  unfold assign
  cases hslot : s.classes[x.ordinal]? with
  | none => simp
  | some slot =>
    cases slot with
    | some c => simp
    | none =>
      cases hclass : assignedClass? x with
      | none => simp
      | some c => simp [and_comm, @eq_comm _ cs]

/-- The classes with those of some assignments filled in. -/
def fill (cs : List (Option PriorityClass)) (xs : List Assignment) : List (Option PriorityClass) :=
  xs.foldl (fun cs x => cs.set x.ordinal (assignedClass? x)) cs

theorem getElem?_fill_of_not_mem {cs : List (Option PriorityClass)} {xs : List Assignment} {i : Nat}
    (hi : i ∉ xs.map Assignment.ordinal) : (fill cs xs)[i]? = cs[i]? := by
  unfold fill
  induction xs generalizing cs with
  | nil => rfl
  | cons x xs ih =>
    rw [List.map_cons, List.mem_cons, not_or] at hi
    rw [List.foldl_cons, ih hi.2, List.getElem?_set_ne (Ne.symm hi.1)]

theorem getElem?_fill {cs : List (Option PriorityClass)} {xs : List Assignment}
    (hxs : (xs.map Assignment.ordinal).Nodup) {x : Assignment} (hx : x ∈ xs)
    (hlt : x.ordinal < cs.length) : (fill cs xs)[x.ordinal]? = some (assignedClass? x) := by
  induction xs generalizing cs with
  | nil => cases hx
  | cons y ys ih =>
    rw [List.map_cons, List.nodup_cons] at hxs
    change (fill (cs.set y.ordinal (assignedClass? y)) ys)[x.ordinal]? = _
    rcases List.mem_cons.1 hx with rfl | hlater
    · rw [getElem?_fill_of_not_mem hxs.1, List.getElem?_set_self hlt]
    · exact ih hxs.2 hlater (by rwa [List.length_set])

/-- Assignments go through without a fault exactly if they are for different ordinals, all of them
free, and their classes are known. -/
theorem foldl_assign_eq_iff {s : Slots} {xs : List Assignment}
    {cs : List (Option PriorityClass)} :
    xs.foldl (assign entry) s = ⟨cs, []⟩ ↔ s.faults = [] ∧ (xs.map Assignment.ordinal).Nodup ∧
      (∀ x ∈ xs, s.classes[x.ordinal]? = some none ∧ assignedClass? x ≠ none) ∧
      cs = fill s.classes xs := by
  induction xs generalizing s with
  | nil =>
    rcases s with ⟨classes, faults⟩
    simp [fill, and_comm, @eq_comm _ cs]
  | cons x xs ih =>
    rw [List.foldl_cons, ih, List.map_cons, List.nodup_cons, List.forall_mem_cons]
    constructor
    · rintro ⟨hfaults, hnodup, hfree, rfl⟩
      have hstep : assign entry s x = ⟨(assign entry s x).classes, []⟩ := by rw [← hfaults]
      rcases assign_eq_iff.1 hstep with ⟨hs, hslot, hclass, hclasses⟩
      have hlt : x.ordinal < s.classes.length := (List.getElem?_eq_some_iff.1 hslot).1
      rw [hclasses] at hfree ⊢
      -- the ordinal just taken is not free, so no later assignment is for it
      have hne : ∀ y ∈ xs, x.ordinal ≠ y.ordinal := by
        intro y hy heq
        have hfreed := (hfree y hy).1
        rw [← heq, List.getElem?_set_self hlt] at hfreed
        exact hclass (Option.some.inj hfreed)
      refine ⟨hs, ⟨?_, hnodup⟩, ⟨⟨hslot, hclass⟩, ?_⟩, rfl⟩
      · intro hmem
        rcases List.mem_map.1 hmem with ⟨y, hy, heq⟩
        exact hne y hy heq.symm
      · intro y hy
        have hfreed := hfree y hy
        rwa [List.getElem?_set_ne (hne y hy)] at hfreed
    · rintro ⟨hs, ⟨hnew, hnodup⟩, ⟨⟨hslot, hclass⟩, hfree⟩, rfl⟩
      have hstep : assign entry s x = ⟨s.classes.set x.ordinal (assignedClass? x), []⟩ :=
        assign_eq_iff.2 ⟨hs, hslot, hclass, rfl⟩
      rw [hstep]
      refine ⟨rfl, hnodup, ?_, rfl⟩
      intro y hy
      have hne : x.ordinal ≠ y.ordinal := by
        intro heq
        exact hnew (List.mem_map.2 ⟨y, hy, heq.symm⟩)
      rw [List.getElem?_set_ne hne]
      exact hfree y hy

theorem slots_eq_iff {n : Nat} {cs : List (Option PriorityClass)} :
    slots entry n = ⟨cs, []⟩ ↔
      entry.assignments.foldl (assign entry) ⟨List.replicate n none, []⟩ = ⟨cs, []⟩ ∧
        none ∉ cs := by
  unfold slots
  cases entry.assignments.foldl (assign entry) ⟨List.replicate n none, []⟩ with
  | mk classes faults =>
    simp only [Slots.mk.injEq, List.append_eq_nil_iff, List.filterMap_eq_nil_iff]
    constructor
    · rintro ⟨rfl, rfl, hmissing⟩
      refine ⟨⟨rfl, rfl⟩, ?_⟩
      intro hmem
      rcases List.mem_iff_getElem?.1 hmem with ⟨i, hi⟩
      simpa using hmissing (none, i) (List.mk_mem_zipIdx_iff_getElem?.2 hi)
    · rintro ⟨⟨rfl, rfl⟩, hmissing⟩
      refine ⟨rfl, rfl, ?_⟩
      rintro ⟨c, i⟩ hmem
      cases c with
      | none => exact absurd (List.fst_mem_of_mem_zipIdx hmem) hmissing
      | some c => rfl

theorem getElem?_replicate_eq_iff {n i : Nat} :
    (List.replicate n (none : Option PriorityClass))[i]? = some none ↔ i < n := by
  simp [List.getElem?_replicate]

/-- An entry without faults of its own is complete. -/
theorem complete_of_slots {n : Nat} (h : (slots entry n).faults = []) : entry.Complete n := by
  have hslots : slots entry n = ⟨(slots entry n).classes, []⟩ := by rw [← h]
  rcases slots_eq_iff.1 hslots with ⟨hfold, hall⟩
  rcases foldl_assign_eq_iff.1 hfold with ⟨-, hnodup, hassigned, hclasses⟩
  rw [hclasses] at hall
  simp only [getElem?_replicate_eq_iff] at hassigned
  refine ⟨(List.perm_ext_iff_of_nodup hnodup List.nodup_range).2 fun i => ?_, ?_⟩
  · rw [List.mem_range]
    constructor
    · intro hi
      rcases List.mem_map.1 hi with ⟨x, hx, rfl⟩
      exact (hassigned x hx).1
    · -- an ordinal that is left out keeps its place without a class
      intro hi
      by_contra hout
      have hget : (fill (List.replicate n none) entry.assignments)[i]? = some none := by
        rw [getElem?_fill_of_not_mem hout, getElem?_replicate_eq_iff.2 hi]
      exact hall (List.mem_of_getElem? hget)
  · intro x hx
    exact assignedClass?_ne_none_iff.1 (hassigned x hx).2

/-- A complete entry fills all places, without faults. -/
theorem slots_of_complete {n : Nat} (h : entry.Complete n) :
    slots entry n = ⟨fill (List.replicate n none) entry.assignments, []⟩ ∧
      ∀ x ∈ entry.assignments, (slots entry n).classes[x.ordinal]? = some (assignedClass? x) := by
  rcases h with ⟨hordinals, hranks⟩
  have hnodup := hordinals.nodup_iff.2 List.nodup_range
  have hclass : ∀ x ∈ entry.assignments, assignedClass? x ≠ none := fun x hx =>
    assignedClass?_ne_none_iff.2 (hranks x hx)
  have hlt : ∀ x ∈ entry.assignments, x.ordinal < n := fun x hx =>
    List.mem_range.1 (hordinals.mem_iff.1 (List.mem_map_of_mem hx))
  have hfilled : ∀ x ∈ entry.assignments,
      (fill (List.replicate n none) entry.assignments)[x.ordinal]? = some (assignedClass? x) :=
    fun x hx => getElem?_fill hnodup hx (by simpa using hlt x hx)
  have hfold : entry.assignments.foldl (assign entry) ⟨List.replicate n none, []⟩ =
      ⟨fill (List.replicate n none) entry.assignments, []⟩ :=
    foldl_assign_eq_iff.2
      ⟨rfl, hnodup, fun x hx => ⟨getElem?_replicate_eq_iff.2 (hlt x hx), hclass x hx⟩, rfl⟩
  have hall : none ∉ fill (List.replicate n none) entry.assignments := by
    intro hmem
    rcases List.mem_iff_getElem?.1 hmem with ⟨i, hi⟩
    by_cases hin : i ∈ entry.assignments.map Assignment.ordinal
    · rcases List.mem_map.1 hin with ⟨x, hx, rfl⟩
      rw [hfilled x hx] at hi
      exact hclass x hx (Option.some.inj hi)
    · rw [getElem?_fill_of_not_mem hin, getElem?_replicate_eq_iff, ← List.mem_range,
        ← hordinals.mem_iff] at hi
      exact hin hi
  have hslots := slots_eq_iff.2 ⟨hfold, hall⟩
  refine ⟨hslots, ?_⟩
  rw [hslots]
  exact hfilled

theorem faults_slots_iff {n : Nat} : (slots entry n).faults = [] ↔ entry.Complete n := by
  constructor
  · exact complete_of_slots
  · intro h
    rw [(slots_of_complete h).1]

/-- The classes of a complete entry are those that it assigns. -/
theorem assigns_of_complete {n : Nat} (h : entry.Complete n) :
    entry.Assigns ((slots entry n).classes.filterMap id) := by
  rcases slots_of_complete h with ⟨hslots, hfilled⟩
  have hall := (slots_eq_iff.1 hslots).2
  have hsome : ((slots entry n).classes.filterMap id).map some = (slots entry n).classes := by
    rw [List.map_filterMap]
    refine (List.filterMap_congr ?_).trans List.filterMap_some
    intro c hc
    rw [hslots] at hc
    cases c with
    | none => exact absurd hc hall
    | some c => rfl
  intro x hx
  have hget := hfilled x hx
  rw [← hsome, List.getElem?_map, Option.map_eq_some_iff] at hget
  rcases hget with ⟨c, hc, hclass⟩
  exact ⟨c, hclass.symm, hc⟩

/-! ## Entries for a network -/

section Labelled

variable (hlabels : (net.map Automaton.label).Nodup)
include hlabels

/-- Entries that name the same are about the same state. -/
theorem key_eq_of_subject_eq {e f : ArbitrationEntry} {k l : StateKey} (he : e.Names net k)
    (hf : f.Names net l) (h : e.subject = f.subject) : k = l := by
  rcases he with ⟨a, ha, hlabel, hstate⟩
  rcases hf with ⟨b, hb, hlabel', hstate'⟩
  rcases Prod.mk.inj h with ⟨hautomaton, hname⟩
  have hindex := Network.index_eq_of_label_eq hlabels ha hb
    (hlabel.trans (hautomaton.trans hlabel'.symm))
  obtain rfl : a = b := by simpa [Option.mem_def.1 ha, ← hindex] using hb
  rw [hname, hstate'] at hstate
  exact Prod.ext hindex (Option.some.inj hstate).symm

/-- Where every state has one name in the index, entries about the same state name the same. -/
theorem subject_eq_iff (hindexed : ∀ a ∈ net, a.Indexed) {e f : ArbitrationEntry} {k l : StateKey}
    (he : e.Names net k) (hf : f.Names net l) : e.subject = f.subject ↔ k = l := by
  refine ⟨key_eq_of_subject_eq hlabels he hf, ?_⟩
  rintro rfl
  rcases he with ⟨a, ha, hlabel, hstate⟩
  rcases hf with ⟨b, hb, hlabel', hstate'⟩
  obtain rfl : a = b := Option.mem_unique ha hb
  have ha := hindexed a (List.mem_of_getElem? ha)
  have hname := (ha.stateName?_of_stateId? hstate).symm.trans (ha.stateName?_of_stateId? hstate')
  exact Prod.ext (hlabel.symm.trans hlabel') (Option.some.inj hname)

/-- An entry settles its state exactly if it is faultless, with the classes it assigns. -/
theorem settled?_eq_some_iff_faultless {k : StateKey} {arbiter : Arbiter} :
    settled? net entry = some (k, arbiter) ↔ entry.Faultless net k ∧
      arbiter.classes.length = (net.outgoing k).length ∧ entry.Assigns arbiter.classes := by
  rw [settled?_eq_some_iff]
  constructor
  · rintro ⟨a, aid, sid, hfound, hstate, hfaults, hx⟩
    obtain ⟨rfl, rfl⟩ := Prod.mk.inj hx
    rcases (firstWithLabel?_eq_some_iff hlabels).1 hfound with ⟨ha, hlabel⟩
    have hout : net.outgoing (aid, sid) = a.outgoing sid := by simp [Network.outgoing, ha]
    have hcomplete := complete_of_slots hfaults
    refine ⟨⟨⟨a, ha, hlabel, hstate⟩, ?_⟩, ?_, assigns_of_complete hcomplete⟩
    · rw [hout]
      exact hcomplete
    · rw [hout]
      exact slots_complete hfaults
  · rintro ⟨⟨⟨a, ha, hlabel, hstate⟩, hcomplete⟩, hlength, hassigns⟩
    have hout : net.outgoing k = a.outgoing k.2 := by simp [Network.outgoing, Option.mem_def.1 ha]
    rw [hout] at hcomplete hlength
    have hfaults := faults_slots_iff.2 hcomplete
    refine ⟨a, k.1, k.2, (firstWithLabel?_eq_some_iff hlabels).2 ⟨ha, hlabel⟩, hstate, hfaults, ?_⟩
    -- the entry is complete, so its classes are those that were found
    have hclasses : arbiter.classes = (slots entry (a.outgoing k.2).length).classes.filterMap id :=
      ArbitrationEntry.Assigns.unique (hlength ▸ hcomplete)
        ((slots_complete hfaults).trans hlength.symm) hassigns (assigns_of_complete hcomplete)
    rw [← hclasses]

theorem exists_settled?_iff {k : StateKey} :
    (∃ arbiter, settled? net entry = some (k, arbiter)) ↔ entry.Faultless net k := by
  constructor
  · rintro ⟨arbiter, h⟩
    exact ((settled?_eq_some_iff_faultless hlabels).1 h).1
  · intro h
    have hfaults := faults_slots_iff.2 h.2
    exact ⟨⟨_⟩, (settled?_eq_some_iff_faultless hlabels).2
      ⟨h, slots_complete hfaults, assigns_of_complete h.2⟩⟩

/-- The order of the assignments does not matter. -/
theorem settled?_congr {e f : ArbitrationEntry} (hsubject : e.subject = f.subject)
    (hperm : e.assignments.Perm f.assignments) : settled? net e = settled? net f := by
  rcases Prod.mk.inj hsubject with ⟨hautomaton, hstate⟩
  apply Option.ext
  rintro ⟨k, arbiter⟩
  rw [settled?_eq_some_iff_faultless hlabels, settled?_eq_some_iff_faultless hlabels]
  simp only [ArbitrationEntry.Faultless, ArbitrationEntry.Names, ArbitrationEntry.Complete,
    ArbitrationEntry.Assigns, hautomaton, hstate, hperm.mem_iff,
    (hperm.map Assignment.ordinal).congr_left]

/-- Entries that all settle states are about different states exactly if the states are
different. -/
theorem nodup_subjects_iff (hindexed : ∀ a ∈ net, a.Indexed) {xs : List (StateKey × Arbiter)}
    (h : List.Forall₂ (fun e x => settled? net e = some x) entries xs) :
    (entries.map ArbitrationEntry.subject).Nodup ↔ (xs.map Prod.fst).Nodup := by
  have hnames : ∀ {e x}, settled? net e = some x → e.Names net x.1 := fun hx =>
    ((settled?_eq_some_iff_faultless hlabels).1 hx).1.1
  induction h with
  | nil => simp
  | @cons e x entries xs hx hrest ih =>
    have hmem : e.subject ∈ entries.map ArbitrationEntry.subject ↔ x.1 ∈ xs.map Prod.fst := by
      rw [List.mem_map, List.mem_map]
      constructor
      · rintro ⟨f, hf, heq⟩
        rcases Fallible.exists_of_mem_left hrest hf with ⟨y, hy, hfy⟩
        exact ⟨y, hy, (subject_eq_iff hlabels hindexed (hnames hfy) (hnames hx)).1 heq⟩
      · rintro ⟨y, hy, heq⟩
        rcases Fallible.exists_of_mem_right hrest hy with ⟨f, hf, hfy⟩
        exact ⟨f, hf, (subject_eq_iff hlabels hindexed (hnames hfy) (hnames hx)).2 heq⟩
    rw [List.map_cons, List.map_cons, List.nodup_cons, List.nodup_cons]
    exact and_congr (not_congr hmem) ih

end Labelled

/-! ## Configurations -/

/-- The configurations that a network accepts. -/
structure Accepted (net : Network) (entries : List ArbitrationEntry) : Prop where
  /-- Every entry is about a state, and complete. -/
  faultless : ∀ e ∈ entries, ∃ k, e.Faultless net k
  /-- No two entries are about the same state. -/
  different : (entries.map ArbitrationEntry.subject).Nodup
  /-- Every state with several transitions has an entry. -/
  covered : ∀ k, 2 ≤ (net.outgoing k).length → ∃ e ∈ entries, e.Names net k

theorem settles_iff_accepted (hlabels : (net.map Automaton.label).Nodup)
    (hindexed : ∀ a ∈ net, a.Indexed) :
    (∃ xs, Settles net entries xs) ↔ Accepted net entries := by
  constructor
  · rintro ⟨xs, h⟩
    refine ⟨?_, (nodup_subjects_iff hlabels hindexed h.settled).2 h.keys, ?_⟩
    · intro e he
      rcases Fallible.exists_of_mem_left h.settled he with ⟨x, -, hx⟩
      exact ⟨x.1, ((settled?_eq_some_iff_faultless hlabels).1 hx).1⟩
    · intro k hk
      rcases List.mem_map.1 (h.covers k hk) with ⟨x, hx, rfl⟩
      rcases Fallible.exists_of_mem_right h.settled hx with ⟨e, he, hsettled⟩
      exact ⟨e, he, ((settled?_eq_some_iff_faultless hlabels).1 hsettled).1.1⟩
  · intro h
    have hsettled : ∀ e ∈ entries, ∃ x, settled? net e = some x := by
      intro e he
      rcases h.faultless e he with ⟨k, hk⟩
      rcases (exists_settled?_iff hlabels).2 hk with ⟨arbiter, harbiter⟩
      exact ⟨(k, arbiter), harbiter⟩
    rcases Fallible.exists_forall₂ hsettled with ⟨xs, hxs⟩
    refine ⟨xs, hxs, (nodup_subjects_iff hlabels hindexed hxs).1 h.different, ?_⟩
    intro k hk
    -- the entry that names `k` settles `k`, and no other state
    rcases h.covered k hk with ⟨e, he, hnames⟩
    rcases Fallible.exists_of_mem_left hxs he with ⟨x, hx, hsettled⟩
    have hfaultless := ((settled?_eq_some_iff_faultless hlabels).1 hsettled).1
    rw [key_eq_of_subject_eq hlabels hnames hfaultless.1 rfl]
    exact List.mem_map_of_mem hx

/-! ## Missing entries -/

/-- The fault is that a state has no entry. -/
def Fault.isMissing : Fault → Bool
  | .missingArbitration .. => true
  | _ => false

theorem filter_faults_assign (entry : ArbitrationEntry) (s : Slots) (x : Assignment) :
    (assign entry s x).faults.filter Fault.isMissing = s.faults.filter Fault.isMissing := by
  unfold assign
  cases s.classes[x.ordinal]? with
  | none => simp [Fault.isMissing]
  | some slot =>
    cases slot with
    | some c => simp [Fault.isMissing]
    | none => cases assignedClass? x <;> simp [Fault.isMissing]

theorem filter_faults_slots (entry : ArbitrationEntry) (n : Nat) :
    (slots entry n).faults.filter Fault.isMissing = [] := by
  have hassigned : ∀ (xs : List Assignment) (s : Slots),
      (xs.foldl (assign entry) s).faults.filter Fault.isMissing =
        s.faults.filter Fault.isMissing := by
    intro xs
    induction xs with
    | nil => exact fun s => rfl
    | cons x xs ih => exact fun s => (ih _).trans (filter_faults_assign entry s x)
  rw [slots, List.filter_append, hassigned, List.filter_nil, List.nil_append,
    List.filter_eq_nil_iff]
  intro f hf
  rcases List.mem_filterMap.1 hf with ⟨⟨c, i⟩, -, hc⟩
  cases c with
  | none => simp [← Option.some.inj hc, Fault.isMissing]
  | some c => cases hc

theorem filter_faults_addEntry (net : Network) (d : Draft) (e : ArbitrationEntry) :
    (addEntry net d e).faults.filter Fault.isMissing = d.faults.filter Fault.isMissing := by
  unfold addEntry
  cases firstWithLabel? net e.automaton with
  | none => simp [Draft.fault, Fault.isMissing]
  | some found =>
    rcases found with ⟨a, aid⟩
    simp only
    cases a.stateId? e.state with
    | none => simp [Draft.fault, Fault.isMissing]
    | some sid =>
      have hslots := filter_faults_slots e (a.outgoing sid).length
      simp only
      split
      · simp [Draft.fault, Fault.isMissing]
      · split
        · rfl
        · rw [List.filter_append, hslots, List.append_nil]

/-- An entry adds the arbiter of the state that it settles, unless there is one. -/
theorem arbiters_addEntry (net : Network) (d : Draft) (e : ArbitrationEntry) :
    (addEntry net d e).arbiters =
      d.arbiters ++ (settled? net e).toList.filter fun x => !d.has x.1 := by
  unfold addEntry settled?
  cases firstWithLabel? net e.automaton with
  | none => simp [Draft.fault]
  | some found =>
    rcases found with ⟨a, aid⟩
    simp only
    cases a.stateId? e.state with
    | none => simp [Draft.fault]
    | some sid =>
      simp only
      -- a state that is settled stays as it is, whether the entry has faults or not
      by_cases hhas : d.has (aid, sid) = true
      · split <;> simp [hhas, Draft.fault]
      · cases hfaults : (slots e (a.outgoing sid).length).faults with
        | nil => simp [hhas, Draft.settle]
        | cons f fs => simp [hhas]

theorem has_addEntry {d : Draft} {e : ArbitrationEntry} {k : StateKey} :
    (addEntry net d e).has k = true ↔
      d.has k = true ∨ ∃ arbiter, settled? net e = some (k, arbiter) := by
  have hadded : k ∈ ((settled? net e).toList.filter fun x => !d.has x.1).map Prod.fst ↔
      d.has k = false ∧ ∃ arbiter, settled? net e = some (k, arbiter) := by
    simp [and_comm]
  rw [Draft.has, lookup_isSome_iff, arbiters_addEntry, List.map_append, List.mem_append, hadded,
    ← lookup_isSome_iff, ← Draft.has]
  cases d.has k <;> simp

/-- The entries report no missing one, and settle the states for which one of them is faultless. -/
theorem entryDraft_cases (hlabels : (net.map Automaton.label).Nodup)
    (entries : List ArbitrationEntry) :
    (entryDraft net entries).faults.filter Fault.isMissing = [] ∧
      ∀ k, (entryDraft net entries).has k = true ↔ ∃ e ∈ entries, e.Faultless net k := by
  unfold entryDraft
  -- entries are added at the end
  induction entries using List.reverseRecOn with
  | nil => simp [Draft.has]
  | append_singleton entries e ih =>
    rw [List.foldl_append, List.foldl_cons, List.foldl_nil]
    refine ⟨(filter_faults_addEntry net _ e).trans ih.1, ?_⟩
    intro k
    rw [has_addEntry, ih.2, exists_settled?_iff hlabels]
    simp [or_and_right, exists_or]

/-- The states reported as missing an entry are those that need one and have no faultless one. -/
theorem filter_faults_of_resolve (hlabels : (net.map Automaton.label).Nodup) {faults : List Fault}
    (h : resolve net entries = .error faults) :
    faults.filter Fault.isMissing = ((places net).filter fun x =>
      2 ≤ x.2.1.outgoing.length ∧ ∀ e ∈ entries, ¬ e.Faultless net x.key).map Place.missing := by
  have hfaults : faults = (draft net entries).faults := by
    unfold resolve at h
    simp only at h
    split at h
    · cases h
    · exact (Except.error.inj h).symm
  rcases entryDraft_cases hlabels entries with ⟨hentries, hhas⟩
  have hmissing : ∀ xs : List Place,
      (xs.map Place.missing).filter Fault.isMissing = xs.map Place.missing := by
    intro xs
    rw [List.filter_eq_self]
    intro f hf
    rcases List.mem_map.1 hf with ⟨x, -, rfl⟩
    rfl
  rw [hfaults, faults_draft, List.filter_append, hentries, List.nil_append, hmissing]
  congr 1
  refine List.filter_congr fun x _ => ?_
  rw [decide_eq_decide, ← Bool.not_eq_true, hhas]
  simp

/-- Entries for the same states that assign the same, in any order. -/
def Rearranges (others entries : List ArbitrationEntry) : Prop :=
  ∃ es, es.Perm entries ∧ List.Forall₂ (fun e f => e.subject = f.subject ∧
    e.assignments.Perm f.assignments) es others

/-- The order of the entries, and of the assignments in them, does not matter. -/
theorem resolve_rearranged (hlabels : (net.map Automaton.label).Nodup) {policy : Policy}
    (h : resolve net entries = .ok policy) {others : List ArbitrationEntry}
    (hothers : Rearranges others entries) :
    ∃ policy', resolve net others = .ok policy' ∧
      ∀ aid sid, policy'.arbiter? aid sid = policy.arbiter? aid sid := by
  rcases settles_of_resolve h with ⟨xs, hxs⟩
  rcases hothers with ⟨es, hperm, hes⟩
  rcases hxs.perm hperm with ⟨ys, hys, hyxs⟩
  have hsettled : List.Forall₂ (fun e x => settled? net e = some x) others ys := by
    have hcomp := Fallible.forall₂_comp_iff.2 ⟨es, hes.flip, hys.settled⟩
    refine hcomp.imp ?_
    rintro f x ⟨e, ⟨hsubject, hassignments⟩, hx⟩
    rw [← settled?_congr hlabels hsubject hassignments, hx]
  have hothers : Settles net others ys := ⟨hsettled, hys.keys, hys.covers⟩
  rcases resolve_of_settles hothers with ⟨policy', hpolicy'⟩
  refine ⟨policy', hpolicy', ?_⟩
  intro aid sid
  rw [arbiter?_of_settles hothers hpolicy', arbiter?_of_settles hxs h, lookup_perm hyxs hys.keys]

/-- The arbiters of a policy, from the entries. -/
structure Arbitrates (policy : Policy) (net : Network) (entries : List ArbitrationEntry) :
    Prop where
  /-- An entry gives its state the classes that it assigns. -/
  entered : ∀ e ∈ entries, ∀ k, e.Names net k → ∃ classes,
    classes.length = (net.outgoing k).length ∧ e.Assigns classes ∧
      policy.arbiter? k.1 k.2 = some ⟨classes⟩
  /-- A single transition needs no entry. -/
  single : ∀ k, (∀ e ∈ entries, ¬ e.Names net k) → (net.outgoing k).length = 1 →
    policy.arbiter? k.1 k.2 = some ⟨[.default]⟩
  /-- Without transitions and without an entry there is no arbiter. -/
  absent : ∀ k, (∀ e ∈ entries, ¬ e.Names net k) → net.outgoing k = [] →
    policy.arbiter? k.1 k.2 = none

theorem arbitrates_of_resolve (hlabels : (net.map Automaton.label).Nodup) {policy : Policy}
    (h : resolve net entries = .ok policy) : policy.Arbitrates net entries := by
  rcases settles_of_resolve h with ⟨xs, hxs⟩
  have harbiter : ∀ k : StateKey, policy.arbiter? k.1 k.2 = (xs.lookup k).or (standard? net k) :=
    fun k => arbiter?_of_settles hxs h k.1 k.2
  -- a state without an entry is not settled
  have hstandard : ∀ k : StateKey, (∀ e ∈ entries, ¬ e.Names net k) →
      policy.arbiter? k.1 k.2 = standard? net k := by
    intro k hnone
    have hlookup : xs.lookup k = none := by
      rw [lookup_eq_none_iff]
      intro hmem
      rcases List.mem_map.1 hmem with ⟨x, hx, rfl⟩
      rcases Fallible.exists_of_mem_right hxs.settled hx with ⟨e, he, hsettled⟩
      exact hnone e he ((settled?_eq_some_iff_faultless hlabels).1 hsettled).1.1
    rw [harbiter, hlookup, Option.none_or]
  refine ⟨?_, ?_, ?_⟩
  · intro e he k hnames
    rcases Fallible.exists_of_mem_left hxs.settled he with ⟨⟨l, arbiter⟩, hx, hsettled⟩
    rcases (settled?_eq_some_iff_faultless hlabels).1 hsettled with ⟨hfaultless, hlength, hassigns⟩
    obtain rfl : k = l := key_eq_of_subject_eq hlabels hnames hfaultless.1 rfl
    refine ⟨arbiter.classes, hlength, hassigns, ?_⟩
    rw [harbiter, (lookup_eq_some_iff_mem hxs.keys).2 hx, Option.some_or]
  · intro k hnone hone
    rw [hstandard k hnone, standard?, if_pos hone]
  · intro k hnone hout
    rw [hstandard k hnone, standard?, hout]
    rfl

/-- A configuration is accepted exactly if its entries are faultless, are about different states
and leave out none that needs one. The arbiters are then those of the entries, whatever their
order, and the standard ones. Otherwise the states reported as missing an entry are those with
several transitions and no faultless entry. The labels of the automata are different and their
indexes agree with their states, as in every network that is read. -/
theorem resolve_accepts_exactly {net : Network} (hlabels : (net.map Automaton.label).Nodup)
    (hindexed : ∀ a ∈ net, a.Indexed) (entries : List ArbitrationEntry) :
    ((∃ policy, resolve net entries = .ok policy) ↔ Accepted net entries) ∧
    (∀ policy, resolve net entries = .ok policy → policy.Arbitrates net entries ∧
      ∀ others, Rearranges others entries → ∃ policy', resolve net others = .ok policy' ∧
        ∀ aid sid, policy'.arbiter? aid sid = policy.arbiter? aid sid) ∧
    ∀ faults, resolve net entries = .error faults →
      faults.filter Fault.isMissing = ((places net).filter fun x => 2 ≤ x.2.1.outgoing.length ∧
        ∀ e ∈ entries, ¬ e.Faultless net x.key).map Place.missing := by
  refine ⟨?_, ?_, ?_⟩
  · rw [← settles_iff_accepted hlabels hindexed]
    constructor
    · rintro ⟨policy, h⟩
      exact settles_of_resolve h
    · rintro ⟨xs, h⟩
      exact resolve_of_settles h
  · intro policy h
    exact ⟨arbitrates_of_resolve hlabels h, fun others => resolve_rearranged hlabels h⟩
  · intro faults h
    exact filter_faults_of_resolve hlabels h

/-- Entries and assignments out of order, one of them for an end state; and faults that hide one
another: an ordinal is assigned again because it lacks a rank at first, and a state is settled by
the second of three entries. -/
theorem resolve_accepts_exactly_masked_faults :
    ∃ net sound masked policy faults,
      Network.read "Cta A=Init s;s B!m()s;s B!n()t;t B!m()e;Cta B=Init s;s A?m()s;s A?n()s;" =
        .ok net ∧ (net.map Automaton.label).Nodup ∧ (∀ a ∈ net, a.Indexed) ∧
      sound = [⟨"B", "s", [⟨1, .default, none⟩, ⟨0, .ranked, some 3⟩]⟩, ⟨"A", "e", []⟩,
        ⟨"A", "s", [⟨0, .exclusive, some 7⟩, ⟨1, .default, none⟩]⟩] ∧
      resolve net sound = .ok policy ∧ policy.Arbitrates net sound ∧
      policy.arbiter? 1 0 = some ⟨[.ranked 3, .default]⟩ ∧
      masked = [⟨"A", "s", [⟨0, .ranked, none⟩, ⟨0, .default, none⟩, ⟨1, .default, none⟩]⟩,
        ⟨"A", "s", [⟨1, .default, none⟩, ⟨0, .exclusive, none⟩]⟩, ⟨"A", "s", []⟩,
        ⟨"B", "s", [⟨0, .default, none⟩]⟩] ∧
      resolve net masked = .error faults ∧ ¬ Accepted net masked ∧
      faults.filter Fault.isMissing = [.missingArbitration "B" "s" 2 ⟨53, 61⟩] := by
  obtain ⟨sound, hsound⟩ : ∃ es : List ArbitrationEntry,
    es = [⟨"B", "s", [⟨1, .default, none⟩, ⟨0, .ranked, some 3⟩]⟩, ⟨"A", "e", []⟩,
      ⟨"A", "s", [⟨0, .exclusive, some 7⟩, ⟨1, .default, none⟩]⟩] := ⟨_, rfl⟩
  obtain ⟨masked, hmasked⟩ : ∃ es : List ArbitrationEntry,
    es = [⟨"A", "s", [⟨0, .ranked, none⟩, ⟨0, .default, none⟩, ⟨1, .default, none⟩]⟩,
      ⟨"A", "s", [⟨1, .default, none⟩, ⟨0, .exclusive, none⟩]⟩, ⟨"A", "s", []⟩,
      ⟨"B", "s", [⟨0, .default, none⟩]⟩] := ⟨_, rfl⟩
  rcases Fallible.exists_ok_of_any
    (x := Network.read
      "Cta A=Init s;s B!m()s;s B!n()t;t B!m()e;Cta B=Init s;s A?m()s;s A?n()s;")
    (P := fun net => (net.map Automaton.label).Nodup ∧
      (resolve net sound).toOption.any (fun policy =>
        decide (policy.arbiter? 1 0 = some ⟨[.ranked 3, .default]⟩)) = true ∧
      (resolve net masked).toOption = none ∧
      ((places net).filter fun x => 2 ≤ x.2.1.outgoing.length ∧
        ∀ e ∈ masked, ¬ e.Faultless net x.key).map Place.missing =
          [.missingArbitration "B" "s" 2 ⟨53, 61⟩])
    (by subst hsound hmasked; decide +kernel) with ⟨net, hnet, hlabels, haccept, hrefuse, hmissing⟩
  rcases Fallible.exists_ok_of_any haccept with ⟨policy, hpolicy, harbiter⟩
  have hindexed : ∀ a ∈ net, a.Indexed := fun a ha => (Network.wellFormed_of_read hnet ha).indexed
  have hsettled := ((resolve_accepts_exactly hlabels hindexed sound).2.1 policy hpolicy).1
  rcases resolve_accepts_exactly hlabels hindexed masked with ⟨haccepted, -, hreported⟩
  cases hfaults : resolve net masked with
  | ok policy => simp [hfaults, Except.toOption] at hrefuse
  | error faults =>
    refine ⟨net, sound, masked, policy, faults, hnet, hlabels, hindexed, hsound, hpolicy, hsettled,
      harbiter, hmasked, hfaults, ?_, (hreported faults hfaults).trans hmissing⟩
    rw [← haccepted, hfaults]
    simp

end Policy
end TimedAutomata
