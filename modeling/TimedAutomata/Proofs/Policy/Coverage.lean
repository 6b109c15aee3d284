import Mathlib.Data.List.Infix
import TimedAutomata.Policy.Basic
import TimedAutomata.Proofs.Lookup

/-!
# Arbiters of resolved policies

A policy that could be resolved has an arbiter for every state with outgoing transitions, and an
arbiter has one class for each transition. The entries of the configuration and the remaining
states are worked off one by one; each step only adds arbiters and faults.

* `slots_complete`: an entry without faults assigns a class to every transition
* `Draft.Fits`: the arbiters found so far have as many classes as there are transitions
* `Draft.Extends`: what a step keeps
* `has_addState`: a state is settled or faulty after its step
* `arbiter_of_resolve`: the arbiters of a resolved policy
-/

namespace TimedAutomata
namespace Policy

/-! ## Entries -/

theorem length_classes_assign (entry : ArbitrationEntry) (slots : Slots) (x : Assignment) :
    (assign entry slots x).classes.length = slots.classes.length := by
  unfold assign
  cases slots.classes[x.ordinal]? with
  | none => rfl
  | some c =>
    cases c with
    | some c => rfl
    | none =>
      cases assignedClass? x with
      | none => rfl
      | some c => simp

theorem length_classes_foldl (entry : ArbitrationEntry) (slots : Slots) (xs : List Assignment) :
    (xs.foldl (assign entry) slots).classes.length = slots.classes.length := by
  induction xs generalizing slots with
  | nil => rfl
  | cons x xs ih => rw [List.foldl_cons, ih, length_classes_assign]

/-- An entry without faults assigns a class to every transition. -/
theorem slots_complete {entry : ArbitrationEntry} {n : Nat} (h : (slots entry n).faults = []) :
    ((slots entry n).classes.filterMap id).length = n := by
  set assigned := entry.assignments.foldl (assign entry) ⟨List.replicate n none, []⟩ with hdef
  have hlength : assigned.classes.length = n := by
    rw [hdef, length_classes_foldl]
    simp
  have hmissing : ∀ x ∈ assigned.classes, x ≠ none := by
    intro x hx hnone
    rcases List.mem_iff_getElem?.1 hx with ⟨i, hi⟩
    simp only [slots, List.append_eq_nil_iff, List.filterMap_eq_nil_iff] at h
    have hmem : (x, i) ∈ assigned.classes.zipIdx := List.mk_mem_zipIdx_iff_getElem?.2 hi
    simpa [hnone] using h.2 (x, i) hmem
  have hall : (assigned.classes.filterMap id).length = assigned.classes.length := by
    rw [List.filterMap_length_eq_length]
    intro x hx
    exact Option.isSome_iff_ne_none.2 (hmissing x hx)
  rw [show (slots entry n).classes = assigned.classes from rfl, hall, hlength]

/-! ## Drafts -/

namespace Draft

/-- What every step of the resolution keeps. -/
structure Extends (d e : Draft) : Prop where
  arbiters : d.arbiters <+: e.arbiters
  faults : d.faults <+: e.faults

theorem Extends.refl (d : Draft) : d.Extends d :=
  ⟨List.prefix_rfl, List.prefix_rfl⟩

theorem Extends.trans {d e f : Draft} (hde : d.Extends e) (hef : e.Extends f) : d.Extends f :=
  ⟨hde.arbiters.trans hef.arbiters, hde.faults.trans hef.faults⟩

theorem Extends.has {d e : Draft} (h : d.Extends e) {k : StateKey} (hk : d.has k = true) :
    e.has k = true := by
  rcases h.arbiters with ⟨more, hmore⟩
  simp only [Draft.has, ← hmore, List.lookup_append] at hk ⊢
  cases hd : d.arbiters.lookup k with
  | none => simp [hd] at hk
  | some arbiter => simp

theorem Extends.faults_eq_nil {d e : Draft} (h : d.Extends e) (he : e.faults = []) :
    d.faults = [] := by
  have hprefix := h.faults
  rw [he] at hprefix
  exact List.prefix_nil.1 hprefix

/-- The arbiters found so far have one class for each transition. -/
def Fits (net : Network) (d : Draft) : Prop :=
  ∀ k arbiter, (k, arbiter) ∈ d.arbiters →
    ∃ a, net[k.1]? = some a ∧ arbiter.classes.length = (a.outgoing k.2).length

theorem Fits.settle {net : Network} {d : Draft} (h : d.Fits net) {aid : AutomatonId}
    {sid : StateId} {a : Automaton} {arbiter : Arbiter} (ha : net[aid]? = some a)
    (harbiter : arbiter.classes.length = (a.outgoing sid).length) :
    (d.settle (aid, sid) arbiter).Fits net := by
  intro k arbiter' hmem
  simp only [Draft.settle, List.mem_append, List.mem_singleton] at hmem
  rcases hmem with hmem | hmem
  · exact h k arbiter' hmem
  · rcases Prod.mk.inj hmem with ⟨rfl, rfl⟩
    exact ⟨a, ha, harbiter⟩

end Draft

/-! ## One step -/

theorem extends_fault (d : Draft) (f : Fault) : d.Extends (d.fault f) :=
  ⟨List.prefix_rfl, List.prefix_append ..⟩

theorem extends_settle (d : Draft) (k : StateKey) (arbiter : Arbiter) :
    d.Extends (d.settle k arbiter) :=
  ⟨List.prefix_append .., List.prefix_rfl⟩

theorem firstWithLabel?_getElem? {net : Network} {label : String} {a : Automaton}
    {aid : AutomatonId} (h : firstWithLabel? net label = some (a, aid)) : net[aid]? = some a := by
  have hmem := List.mem_of_find?_eq_some h
  exact List.mk_mem_zipIdx_iff_getElem?.1 hmem

theorem fits_addEntry {net : Network} {d : Draft} (h : d.Fits net) (entry : ArbitrationEntry) :
    (addEntry net d entry).Fits net := by
  unfold addEntry
  cases hlabel : firstWithLabel? net entry.automaton with
  | none => exact h
  | some found =>
    rcases found with ⟨a, aid⟩
    have ha := firstWithLabel?_getElem? hlabel
    simp only
    split
    · exact h
    · split
      · exact h
      · split
        · next hfaults => exact h.settle ha (slots_complete hfaults)
        · exact h

theorem fits_addState {net : Network} {d : Draft} (h : d.Fits net) {aid : AutomatonId}
    {a : Automaton} {sid : StateId} {s : State} (ha : net[aid]? = some a)
    (hs : a.states[sid]? = some s) : (addState a aid d (s, sid)).Fits net := by
  unfold addState
  cases hout : s.outgoing with
  | nil => exact h
  | cons first more =>
    cases more with
    | nil =>
      simp only
      split
      · exact h
      · refine h.settle ha ?_
        simp [Automaton.outgoing, Automaton.outgoing?, hs, hout]
    | cons second more =>
      simp only
      split
      · exact h
      · exact h

theorem extends_addState (a : Automaton) (aid : AutomatonId) (d : Draft) (s : State × StateId) :
    d.Extends (addState a aid d s) := by
  unfold addState
  cases s.1.outgoing with
  | nil => exact .refl d
  | cons first more =>
    cases more with
    | nil =>
      simp only
      split
      · exact .refl d
      · exact extends_settle ..
    | cons second more =>
      simp only
      split
      · exact .refl d
      · exact extends_fault ..

/-- After its step a state with outgoing transitions is settled, or a fault has been found. -/
theorem has_addState {a : Automaton} {aid : AutomatonId} {d : Draft} {s : State} {sid : StateId}
    (hout : s.outgoing ≠ []) (hfaults : (addState a aid d (s, sid)).faults = []) :
    (addState a aid d (s, sid)).has (aid, sid) = true := by
  unfold addState at hfaults ⊢
  cases hs : s.outgoing with
  | nil => exact absurd hs hout
  | cons first more =>
    cases more with
    | nil =>
      simp only
      split
      · next hhas => exact hhas
      · next hhas =>
        have hnone : d.arbiters.lookup (aid, sid) = none := by
          simpa only [Draft.has, Option.isSome_iff_ne_none, not_not] using hhas
        simp [Draft.has, Draft.settle, List.lookup_append, hnone]
    | cons second more =>
      simp only [hs] at hfaults ⊢
      split
      · next hhas => exact hhas
      · next hhas => simp [hhas, Draft.fault] at hfaults

/-! ## All steps -/

section Folds

variable {α : Type} {f : Draft → α → Draft}

theorem extends_foldl (hf : ∀ d x, Draft.Extends d (f d x)) (d : Draft) (xs : List α) :
    d.Extends (xs.foldl f d) := by
  induction xs generalizing d with
  | nil => exact .refl d
  | cons x xs ih => exact (hf d x).trans (ih (f d x))

/-- What a step settles if it finds no fault stays settled. -/
theorem has_foldl (hf : ∀ d x, Draft.Extends d (f d x)) {P : α → StateKey → Prop}
    (hstep : ∀ d x k, P x k → (f d x).faults = [] → (f d x).has k = true) {xs : List α} {d : Draft}
    (hfaults : (xs.foldl f d).faults = []) {x : α} {k : StateKey} (hx : x ∈ xs) (hk : P x k) :
    (xs.foldl f d).has k = true := by
  induction xs generalizing d with
  | nil => simp at hx
  | cons y ys ih =>
    rcases List.mem_cons.1 hx with rfl | hx
    · have hrest := extends_foldl hf (f d x) ys
      exact hrest.has (hstep d x k hk (hrest.faults_eq_nil hfaults))
    · exact ih hfaults hx

theorem fits_foldl {net : Network} {xs : List α}
    (hstep : ∀ x ∈ xs, ∀ d : Draft, d.Fits net → (f d x).Fits net) {d : Draft}
    (h : d.Fits net) : (xs.foldl f d).Fits net := by
  induction xs generalizing d with
  | nil => exact h
  | cons x xs ih =>
    simp only [List.forall_mem_cons] at hstep
    exact ih hstep.2 (hstep.1 d h)

end Folds

theorem fits_draft (net : Network) (entries : List ArbitrationEntry) :
    (draft net entries).Fits net := by
  have hempty : Draft.Fits net ⟨[], []⟩ := by
    intro k arbiter hmem
    simp at hmem
  have hentries : (entryDraft net entries).Fits net :=
    fits_foldl (fun entry _ d hd => fits_addEntry hd entry) hempty
  refine fits_foldl (fun x hx d hd => ?_) hentries
  have ha : net[x.2]? = some x.1 := List.mk_mem_zipIdx_iff_getElem?.1 hx
  refine fits_foldl (fun s hs d hd => ?_) hd
  exact fits_addState hd ha (List.mk_mem_zipIdx_iff_getElem?.1 hs)

theorem has_draft {net : Network} {entries : List ArbitrationEntry}
    (hfaults : (draft net entries).faults = []) {aid : AutomatonId} {a : Automaton}
    {sid : StateId} {s : State} (ha : net[aid]? = some a) (hs : a.states[sid]? = some s)
    (hout : s.outgoing ≠ []) : (draft net entries).has (aid, sid) = true := by
  have hextends : ∀ (d : Draft) (x : Automaton × AutomatonId),
      d.Extends (x.1.states.zipIdx.foldl (addState x.1 x.2) d) :=
    fun d x => extends_foldl (extends_addState x.1 x.2) d _
  -- the automata are worked off one by one, and the states of each one by one
  refine has_foldl (P := fun x k => ∃ sid s, x.1.states[sid]? = some s ∧ s.outgoing ≠ [] ∧
    k = (x.2, sid)) hextends ?_ hfaults (List.mk_mem_zipIdx_iff_getElem?.2 ha)
    ⟨sid, s, hs, hout, rfl⟩
  rintro d ⟨b, bid⟩ k ⟨sid, s, hs, hout, rfl⟩ hfaults
  refine has_foldl (P := fun x k => x.1.outgoing ≠ [] ∧ k = (bid, x.2))
    (extends_addState b bid) ?_ hfaults (List.mk_mem_zipIdx_iff_getElem?.2 hs) ⟨hout, rfl⟩
  rintro d ⟨s, sid⟩ k ⟨hout, rfl⟩ hfaults
  exact has_addState hout hfaults

/-- The arbiter of a state in a resolved policy. -/
theorem arbiter_of_resolve {net : Network} {entries : List ArbitrationEntry} {policy : Policy}
    (h : resolve net entries = .ok policy) {aid : AutomatonId} {a : Automaton} {sid : StateId}
    {s : State} (ha : net[aid]? = some a) (hs : a.states[sid]? = some s) (hout : s.outgoing ≠ []) :
    ∃ arbiter, policy.arbiter? aid sid = some arbiter ∧
      arbiter.classes.length = s.outgoing.length := by
  unfold resolve at h
  simp only at h
  split at h
  · next hfaults =>
    obtain rfl := Except.ok.inj h
    rcases Option.isSome_iff_exists.1 (has_draft hfaults ha hs hout) with ⟨arbiter, harbiter⟩
    rcases fits_draft net entries _ _ (mem_of_lookup harbiter) with ⟨b, hb, hclasses⟩
    obtain rfl : a = b := by simpa [ha] using hb
    refine ⟨arbiter, harbiter, ?_⟩
    simpa [Automaton.outgoing, Automaton.outgoing?, hs] using hclasses
  · simp at h

end Policy
end TimedAutomata
