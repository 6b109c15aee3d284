import Mathlib.Data.List.Nodup
import TimedAutomata.Proofs.Compilation.Analysis
import TimedAutomata.Proofs.Notation.Locations
import TimedAutomata.Proofs.Policy.Acceptance
import TimedAutomata.Proofs.Topology.Ambiguity
import TimedAutomata.Proofs.Topology.Unmatched

/-!
# Reporting

A compilation says everything it has found out: each warning and each error has a diagnostic of its
own, and each diagnostic is printed. Repetitions are not printed, but there are none: what one stage
reports is reported at different places of the text, and only one stage fails.

* `Span.Scattered`: spans of different parts of a text
* `Network.scattered_unmatched`, `Network.scattered_ambiguities`, `Policy.scattered_faults`: the
  spans that the stages report
* `Remark`, `remarks`: what there is to say about a text
* `scattered_remarks`: all of it is about different places
* `Diagnostic.fresh_eq_self`: diagnostics at different places are all printed
* `compileReporting_swallows_nothing`: a compilation prints what there is to say
-/

namespace TimedAutomata

/-! ## Different places -/

/-- The spans are those of parts of a text, and no two are the same. -/
structure Span.Scattered (text : List Char) (spans : List Span) : Prop where
  distinct : spans.Nodup
  inside : ∀ s ∈ spans, ∃ w, s.text? text = some w

namespace Span

theorem nodup_of_ascending {spans : List Span} (h : spans.Pairwise Before) : spans.Nodup := by
  refine h.imp ?_
  rintro s _ hbefore rfl
  exact Nat.lt_irrefl _ hbefore.1

/-- A part of a text does not reach beyond it. -/
theorem bounds_of_text? {s : Span} {cs w : List Char} (h : s.text? cs = some w) :
    s.start ≤ s.stop ∧ s.stop ≤ Text.byteLength cs := by
  rcases text?_eq_some_iff.1 h with ⟨before, after, rfl, rfl⟩
  simp only [Text.byteLength_append]
  omega

end Span

namespace Automaton

variable {a : Automaton}

/-- A warning is located at a transition. -/
theorem exists_transition_of_ambiguity {w : Ambiguity} (hw : w ∈ a.ambiguities) :
    ∃ t ∈ a.transitions, w.span = t.span := by
  rcases Fallible.exists_of_mem_right a.describes_ambiguities hw with ⟨c, -, hdescribes⟩
  rcases hdescribes.primary with ⟨i, t, -, ht, -, hspan⟩
  exact ⟨t, List.mem_of_getElem? ht, hspan⟩

/-- The warnings about an automaton stand in the order of its transitions. -/
theorem ascending_ambiguities (h : (a.transitions.map Transition.span).Pairwise Span.Before) :
    a.ambiguities.Pairwise fun v w => v.span.Before w.span := by
  refine Fallible.pairwise_of_forall₂ a.describes_ambiguities a.contests_classes.order ?_
  rintro c v d w hv hw ⟨i, j, hi, hj, hlt⟩
  rcases hv.primary with ⟨i', t, hi', ht, -, hvspan⟩
  rcases hw.primary with ⟨j', u, hj', hu, -, hwspan⟩
  obtain rfl : i = i' := Option.some.inj (hi.symm.trans hi')
  obtain rfl : j = j' := Option.some.inj (hj.symm.trans hj')
  rcases List.getElem?_eq_some_iff.1 ht with ⟨hilt, rfl⟩
  rcases List.getElem?_eq_some_iff.1 hu with ⟨hjlt, rfl⟩
  rw [hvspan, hwspan]
  rw [List.pairwise_map] at h
  exact List.pairwise_iff_getElem.1 h i j hilt hjlt hlt

end Automaton

namespace Network

variable {text : String} {net : Network} (h : read text = .ok net)
include h

theorem inside_of_read {a : Automaton} (ha : a ∈ net) {t : Transition} (ht : t ∈ a.transitions) :
    ∃ w, t.span.text? text.toList = some w := by
  rcases (located_of_read h).clauses with ⟨ds, -, hrows⟩
  rcases Fallible.exists_of_mem_right hrows ha with ⟨d, -, -, hread⟩
  rcases Fallible.exists_of_mem_right hread ht with ⟨c, -, hc⟩
  exact ⟨c.text, hc.covers.2⟩

/-- A span tells which transition of which automaton it belongs to. -/
theorem eq_of_span_eq {a b : Automaton} (ha : a ∈ net) (hb : b ∈ net) {t u : Transition}
    (ht : t ∈ a.transitions) (hu : u ∈ b.transitions) (hspan : t.span = u.span) :
    a = b ∧ t = u := by
  rcases List.nodup_flatMap.1 (Span.nodup_of_ascending (located_of_read h).transitions) with
    ⟨hinner, hacross⟩
  have hab : a = b := by
    by_contra hne
    have : Std.Symm (Function.onFun List.Disjoint
        fun a : Automaton => a.transitions.map Transition.span) :=
      ⟨fun _ _ hdisjoint _ hb ha => hdisjoint ha hb⟩
    refine hacross.forall ha hb hne (List.mem_map_of_mem ht) ?_
    rw [hspan]
    exact List.mem_map_of_mem hu
  subst hab
  exact ⟨rfl, List.inj_on_of_nodup_map (hinner a ha) ht hu hspan⟩

theorem scattered_unmatched : Span.Scattered text.toList (net.unmatched.map Unmatched.span) := by
  constructor
  · apply Span.nodup_of_ascending
    rw [List.pairwise_map]
    exact ascending_unmatched h
  · rw [unmatched_eq (nodup_labels_of_read h), List.map_map, List.forall_mem_map]
    rintro ⟨a, t⟩ hx
    rcases mem_declared.1 (List.mem_filter.1 hx).1 with ⟨ha, ht⟩
    exact inside_of_read h ha ht

theorem scattered_ambiguities :
    Span.Scattered text.toList ((net.flatMap Automaton.ambiguities).map Ambiguity.span) := by
  constructor
  · rcases List.pairwise_flatMap.1 (located_of_read h).transitions with ⟨hinner, hacross⟩
    apply Span.nodup_of_ascending
    rw [List.pairwise_map, List.pairwise_flatMap]
    refine ⟨fun a ha => Automaton.ascending_ambiguities (hinner a ha), hacross.imp ?_⟩
    intro a b hspans v hv w hw
    rcases Automaton.exists_transition_of_ambiguity hv with ⟨t, ht, hvspan⟩
    rcases Automaton.exists_transition_of_ambiguity hw with ⟨u, hu, hwspan⟩
    rw [hvspan, hwspan]
    exact hspans _ (List.mem_map_of_mem ht) _ (List.mem_map_of_mem hu)
  · rw [List.forall_mem_map]
    intro w hw
    rcases List.mem_flatMap.1 hw with ⟨a, ha, hwa⟩
    rcases Automaton.exists_transition_of_ambiguity hwa with ⟨t, ht, hspan⟩
    rw [hspan]
    exact inside_of_read h ha ht

end Network

/-! ## States without arbitration -/

namespace Policy

variable {text : String} {net : Network} {entries : List ArbitrationEntry}

theorem nodup_places (net : Network) : (places net).Nodup := by
  have hzip : ∀ {α : Type} (as : List α), as.zipIdx.Nodup := by
    intro α as
    apply List.Nodup.of_map Prod.snd
    rw [List.zipIdx_map_snd]
    exact List.nodup_range'
  rw [places, List.nodup_flatMap]
  constructor
  · intro a _
    exact (hzip _).map fun s t hst => (Prod.mk.inj hst).2
  · refine (hzip net).imp ?_
    intro a b hne x hxa hxb
    rcases List.mem_map.1 hxa with ⟨s, -, rfl⟩
    rcases List.mem_map.1 hxb with ⟨t, -, hx⟩
    exact hne (Prod.mk.inj hx).1.symm

/-- A state that needs an entry is reported at a transition that leaves it. -/
theorem exists_transition_of_missing (h : Network.read text = .ok net) {x : Place}
    (hx : x ∈ places net) (hseveral : 2 ≤ x.2.1.outgoing.length) :
    ∃ t ∈ x.1.1.transitions, t.start = x.2.2 ∧ x.missing.span? = some t.span := by
  rcases mem_places.1 hx with ⟨ha, hs⟩
  have hwellFormed := Network.wellFormed_of_read h (List.mem_of_getElem? ha)
  cases houtgoing : x.2.1.outgoing with
  | nil => simp [houtgoing] at hseveral
  | cons tid more =>
    have htid : tid ∈ x.2.1.outgoing := by simp [houtgoing]
    rcases hwellFormed.exists_transition hs htid with ⟨t, ht⟩
    refine ⟨t, List.mem_of_getElem? ht, hwellFormed.start_of_mem hs htid ht, ?_⟩
    simp [Place.missing, Fault.span?, houtgoing, ht]

/-- Different states are reported at different spans. -/
theorem place_eq_of_span_eq (h : Network.read text = .ok net) {x y : Place}
    (hx : x ∈ places net) (hy : y ∈ places net) (hxseveral : 2 ≤ x.2.1.outgoing.length)
    (hyseveral : 2 ≤ y.2.1.outgoing.length) (hspan : x.missing.span? = y.missing.span?) :
    x = y := by
  rcases exists_transition_of_missing h hx hxseveral with ⟨t, ht, htstart, htspan⟩
  rcases exists_transition_of_missing h hy hyseveral with ⟨u, hu, hustart, huspan⟩
  rw [htspan, huspan, Option.some.injEq] at hspan
  rcases x with ⟨⟨a, aid⟩, s, sid⟩
  rcases y with ⟨⟨b, bid⟩, r, rid⟩
  rcases mem_places.1 hx with ⟨ha, hs⟩
  rcases mem_places.1 hy with ⟨hb, hr⟩
  simp only at *
  obtain ⟨rfl, rfl⟩ := Network.eq_of_span_eq h (List.mem_of_getElem? ha)
    (List.mem_of_getElem? hb) ht hu hspan
  obtain rfl : aid = bid :=
    Network.index_eq_of_label_eq (Network.nodup_labels_of_read h) ha hb rfl
  obtain rfl : sid = rid := htstart.symm.trans hustart
  obtain rfl : s = r := Option.some.inj (hs.symm.trans hr)
  rfl

/-- Only faults that are about a missing entry have a span. -/
theorem filterMap_span? (faults : List Fault) :
    faults.filterMap Fault.span? = (faults.filter Fault.isMissing).filterMap Fault.span? := by
  rw [List.filterMap_filter]
  refine List.filterMap_congr fun f _ => ?_
  cases f <;> rfl

theorem scattered_faults (h : Network.read text = .ok net) {faults : List Fault}
    (hfaults : resolve net entries = .error faults) :
    Span.Scattered text.toList (faults.filterMap Fault.span?) := by
  rw [filterMap_span?, filter_faults_of_resolve (Network.nodup_labels_of_read h) hfaults,
    List.filterMap_map]
  constructor
  · rw [List.Nodup, List.pairwise_filterMap]
    -- places are reported once, so it is enough that different ones have different spans
    refine ((nodup_places net).filter _).imp_of_mem ?_
    intro x y hx hy hne s hs s' hs' hspans
    rw [List.mem_filter, decide_eq_true_eq] at hx hy
    refine hne (place_eq_of_span_eq h hx.1 hy.1 hx.2.1 hy.2.1 ?_)
    exact hs.trans (hspans ▸ hs'.symm)
  · intro s hs
    rcases List.mem_filterMap.1 hs with ⟨x, hx, hspan⟩
    rw [List.mem_filter, decide_eq_true_eq] at hx
    rcases exists_transition_of_missing h hx.1 hx.2.1 with ⟨t, ht, -, htspan⟩
    obtain rfl : t.span = s := Option.some.inj (htspan.symm.trans hspan)
    exact Network.inside_of_read h (List.mem_of_getElem? (mem_places.1 hx.1).1) ht

end Policy

/-! ## What there is to say -/

/-- A warning about a text, or an error. -/
inductive Remark where
  | ambiguous (w : Ambiguity)
  | unreadable (e : ReadError)
  | unmatched (u : Unmatched)
  | unsettled (f : Policy.Fault)
  | colliding (c : Generation.Collision)
  | configuration (e : Config.Error)

namespace Remark

def severity : Remark → Severity
  | .ambiguous _ => .warning
  | _ => .error

def message : Remark → String
  | .ambiguous w => w.message
  | .unreadable e => e.cause.message
  | .unmatched u => u.message
  | .unsettled f => f.message
  | .colliding c => c.message
  | .configuration e => e.message

/-- The place in the text that a remark points to, if it points to one. -/
def span? : Remark → Option Span
  | .ambiguous w => some w.span
  | .unreadable e => some e.span
  | .unmatched u => some u.span
  | .unsettled f => f.span?
  | .colliding _ => none
  | .configuration _ => none

theorem filterMap_span?_map {α : Type} {f : α → Remark} {g : α → Span}
    (h : ∀ a, (f a).span? = some (g a)) (as : List α) :
    (as.map f).filterMap span? = as.map g := by
  rw [List.filterMap_map, ← List.filterMap_eq_map]
  exact List.filterMap_congr fun a _ => h a

/-- The diagnostic says what the remark says, about the same place. -/
structure SaidBy (file : FileId) (r : Remark) (d : Diagnostic) : Prop where
  severity : d.severity = r.severity
  message : d.message = r.message
  place : d.place = r.span?.map (Place.mk file)

end Remark

/-- The errors of a failure. -/
def Failure.remarks : Failure → List Remark
  | .unreadable e => [.unreadable e]
  | .unmatched us => us.map .unmatched
  | .unsettled fs => fs.map .unsettled
  | .colliding cs => cs.map .colliding
  | .configuration e => [.configuration e]

/-- The warnings of an analysis that succeeds. -/
def warnings (text : String) (c : Config) : List Ambiguity :=
  match analyze text c with
  | .ok p => p.topology.warnings
  | .error _ => []

/-- What there is to say about a text: warnings, then errors. -/
def remarks (text : String) (c : Config) : List Remark :=
  (warnings text c).map .ambiguous ++
    match compile text c with
    | .ok _ => []
    | .error f => f.remarks

theorem Failure.saidBy_diagnostics (file : FileId) (f : Failure) :
    List.Forall₂ (Remark.SaidBy file) f.remarks (f.diagnostics file) := by
  cases f with
  | unreadable e => exact .cons ⟨rfl, rfl, rfl⟩ .nil
  | unmatched us => exact Fallible.forall₂_map fun u _ => ⟨rfl, rfl, rfl⟩
  | unsettled fs =>
    apply Fallible.forall₂_map
    intro f _
    cases hspan : f.span? with
    | none => exact ⟨rfl, rfl, by simp [Remark.span?, hspan, Diagnostic.general]⟩
    | some span => exact ⟨rfl, rfl, by simp [Remark.span?, hspan, Diagnostic.errorAt]⟩
  | colliding cs => exact Fallible.forall₂_map fun c _ => ⟨rfl, rfl, rfl⟩
  | configuration e => exact .cons ⟨rfl, rfl, rfl⟩ .nil

/-- Diagnostics do not change the result, and there is one for each thing to say. -/
theorem saidBy_compileReporting (file : FileId) (text : String) (c : Config) :
    (compileReporting file text c).1 = compile text c ∧
      List.Forall₂ (Remark.SaidBy file) (remarks text c) (compileReporting file text c).2 := by
  unfold remarks warnings compileReporting analyzeReporting compile
  cases analyze text c with
  | error f => exact ⟨rfl, f.saidBy_diagnostics file⟩
  | ok p =>
    have hwarnings : List.Forall₂ (Remark.SaidBy file) (p.topology.warnings.map .ambiguous)
        (p.topology.warnings.map fun w => Diagnostic.warningAt file w.span w.message) :=
      Fallible.forall₂_map fun w _ => ⟨rfl, rfl, rfl⟩
    simp only [bind, Except.bind]
    cases Generation.emit p c.emission with
    | error cs =>
      exact ⟨rfl, List.rel_append hwarnings ((Failure.colliding cs).saidBy_diagnostics file)⟩
    | ok go =>
      refine ⟨rfl, ?_⟩
      simpa [Except.mapError] using hwarnings

/-! ## All of it is about different places -/

section Places

variable {text : String} {c : Config}

theorem scattered_of_analyze_error {f : Failure} (h : analyze text c = .error f) :
    Span.Scattered text.toList (f.remarks.filterMap Remark.span?) := by
  rcases analyze_eq_error_iff.1 h with
    ⟨e, he, rfl⟩ | ⟨net, hnet, ⟨us, hus, rfl⟩ | ⟨_, -, fs, hfs, rfl⟩⟩
  · refine ⟨List.nodup_singleton e.span, ?_⟩
    intro s hs
    obtain rfl : s = e.span := List.mem_singleton.1 hs
    exact ⟨_, Clause.text?_span_of_within (Network.within_of_error he)⟩
  · rcases Topology.resolve_eq_error_iff.1 hus with ⟨-, rfl⟩
    rw [Network.mergeSort_unmatched hnet, Failure.remarks,
      Remark.filterMap_span?_map (g := Unmatched.span) fun _ => rfl]
    exact Network.scattered_unmatched hnet
  · rw [Failure.remarks, List.filterMap_map]
    exact Policy.scattered_faults hnet hfs

theorem scattered_of_analyze {p : Program} (h : analyze text c = .ok p) :
    Span.Scattered text.toList (p.topology.warnings.map Ambiguity.span) := by
  rcases analyze_eq_ok_iff.1 h with ⟨hnet, htopology, -⟩
  rw [(Topology.resolve_eq_ok_iff.1 htopology).2]
  exact Network.scattered_ambiguities hnet

/-- Collisions are about the generated program, and not about a place in the text. -/
theorem filterMap_span?_colliding (cs : List Generation.Collision) :
    (Failure.colliding cs).remarks.filterMap Remark.span? = [] := by
  simp [Failure.remarks, Remark.span?]

theorem scattered_remarks (text : String) (c : Config) :
    Span.Scattered text.toList ((remarks text c).filterMap Remark.span?) := by
  unfold remarks warnings compile
  cases hanalyze : analyze text c with
  | error f => exact scattered_of_analyze_error hanalyze
  | ok p =>
    -- only the warnings have places here
    have hwarnings := scattered_of_analyze hanalyze
    have hspans : (p.topology.warnings.map Remark.ambiguous).filterMap Remark.span? =
        p.topology.warnings.map Ambiguity.span :=
      Remark.filterMap_span?_map (fun _ => rfl) _
    simp only [bind, Except.bind]
    cases Generation.emit p c.emission with
    | error cs =>
      simpa [Except.mapError, hspans, filterMap_span?_colliding] using hwarnings
    | ok go => simpa [Except.mapError, hspans] using hwarnings

end Places

/-! ## What is printed -/

namespace Diagnostic

/-- A list of diagnostics at different places is printed as a whole, whatever was printed at other
places before. -/
theorem freshAfter_eq_self {seen ds : List Diagnostic} (hds : (ds.filterMap place).Nodup)
    (hseen : ∀ d ∈ ds, ∀ e ∈ seen, d.repeats e = false) : freshAfter seen ds = ds := by
  induction ds generalizing seen with
  | nil => rfl
  | cons d ds ih =>
    rw [List.Nodup, List.pairwise_filterMap, List.pairwise_cons] at hds
    rw [List.forall_mem_cons] at hseen
    have hfirst : seen.any d.repeats = false := List.any_eq_false.2 fun e he => by
      simp [hseen.1 e he]
    have hlater : ∀ e ∈ ds, e.repeats d = false := by
      intro e he
      cases hplace : e.place with
      | none => simp [repeats, hplace]
      | some p =>
        have hne : d.place ≠ some p := fun hd => hds.1 e he p hd p hplace rfl
        simp [repeats, hplace, hne.symm]
    rw [freshAfter, hfirst, if_neg Bool.false_ne_true, ih]
    · rw [List.Nodup, List.pairwise_filterMap]
      exact hds.2
    · intro e he e' he'
      rcases List.mem_append.1 he' with hold | hnew
      · exact hseen.2 e he e' hold
      · rw [List.mem_singleton.1 hnew]
        exact hlater e he

theorem fresh_eq_self {ds : List Diagnostic} (h : (ds.filterMap place).Nodup) : fresh ds = ds :=
  freshAfter_eq_self h (by simp)

end Diagnostic

/-- A piece of text is rendered as it is. -/
theorem Ink.exists_render_eq (colour : Bool) {ink : List Ink} {s : String}
    (h : Ink.text s ∈ ink) : ∃ front back, render colour ink = front ++ s ++ back := by
  rcases List.append_of_mem h with ⟨before, after, rfl⟩
  refine ⟨render colour before, render colour after, ?_⟩
  simp [render, chars, String.join_cons, String.join_append, String.append_assoc]

namespace Diagnostic

/-- What is printed for a diagnostic contains its message. -/
theorem exists_render_ink_eq (colour : Bool) (files : List SourceFile) (d : Diagnostic) :
    ∃ front back, Ink.render colour (d.ink files) = front ++ d.message ++ back := by
  have hcontains : ∃ left right, Ink.text (left ++ d.message ++ right) ∈ d.ink files := by
    cases hplace : d.place with
    | none => exact ⟨": ", "\n", by simp [ink, hplace, Ink.styled]⟩
    | some p =>
      cases hfile : files[p.file]? with
      | none => exact ⟨d.severity.title ++ ": ", "\n", by simp [ink, hplace, hfile, plainInk]⟩
      | some f =>
        exact ⟨": ", "", by simp [ink, hplace, hfile, Snippet.ink, Snippet.header, Snippet.of]⟩
  rcases hcontains with ⟨left, right, hmem⟩
  rcases Ink.exists_render_eq colour hmem with ⟨front, back, hrender⟩
  refine ⟨front ++ left, right ++ back, ?_⟩
  rw [hrender]
  simp only [String.append_assoc]

end Diagnostic

/-- A place in a text of less than 2 ^ 64 - 1 bytes can be shown. -/
theorem Snippet.isBeyondReach_of {severity : Severity} {message : String} {f : SourceFile}
    {span : Span} (hstart : span.start + 1 < UInt64.size) :
    (Snippet.of severity message f span).isBeyondReach = false := by
  have hreach : ¬ UInt64.size ≤ span.start - (f.lineAt span.start).start + 1 := by omega
  simp [isBeyondReach, Snippet.of, hreach]

/-- The places of diagnostics are those of the remarks that they make. -/
theorem filterMap_place {file : FileId} {rs : List Remark} {ds : List Diagnostic}
    (h : List.Forall₂ (Remark.SaidBy file) rs ds) :
    ds.filterMap Diagnostic.place = (rs.filterMap Remark.span?).map (Place.mk file) := by
  induction h with
  | nil => rfl
  | @cons r d rs ds hsaid _ ih =>
    rw [List.filterMap_cons, List.filterMap_cons, hsaid.place]
    cases r.span? with
    | none => exact ih
    | some span => exact congrArg (_ :: ·) ih

theorem nodup_places_compileReporting (file : FileId) (text : String) (c : Config) :
    ((compileReporting file text c).2.filterMap Diagnostic.place).Nodup := by
  rw [filterMap_place (saidBy_compileReporting file text c).2]
  exact (scattered_remarks text c).distinct.map fun s t hst => (Place.mk.inj hst).2

theorem inside_of_compileReporting {file : FileId} {text : String} {c : Config} {d : Diagnostic}
    (hd : d ∈ (compileReporting file text c).2) {place : Place} (hplace : d.place = some place) :
    place.file = file ∧ (∃ w, place.span.text? text.toList = some w) ∧
      place.span.start ≤ place.span.stop ∧ place.span.stop ≤ text.utf8ByteSize := by
  have hmem : place ∈ (compileReporting file text c).2.filterMap Diagnostic.place :=
    List.mem_filterMap.2 ⟨d, hd, hplace⟩
  rw [filterMap_place (saidBy_compileReporting file text c).2] at hmem
  rcases List.mem_map.1 hmem with ⟨span, hspan, rfl⟩
  rcases (scattered_remarks text c).inside span hspan with ⟨w, hw⟩
  rw [← Text.byteLength_toList]
  exact ⟨rfl, ⟨w, hw⟩, Span.bounds_of_text? hw⟩

/-- A compilation with diagnostics has the result of one without. It has one diagnostic for each
warning of an analysis that succeeds, then one for each error of a failure, in order, and prints all
of them, with their messages: none repeats another one, since no two are about the same place. The
places are parts of the text. For each stage, this is because its reports are about different
transitions, which stand at different places. -/
theorem compileReporting_swallows_nothing (text name : String) (c : Config)
    (before after : List SourceFile) (colour : Bool) :
    let files := before ++ ⟨name, text⟩ :: after
    let said := compileReporting before.length text c
    said.1 = compile text c ∧
    List.Forall₂ (Remark.SaidBy before.length) (remarks text c) said.2 ∧
    Diagnostic.render colour files said.2 =
      String.join (said.2.map fun d => Ink.render colour (d.ink files)) ∧
    (∀ d ∈ said.2, ∃ front back,
      Ink.render colour (d.ink files) = front ++ d.message ++ back) ∧
    (said.2.filterMap Diagnostic.place).Nodup ∧
    (∀ d ∈ said.2, ∀ place, d.place = some place → place.file = before.length ∧
      (∃ w, place.span.text? text.toList = some w) ∧
      place.span.start ≤ place.span.stop ∧ place.span.stop ≤ text.utf8ByteSize) ∧
    (text.utf8ByteSize + 1 < UInt64.size → ∀ d ∈ said.2, d.isShowable files = true) ∧
    ∀ net, Network.read text = .ok net →
      (net.unmatched.map Unmatched.span).Nodup ∧
      (∀ fs, Policy.resolve net c.arbitration = .error fs →
        (fs.filterMap Policy.Fault.span?).Nodup) ∧
      ((net.flatMap Automaton.ambiguities).map Ambiguity.span).Nodup := by
  intro files said
  rcases saidBy_compileReporting before.length text c with ⟨hresult, hsaid⟩
  have hdistinct : (said.2.filterMap Diagnostic.place).Nodup :=
    nodup_places_compileReporting before.length text c
  refine ⟨hresult, hsaid, ?_, fun d _ => d.exists_render_ink_eq colour files, hdistinct,
    fun d hd place hplace => inside_of_compileReporting hd hplace, ?_, ?_⟩
  · rw [Diagnostic.render, Diagnostic.fresh_eq_self hdistinct]
  · intro hsize d hd
    cases hplace : d.place with
    | none => simp [Diagnostic.isShowable, hplace]
    | some place =>
      rcases inside_of_compileReporting hd hplace with ⟨hfile, -, hstart, hstop⟩
      have hregistered : files[place.file]? = some ⟨name, text⟩ := by simp [files, hfile]
      have hreach : place.span.start + 1 < UInt64.size := by omega
      simp [Diagnostic.isShowable, hplace, hregistered, Snippet.isBeyondReach_of hreach]
  · intro net hnet
    exact ⟨(Network.scattered_unmatched hnet).distinct,
      fun fs hfs => (Policy.scattered_faults hnet hfs).distinct,
      (Network.scattered_ambiguities hnet).distinct⟩

/-- Three states of two automata are without arbitration, and two groups of transitions are
ambiguous. -/
theorem compileReporting_swallows_nothing_unsettled :
    ∃ text net fs, Network.read text = .ok net ∧ analyze text .default = .error (.unsettled fs) ∧
      (net.flatMap Automaton.ambiguities).map Ambiguity.span = [⟨13, 21⟩, ⟨22, 30⟩] ∧
      ((net.flatMap Automaton.ambiguities).map Ambiguity.span).Nodup ∧
      fs.filterMap Policy.Fault.span? = [⟨13, 21⟩, ⟨22, 30⟩, ⟨83, 91⟩] ∧
      (fs.filterMap Policy.Fault.span?).Nodup ∧
      List.Forall₂ (Remark.SaidBy 0) (fs.map .unsettled)
        (compileReporting 0 text .default).2 := by
  rcases Fallible.exists_ok_of_any
    (x := Network.read ("Cta A=Init s;s B!m()t;t B?k()s;t B!m()t;s B!m()s;s B?k()t;t B?k()t;" ++
      "\u3000Cta B=Init u;u A?m()u;u A!k()u;"))
    (P := fun net => (Topology.resolve net).toOption.isSome = true ∧
      (Policy.draft net []).faults = [.missingArbitration "A" "s" 3 ⟨13, 21⟩,
        .missingArbitration "A" "t" 3 ⟨22, 30⟩, .missingArbitration "B" "u" 2 ⟨83, 91⟩] ∧
      (net.flatMap Automaton.ambiguities).map Ambiguity.span = [⟨13, 21⟩, ⟨22, 30⟩])
    (by decide +kernel) with ⟨net, hnet, htopology, hfaults, hambiguities⟩
  obtain ⟨fs, hresolve, hspans⟩ : ∃ fs, Policy.resolve net [] = .error fs ∧
      fs.filterMap Policy.Fault.span? = [⟨13, 21⟩, ⟨22, 30⟩, ⟨83, 91⟩] :=
    ⟨_, by rw [Policy.resolve, hfaults], rfl⟩
  cases hchannels : Topology.resolve net with
  | error us => simp [hchannels, Except.toOption] at htopology
  | ok t =>
    have hanalyze := (analyze_eq_error_iff (c := .default)).2
      (.inr ⟨net, hnet, .inr ⟨t, hchannels, fs, hresolve, rfl⟩⟩)
    rcases compileReporting_swallows_nothing _ "main.cta" .default [] [] false with
      ⟨-, hsaid, -, -, -, -, -, hdistinct⟩
    rw [remarks, warnings, compile, hanalyze] at hsaid
    rcases hdistinct net hnet with ⟨-, hstates, hgroups⟩
    exact ⟨_, net, fs, hnet, hanalyze, hambiguities, hgroups, hspans, hstates fs hresolve, hsaid⟩

end TimedAutomata
