import TimedAutomata.Proofs.Automaton.Discovery
import TimedAutomata.Proofs.Notation.Cutting
import TimedAutomata.Proofs.Notation.Reading

/-!
# Locations

Every position that reading a text reports is exact: the clauses that a text is cut into stand in it
where their offsets say, one after another, and trimming keeps them in place.

* `Span.text?`: the text at a span
* `Clause.Within`: a clause that stands inside another
* `Laid`: clauses that stand in a text one after another, with gaps between them
* `laid_cut`, `laid_split`: the two cuts lay their pieces into the text
* `Clause.Enclosed`: all that stands between two semicolons, but for blanks
* `Network.within_of_error`: what an error points at stands in the text
* `Network.read_locates`: errors, automata and transitions are located exactly
-/

namespace TimedAutomata

/-! ## Texts at spans -/

namespace Text

/-- The first `n` bytes of a text and what follows them, if a character ends there. -/
def splitBytes? : (n : Nat) → List Char → Option (List Char × List Char)
  | 0, cs => some ([], cs)
  | _ + 1, [] => none
  | n + 1, c :: cs =>
    if c.utf8Size ≤ n + 1 then
      (splitBytes? (n + 1 - c.utf8Size) cs).map fun (front, rest) => (c :: front, rest)
    else none

theorem splitBytes?_append (front rest : List Char) :
    splitBytes? (byteLength front) (front ++ rest) = some (front, rest) := by
  induction front with
  | nil => simp [splitBytes?]
  | cons c front ih =>
    have hpos := c.utf8Size_pos
    rcases Nat.exists_eq_succ_of_ne_zero
      (show byteLength (c :: front) ≠ 0 by rw [byteLength_cons]; omega) with ⟨n, hn⟩
    have hsize := hn
    rw [byteLength_cons] at hsize
    have hfits : c.utf8Size ≤ n + 1 := by omega
    have hrest : n + 1 - c.utf8Size = byteLength front := by omega
    rw [hn, Nat.succ_eq_add_one, List.cons_append, splitBytes?, if_pos hfits, hrest, ih]
    rfl

theorem eq_append_of_splitBytes? {n : Nat} {cs front rest : List Char}
    (h : splitBytes? n cs = some (front, rest)) : cs = front ++ rest ∧ byteLength front = n := by
  induction cs generalizing n front with
  | nil =>
    cases n with
    | zero => simp_all [splitBytes?]
    | succ n => simp [splitBytes?] at h
  | cons c cs ih =>
    cases n with
    | zero => simp_all [splitBytes?]
    | succ n =>
      rw [splitBytes?] at h
      split at h
      · next hfits =>
        rcases Option.map_eq_some_iff.1 h with ⟨⟨more, after⟩, hmore, heq⟩
        obtain ⟨rfl, rfl⟩ := Prod.mk.inj heq
        rcases ih hmore with ⟨rfl, hsize⟩
        refine ⟨rfl, ?_⟩
        rw [byteLength_cons, hsize]
        omega
      · cases h

theorem splitBytes?_eq_some_iff {n : Nat} {cs front rest : List Char} :
    splitBytes? n cs = some (front, rest) ↔ cs = front ++ rest ∧ byteLength front = n := by
  constructor
  · exact eq_append_of_splitBytes?
  · rintro ⟨rfl, rfl⟩
    exact splitBytes?_append front rest

end Text

namespace Span

/-- The text between the two ends of a span, if both are ends of characters. -/
def text? (s : Span) (cs : List Char) : Option (List Char) := do
  let (front, _) ← Text.splitBytes? s.stop cs
  let (_, inside) ← Text.splitBytes? s.start front
  return inside

theorem text?_eq_some_iff {s : Span} {cs w : List Char} :
    s.text? cs = some w ↔ ∃ before after, cs = before ++ (w ++ after) ∧
      s = ⟨Text.byteLength before, Text.byteLength before + Text.byteLength w⟩ := by
  simp only [text?, Option.bind_eq_bind, Option.bind_eq_some_iff, Prod.exists,
    Text.splitBytes?_eq_some_iff, Option.pure_def, Option.some.injEq]
  constructor
  · rintro ⟨front, after, ⟨rfl, hstop⟩, before, _, ⟨rfl, hstart⟩, rfl⟩
    refine ⟨before, after, by simp, ?_⟩
    rw [← Text.byteLength_append, hstart, hstop]
  · rintro ⟨before, after, rfl, rfl⟩
    exact ⟨before ++ w, after, ⟨by simp, by simp⟩, before, w, ⟨rfl, rfl⟩, rfl⟩

/-- One span starts before another one and ends before it starts. -/
def Before (s t : Span) : Prop :=
  s.start < t.start ∧ s.stop ≤ t.start

end Span

/-! ## Clauses inside clauses -/

namespace Clause

/-- One clause stands in another. -/
def Within (c whole : Clause) : Prop :=
  ∃ before after, whole.text = before ++ (c.text ++ after) ∧
    c.offset = whole.offset + Text.byteLength before

theorem Within.trans {b c whole : Clause} (hb : b.Within c) (hc : c.Within whole) :
    b.Within whole := by
  rcases hb with ⟨before, after, hbtext, hboffset⟩
  rcases hc with ⟨front, rest, hctext, hcoffset⟩
  refine ⟨front ++ before, after ++ rest, ?_, ?_⟩
  · simp [hctext, hbtext]
  · simp [hboffset, hcoffset, Nat.add_assoc]

theorem Within.bounds {c whole : Clause} (h : c.Within whole) :
    whole.offset ≤ c.offset ∧ c.stop ≤ whole.stop := by
  rcases h with ⟨before, after, htext, hoffset⟩
  rw [stop, stop, htext, hoffset]
  simp only [Text.byteLength_append]
  omega

theorem offset_lt_stop {c : Clause} (h : c.text ≠ []) : c.offset < c.stop := by
  rcases List.exists_cons_of_ne_nil h with ⟨d, w, hw⟩
  have hpos := d.utf8Size_pos
  rw [stop, hw, Text.byteLength_cons]
  omega

/-- The span of a clause that stands in a text covers its text there. -/
theorem text?_span_of_within {cs : List Char} {c : Clause} (h : c.Within ⟨cs, 0⟩) :
    c.span.text? cs = some c.text := by
  rcases h with ⟨before, after, htext, hoffset⟩
  refine Span.text?_eq_some_iff.2 ⟨before, after, htext, ?_⟩
  rw [span, stop, hoffset, Nat.zero_add]

theorem trimmed_within (c : Clause) : c.trimmed.Within c := by
  rcases Text.exists_blank_rest c.text with ⟨after, -, htext⟩
  exact ⟨c.text.takeWhile Text.isBlank, after, htext, rfl⟩

/-- Trimming takes nothing away from a clause inside that has no blank ends. -/
theorem Within.trimmed {c whole : Clause} (h : c.Within whole) (hc : Text.Dense c.text) :
    c.Within whole.trimmed := by
  rcases h with ⟨before, after, htext, hoffset⟩
  have hblanks : whole.text.takeWhile Text.isBlank = before.takeWhile Text.isBlank := by
    have hstart : (c.text ++ after).takeWhile Text.isBlank = [] := by
      rcases List.exists_cons_of_ne_nil hc.nonempty with ⟨d, w, hw⟩
      rw [hw, List.cons_append, List.takeWhile_cons_of_neg]
      exact Bool.eq_false_iff.1 (hc.first d (by rw [hw]; rfl))
    rw [htext, List.takeWhile_append, hstart]
    split
    · next hall =>
      rw [List.append_nil]
      exact ((List.takeWhile_prefix _).eq_of_length hall).symm
    · rfl
  refine ⟨Text.trimLeft before, Text.trimRight after, ?_, ?_⟩
  · rw [Clause.trimmed, htext, Text.trim_append_dense hc]
  · have hbefore : before.takeWhile Text.isBlank ++ Text.trimLeft before = before :=
      List.takeWhile_append_dropWhile
    calc c.offset = whole.offset + Text.byteLength before := hoffset
      _ = whole.offset + Text.byteLength (before.takeWhile Text.isBlank ++ Text.trimLeft before) :=
          by rw [hbefore]
      _ = whole.trimmed.offset + Text.byteLength (Text.trimLeft before) := by
          rw [Text.byteLength_append, Clause.trimmed, hblanks, Nat.add_assoc]

end Clause

/-! ## Clauses one after another -/

/-- The clauses stand in a text that starts at `offset`, one after another and with gaps between
them. -/
inductive Laid : (offset : Nat) → List Char → List Clause → Prop where
  | nil (offset : Nat) (cs : List Char) : Laid offset cs []
  | cons {offset : Nat} {c : Clause} {cs : List Clause} (gap : List Char) {after : List Char} :
      c.offset = offset + Text.byteLength gap → Laid c.stop after cs →
      Laid offset (gap ++ (c.text ++ after)) (c :: cs)

namespace Laid

variable {offset : Nat} {text : List Char} {cs ds : List Clause}

/-- A clause at the front of a text, and others in what follows it. -/
theorem front (w : List Char) {after : List Char}
    (h : Laid (offset + Text.byteLength w) after cs) :
    Laid offset (w ++ after) (⟨w, offset⟩ :: cs) :=
  .cons (c := ⟨w, offset⟩) [] rfl h

/-- What stands in the rest of a text stands in the text. -/
theorem behind (front : List Char) (h : Laid (offset + Text.byteLength front) text cs) :
    Laid offset (front ++ text) cs := by
  cases h with
  | nil => exact .nil _ _
  | cons gap hoffset hrest =>
    rw [← List.append_assoc]
    apply Laid.cons (front ++ gap) _ hrest
    rw [hoffset, Text.byteLength_append, Nat.add_assoc]

theorem append {more : List Char} (h : Laid offset text cs)
    (hmore : Laid (offset + Text.byteLength text) more ds) :
    Laid offset (text ++ more) (cs ++ ds) := by
  induction h with
  | nil offset text => exact hmore.behind text
  | @cons offset c cs gap after hoffset _ ih =>
    have hafter : offset + Text.byteLength (gap ++ (c.text ++ after)) =
        c.stop + Text.byteLength after := by
      simp only [Clause.stop, hoffset, Text.byteLength_append, Nat.add_assoc]
    rw [hafter] at hmore
    rw [List.append_assoc, List.append_assoc]
    exact .cons gap hoffset (ih hmore)

/-- Some of the clauses stand in the text as all of them do. -/
theorem sublist (h : Laid offset text cs) (hds : ds.Sublist cs) : Laid offset text ds := by
  induction h generalizing ds with
  | nil =>
    rw [List.sublist_nil.1 hds]
    exact .nil _ _
  | @cons offset c cs gap after hoffset _ ih =>
    cases hds with
    | cons _ hrest =>
      -- the clause that is left out widens the gap
      rw [← List.append_assoc]
      apply behind
      rw [Text.byteLength_append, ← Nat.add_assoc, ← hoffset]
      exact ih hrest
    | cons_cons _ hrest => exact .cons gap hoffset (ih hrest)

/-- Clauses that stand in the clauses of a text stand in the text. -/
theorem flatten {parts : List (List Clause)} (h : Laid offset text cs)
    (hparts : List.Forall₂ (fun c part => Laid c.offset c.text part) cs parts) :
    Laid offset text parts.flatten := by
  induction h generalizing parts with
  | nil =>
    rw [List.forall₂_nil_left_iff.1 hparts]
    exact .nil _ _
  | @cons offset c cs gap after hoffset _ ih =>
    rcases List.forall₂_cons_left_iff.1 hparts with ⟨part, rest, hpart, hrest, rfl⟩
    apply behind
    rw [← hoffset]
    exact hpart.append (ih hrest)

theorem map_trimmed (h : Laid offset text cs) : Laid offset text (cs.map Clause.trimmed) := by
  have hparts : List.Forall₂ (fun c part => Laid c.offset c.text part) cs
      (cs.map fun c => [c.trimmed]) := by
    apply List.forall₂_map_right_iff.2
    apply List.forall₂_same.2
    intro c _
    rcases c.trimmed_within with ⟨before, after, htext, hoffset⟩
    rw [htext]
    exact .cons before hoffset (.nil _ _)
  have hflat : (cs.map fun c => [c.trimmed]).flatten = cs.map Clause.trimmed := by
    rw [← List.flatMap_def, ← List.map_eq_flatMap]
  rw [← hflat]
  exact h.flatten hparts

theorem within (h : Laid offset text cs) {c : Clause} (hc : c ∈ cs) : c.Within ⟨text, offset⟩ := by
  induction h with
  | nil => cases hc
  | @cons offset d cs gap after hoffset _ ih =>
    rcases List.mem_cons.1 hc with rfl | hlater
    · exact ⟨gap, after, rfl, hoffset⟩
    · refine (ih hlater).trans ⟨gap ++ d.text, [], by simp, ?_⟩
      simp [Clause.stop, hoffset, Nat.add_assoc]

/-- No clause starts before the end of an earlier one. -/
theorem pairwise (h : Laid offset text cs) : cs.Pairwise fun c d => c.stop ≤ d.offset := by
  induction h with
  | nil => exact .nil
  | cons gap _ hrest ih =>
    apply List.Pairwise.cons _ ih
    intro d hd
    exact (hrest.within hd).bounds.1

/-- Clauses that are not empty have spans one after another. -/
theorem pairwise_span (h : Laid offset text cs) (hne : ∀ c ∈ cs, c.text ≠ []) :
    (cs.map Clause.span).Pairwise Span.Before := by
  rw [List.pairwise_map]
  refine h.pairwise.imp_of_mem fun {c d} hc _ hle => ⟨?_, hle⟩
  exact Nat.lt_of_lt_of_le (Clause.offset_lt_stop (hne c hc)) hle

end Laid

/-! ## The two cuts -/

namespace Declaration

theorem exists_laid_cut (offset : Nat) (before : Option Char) (cs : List Char) :
    ∃ rest, cs = (cut offset before cs).1 ++ rest ∧
      Laid (offset + Text.byteLength (cut offset before cs).1) rest (cut offset before cs).2 := by
  induction cs generalizing offset before with
  | nil => exact ⟨[], rfl, .nil _ _⟩
  | cons c cs ih =>
    rcases ih (offset + c.utf8Size) (some c) with ⟨rest, hcs, hlaid⟩
    rw [Nat.add_assoc, ← Text.byteLength_cons] at hlaid
    rw [cut_cons]
    split
    · -- a piece starts here, with what stood before the first marker so far
      have hpiece := hlaid.front
      rw [List.cons_append, ← hcs] at hpiece
      exact ⟨c :: cs, rfl, hpiece⟩
    · exact ⟨rest, congrArg (c :: ·) hcs, hlaid⟩

/-- What stands before the first marker, and the pieces. -/
theorem laid_cut (offset : Nat) (before : Option Char) (cs : List Char) :
    Laid offset cs (⟨(cut offset before cs).1, offset⟩ :: (cut offset before cs).2) := by
  rcases exists_laid_cut offset before cs with ⟨rest, hcs, hlaid⟩
  have hfront := hlaid.front
  rw [← hcs] at hfront
  exact hfront

/-- The clauses that semicolons close, and what follows the last. -/
theorem laid_split (offset : Nat) (cs : List Char) :
    Laid offset cs ((split offset cs).1 ++ [(split offset cs).2]) := by
  rcases exists_closed cs with ⟨ws, tail, rfl, hws, htail⟩
  induction ws generalizing offset with
  | nil =>
    have hrest : Laid offset (tail ++ []) [⟨tail, offset⟩] := .front tail (.nil _ _)
    simpa [closed, split_of_not_mem htail] using hrest
  | cons w ws ih =>
    simp only [List.forall_mem_cons] at hws
    have hcons : closed (w :: ws) ++ tail = w ++ ([';'] ++ (closed ws ++ tail)) := by simp [closed]
    have hrest := ih (offset + Text.byteLength w + 1) hws.2
    rw [hcons]
    simp only [List.singleton_append, split_append hws.1]
    exact .front w (hrest.behind [';'])

end Declaration

/-! ## Between semicolons -/

/-- The clause is all that stands between two semicolons of a text, but for the blanks around
it. -/
structure Clause.Enclosed (text : List Char) (c : Clause) : Prop where
  between : ∃ front left right back,
    text = front ++ ';' :: (left ++ (c.text ++ (right ++ ';' :: back))) ∧
    c.offset = Text.byteLength (front ++ ';' :: left) ∧ Text.IsBlank left ∧ Text.IsBlank right
  unbroken : ';' ∉ c.text
  dense : Text.Dense c.text

namespace Declaration

/-- The first clause ends at the first semicolon, and the others are those of the rest. -/
theorem split_eq_cons {offset : Nat} {cs : List Char} {c : Clause} {more : List Clause}
    (h : (split offset cs).1 = c :: more) : ∃ rest, cs = c.text ++ ';' :: rest ∧
      c.offset = offset ∧ ';' ∉ c.text ∧
      (split (offset + Text.byteLength c.text + 1) rest).1 = more := by
  rcases exists_closed cs with ⟨ws, tail, rfl, hws, htail⟩
  cases ws with
  | nil => simp [closed, split_of_not_mem htail] at h
  | cons w ws =>
    simp only [List.forall_mem_cons] at hws
    have hcons : closed (w :: ws) ++ tail = w ++ ';' :: (closed ws ++ tail) := by simp [closed]
    rw [hcons, split_append hws.1] at h
    rcases List.cons.inj h with ⟨rfl, hmore⟩
    exact ⟨closed ws ++ tail, hcons, rfl, hws.1, hmore⟩

/-- Every clause but the first stands between two semicolons. -/
theorem between_of_split {offset : Nat} {cs : List Char} {first c : Clause} {more : List Clause}
    (h : (split offset cs).1 = first :: more) (hc : c ∈ more) :
    ∃ front back, cs = front ++ ';' :: (c.text ++ ';' :: back) ∧
      c.offset = offset + Text.byteLength front + 1 ∧ ';' ∉ c.text := by
  induction more generalizing offset cs first with
  | nil => cases hc
  | cons second more ih =>
    rcases split_eq_cons h with ⟨rest, rfl, -, -, hrest⟩
    rcases List.mem_cons.1 hc with rfl | hlater
    · rcases split_eq_cons hrest with ⟨back, rfl, hoffset, hunbroken, -⟩
      exact ⟨first.text, back, rfl, hoffset, hunbroken⟩
    · rcases ih hrest hlater with ⟨front, back, rfl, hoffset, hunbroken⟩
      have hsize : ';'.utf8Size = 1 := by decide
      refine ⟨first.text ++ ';' :: front, back, by simp, ?_, hunbroken⟩
      simp only [Text.byteLength_append, Text.byteLength_cons, hsize]
      omega

/-- The clauses of a declaration that are not blank stand between semicolons of the text. -/
theorem enclosed_of_ofPiece {text : List Char} {piece : Clause} (hpiece : piece.Within ⟨text, 0⟩)
    {d : Declaration} (h : ofPiece piece = .ok d) {c : Clause} (hc : c ∈ d.edges)
    (hne : c.text ≠ []) : c.Enclosed text := by
  rcases ofPiece_eq_ok_iff.1 h with ⟨header, edges, hclosed, -, rfl⟩
  rcases List.mem_map.1 hc with ⟨raw, hraw, rfl⟩
  rcases between_of_split hclosed hraw with ⟨front, back, htext, hoffset, hunbroken⟩
  rcases hpiece with ⟨before, after, hwhole, hplace⟩
  rcases Text.exists_blank_rest raw.text with ⟨right, hright, hrawtext⟩
  have hsize : ';'.utf8Size = 1 := by decide
  refine ⟨⟨before ++ front, raw.text.takeWhile Text.isBlank, right, back ++ after, ?_, ?_, ?_,
    hright⟩, fun hmem => hunbroken (Text.mem_of_mem_trim hmem), Text.dense_trim hne⟩
  · have hexpand : raw.text ++ ';' :: back = raw.text.takeWhile Text.isBlank ++
        (Text.trim raw.text ++ (right ++ ';' :: back)) := by
      conv_lhs => rw [hrawtext]
      simp
    have hall : text = before ++ (piece.text ++ after) := hwhole
    rw [hall, htext, hexpand]
    simp [Clause.trimmed]
  · simp only [Clause.trimmed, hoffset, hplace, Text.byteLength_append, Text.byteLength_cons, hsize]
    omega
  · exact fun d hd => List.mem_takeWhile_imp hd

end Declaration

/-! ## Errors -/

namespace Clause

theorem clause_of_header_error {c : Clause} {e : ReadError} (h : c.header = .error e) :
    e.clause = c := by
  unfold header at h
  split at h
  · split at h
    · cases h
    · rw [← Except.error.inj h]
  · rw [← Except.error.inj h]

theorem clause_of_edge_error {c : Clause} {e : ReadError} (h : c.edge = .error e) :
    e.clause = c := by
  simp only [edge] at h
  split at h
  · rw [← Except.error.inj h]
  · split at h
    · rw [← Except.error.inj h]
    · split at h
      · rw [← Except.error.inj h]
      · split at h
        · cases h
        · rw [← Except.error.inj h]

end Clause

namespace Declaration

/-- The header and the edges stand in the piece that they were split from. -/
theorem laid_of_ofPiece {piece : Clause} {d : Declaration} (h : ofPiece piece = .ok d) :
    Laid piece.offset piece.text (d.header :: d.edges) := by
  rcases ofPiece_eq_ok_iff.1 h with ⟨header, edges, hclosed, -, rfl⟩
  have hlaid := (laid_split piece.offset piece.text).map_trimmed
  rw [hclosed, List.map_append] at hlaid
  exact hlaid.sublist (List.sublist_append_left _ _)

/-- A piece that is not a declaration is reported, or what follows its last semicolon. -/
theorem within_of_ofPiece_error {piece : Clause} {e : ReadError} (h : ofPiece piece = .error e) :
    e.clause.Within piece := by
  simp only [ofPiece] at h
  split at h
  · rw [← Except.error.inj h]
    exact piece.trimmed_within
  · split at h
    · cases h
    · rw [← Except.error.inj h]
      have hrest := (laid_split piece.offset piece.text).within
        (List.mem_append_right _ (List.mem_singleton_self _))
      exact (Clause.trimmed_within _).trans hrest

theorem mem_of_automaton_error {d : Declaration} {e : ReadError} (h : d.automaton = .error e) :
    e.clause ∈ d.header :: d.edges := by
  unfold automaton at h
  rcases Fallible.bind_eq_error_iff.1 h with hheader | ⟨header, -, hedges⟩
  · rw [Clause.clause_of_header_error hheader]
    exact List.mem_cons_self
  · rcases Fallible.bind_eq_error_iff.1 hedges with hmapM | ⟨es, -, hpure⟩
    · rcases Fallible.exists_of_mapM_eq_error hmapM with ⟨c, hc, hedge⟩
      rw [Clause.clause_of_edge_error hedge]
      exact List.mem_cons_of_mem _ hc
    · exact absurd hpure Fallible.pure_ne_error

theorem within_of_scan_error {cs : List Char} {e : ReadError} (h : scan cs = .error e) :
    e.clause.Within ⟨cs, 0⟩ := by
  have hlaid := laid_cut 0 none cs
  simp only [scan] at h
  split at h
  · rcases Fallible.exists_of_mapM_eq_error h with ⟨piece, hpiece, hfails⟩
    exact (within_of_ofPiece_error hfails).trans (hlaid.within (List.mem_cons_of_mem _ hpiece))
  · rw [← Except.error.inj h]
    exact (Clause.trimmed_within _).trans (hlaid.within List.mem_cons_self)

end Declaration

namespace Network

theorem mem_of_declare_error {before : Network} {d : Declaration} {e : ReadError}
    (h : declare before d = .error e) : e.clause ∈ d.header :: d.edges := by
  unfold declare at h
  rcases Fallible.bind_eq_error_iff.1 h with hautomaton | ⟨a, -, hlabel⟩
  · exact Declaration.mem_of_automaton_error hautomaton
  · by_cases hany : before.any (·.label == a.label) = true
    · simp only [hany, if_true] at hlabel
      rcases Fallible.bind_eq_error_iff.1 hlabel with hrepeated | ⟨_, -, hpure⟩
      · rw [← Except.error.inj hrepeated]
        exact List.mem_cons_self
      · exact absurd hpure Fallible.pure_ne_error
    · simp only [hany, Bool.false_eq_true, if_false] at hlabel
      exact absurd hlabel Fallible.pure_ne_error

/-- The clause that an error reports stands in the text. -/
theorem within_of_error {text : String} {e : ReadError} (h : read text = .error e) :
    e.clause.Within ⟨text.toList, 0⟩ := by
  unfold read at h
  rcases Fallible.bind_eq_error_iff.1 h with hscan | ⟨ds, hds, hfold⟩
  · exact Declaration.within_of_scan_error hscan
  · rcases Fallible.exists_of_foldlM_eq_error hfold with ⟨d, hd, before, hfails⟩
    rcases Fallible.exists_of_mem_right (Declaration.scan_eq_ok_iff.1 hds).2 hd with
      ⟨piece, hpiece, hofPiece⟩
    have hclause := (Declaration.laid_of_ofPiece hofPiece).within (mem_of_declare_error hfails)
    exact hclause.trans ((Declaration.laid_cut 0 none _).within (List.mem_cons_of_mem _ hpiece))

end Network

/-! ## Networks -/

/-- The transition `t` of `a` stands in the text where the clause does that it was read from. -/
structure Transition.ReadFrom (text : List Char) (a : Automaton) (c : Clause) (t : Transition) :
    Prop where
  edge : ∃ e, c.edge = .ok e ∧ a.IsEdge t e
  enclosed : c.Enclosed text
  covers : t.span = c.span ∧ t.span.text? text = some c.text
  nonempty : t.span.start < t.span.stop
  inside : a.span.start ≤ t.span.start ∧ t.span.stop ≤ a.span.stop

/-- Everything that was read is located where it stands in the text. -/
structure Network.Located (text : List Char) (net : Network) : Prop where
  sources : ∀ a ∈ net, a.span.text? text = some a.source.toList
  clauses : ∃ ds, Declaration.scan text = .ok ds ∧ List.Forall₂ (fun d a =>
    a.span = d.whole.span ∧
      List.Forall₂ (Transition.ReadFrom text a) d.edges a.transitions) ds net
  automata : (net.map Automaton.span).Pairwise Span.Before
  transitions : (net.flatMap fun a => a.transitions.map Transition.span).Pairwise Span.Before

theorem Clause.ne_nil_of_edge {c : Clause} {e : Edge} (h : c.edge = .ok e) : c.text ≠ [] := by
  intro hnil
  rcases edge_eq_ok_iff.1 h with ⟨raw, hraw, -⟩
  have hnone : edge? [] = none := by decide
  rw [hnil, hnone] at hraw
  cases hraw

namespace Declaration

variable {piece : Clause} {d : Declaration} {a : Automaton}

/-- The transitions of an automaton are the clauses of its declaration. -/
theorem clauses_of_automaton (h : d.automaton = .ok a) :
    List.Forall₂ (fun c t => ∃ e, c.edge = .ok e ∧ a.IsEdge t e ∧ t.span = c.span) d.edges
      a.transitions := by
  rcases automaton_eq_ok_iff.1 h with ⟨header, es, -, hes, rfl⟩
  have hspans : List.Forall₂ Eq
      ((Automaton.ofEdges header d.whole es).transitions.map Transition.span)
      (es.map Edge.span) := by
    rw [Automaton.spans_ofEdges, List.forall₂_eq_eq_eq]
  rw [List.forall₂_map_left_iff, List.forall₂_map_right_iff] at hspans
  have htransitions := Fallible.forall₂_and
    (Automaton.represents_ofEdges header d.whole es).edges hspans
  refine Fallible.forall₂_comp_iff.2 ⟨es, hes, htransitions.flip⟩ |>.imp ?_
  rintro c t ⟨e, hedge, hist, hspan⟩
  refine ⟨e, hedge, hist, hspan.trans ?_⟩
  rcases Clause.edge_eq_ok_iff.1 hedge with ⟨raw, -, -, he⟩
  rw [he]

/-- The declarations of a text stand in it one after another. -/
theorem laid_of_scan {cs : List Char} {ds : List Declaration} (h : scan cs = .ok ds) :
    Laid 0 cs (ds.map whole) ∧ Laid 0 cs (ds.map edges).flatten := by
  have hpieces := (scan_eq_ok_iff.1 h).2
  have hlaid : Laid 0 cs (cut 0 none cs).2 :=
    (laid_cut 0 none cs).sublist (List.sublist_cons_self _ _)
  constructor
  · have hwhole : ds.map whole = (cut 0 none cs).2.map Clause.trimmed := by
      rw [← List.forall₂_eq_eq_eq, List.forall₂_map_left_iff, List.forall₂_map_right_iff]
      exact hpieces.flip.imp fun _ _ hd => whole_of_ofPiece hd
    rw [hwhole]
    exact hlaid.map_trimmed
  · apply hlaid.flatten
    apply List.forall₂_map_right_iff.2
    exact hpieces.imp fun _ _ hd => (laid_of_ofPiece hd).sublist (List.sublist_cons_self _ _)

theorem exists_piece {cs : List Char} {ds : List Declaration} (h : scan cs = .ok ds)
    (hd : d ∈ ds) : ∃ piece, piece.Within ⟨cs, 0⟩ ∧ ofPiece piece = .ok d := by
  rcases Fallible.exists_of_mem_right (scan_eq_ok_iff.1 h).2 hd with ⟨piece, hpiece, hofPiece⟩
  exact ⟨piece, (laid_cut 0 none cs).within (List.mem_cons_of_mem _ hpiece), hofPiece⟩

/-- A declaration is not empty. -/
theorem whole_ne_nil {cs : List Char} {ds : List Declaration} (h : scan cs = .ok ds)
    (hd : d ∈ ds) : d.whole.text ≠ [] := by
  rcases exists_piece h hd with ⟨piece, -, hofPiece⟩
  rw [whole_of_ofPiece hofPiece]
  intro hnil
  exact absurd (Text.trim_eq_nil_iff.1 hnil _ (mem_of_ofPiece hofPiece)) (by decide)

/-- The automaton of a declaration stands where the declaration does, and its transitions where
the clauses do. -/
theorem readFrom_of_scan {cs : List Char} {ds : List Declaration} (h : scan cs = .ok ds)
    (hd : d ∈ ds) (ha : d.automaton = .ok a) :
    a.span = d.whole.span ∧ a.source.toList = d.whole.text ∧
      List.Forall₂ (Transition.ReadFrom cs a) d.edges a.transitions := by
  rcases exists_piece h hd with ⟨piece, hpiece, hofPiece⟩
  have hclauses := clauses_of_automaton ha
  have hplace : a.span = d.whole.span ∧ a.source.toList = d.whole.text := by
    rcases automaton_eq_ok_iff.1 ha with ⟨header, es, -, -, rfl⟩
    rw [Automaton.span_ofEdges, Automaton.source_ofEdges, String.toList_ofList]
    exact ⟨rfl, rfl⟩
  refine ⟨hplace.1, hplace.2, Fallible.forall₂_imp_of_mem hclauses ?_⟩
  rintro c hc t - ⟨e, hedge, hist, hspan⟩
  have hne := Clause.ne_nil_of_edge hedge
  have henclosed := enclosed_of_ofPiece hpiece hofPiece hc hne
  have hwithin : c.Within piece := (laid_of_ofPiece hofPiece).within (List.mem_cons_of_mem _ hc)
  refine ⟨⟨e, hedge, hist⟩, henclosed, ⟨hspan, ?_⟩, ?_, ?_⟩
  · rw [hspan]
    exact Clause.text?_span_of_within (hwithin.trans hpiece)
  · rw [hspan]
    exact Clause.offset_lt_stop hne
  · rw [hspan, hplace.1, whole_of_ofPiece hofPiece]
    exact (hwithin.trimmed henclosed.dense).bounds

end Declaration

namespace Network

variable {text : String} {net : Network}

theorem exists_declarations_of_read (h : read text = .ok net) :
    ∃ ds, Declaration.scan text.toList = .ok ds ∧
      List.Forall₂ (fun d a => d.automaton = .ok a) ds net := by
  unfold read at h
  rcases Fallible.bind_eq_ok_iff.1 h with ⟨ds, hds, hfold⟩
  have hnil : (([] : Network).map Automaton.label).Nodup := by simp
  rcases (foldlM_declare_eq_ok_iff hnil).1 hfold with ⟨more, hmore, rfl, -⟩
  exact ⟨ds, hds, hmore⟩

/-- The spans of all transitions are those of the clauses they were read from. -/
theorem flatMap_spans {cs : List Char} {ds : List Declaration}
    (h : List.Forall₂ (fun d a => List.Forall₂ (Transition.ReadFrom cs a) d.edges a.transitions)
      ds net) :
    (net.flatMap fun a => a.transitions.map Transition.span) =
      (ds.map Declaration.edges).flatten.map Clause.span := by
  induction h with
  | nil => rfl
  | @cons d a ds net hrow _ ih =>
    have hspans : a.transitions.map Transition.span = d.edges.map Clause.span := by
      rw [← List.forall₂_eq_eq_eq, List.forall₂_map_left_iff, List.forall₂_map_right_iff]
      exact hrow.flip.imp fun _ _ hread => hread.covers.1
    rw [List.flatMap_cons, ih, hspans, List.map_cons, List.flatten_cons, List.map_append]

theorem located_of_read (h : read text = .ok net) : Located text.toList net := by
  rcases exists_declarations_of_read h with ⟨ds, hds, hautomata⟩
  rcases Declaration.laid_of_scan hds with ⟨hwhole, hedges⟩
  have hrows := Fallible.forall₂_imp_of_mem hautomata
    fun d hd a _ ha => Declaration.readFrom_of_scan hds hd ha
  refine ⟨?_, ⟨ds, hds, hrows.imp fun _ _ hrow => ⟨hrow.1, hrow.2.2⟩⟩, ?_, ?_⟩
  · intro a ha
    rcases Fallible.exists_of_mem_right hrows ha with ⟨d, hd, hspan, hsource, -⟩
    rw [hspan, hsource]
    exact Clause.text?_span_of_within (hwhole.within (List.mem_map_of_mem hd))
  · have hspans : net.map Automaton.span = (ds.map Declaration.whole).map Clause.span := by
      rw [List.map_map, ← List.forall₂_eq_eq_eq, List.forall₂_map_left_iff,
        List.forall₂_map_right_iff]
      exact hrows.flip.imp fun _ _ hrow => hrow.1
    rw [hspans]
    apply hwhole.pairwise_span
    intro c hc
    rcases List.mem_map.1 hc with ⟨d, hd, rfl⟩
    exact Declaration.whole_ne_nil hds hd
  · rw [flatMap_spans (hrows.imp fun _ _ hrow => hrow.2.2)]
    apply hedges.pairwise_span
    intro c hc
    rcases List.mem_flatten.1 hc with ⟨part, hpart, hcpart⟩
    rcases List.mem_map.1 hpart with ⟨d, hd, rfl⟩
    rcases Fallible.exists_of_mem_left hrows hd with ⟨a, -, -, -, hread⟩
    rcases Fallible.exists_of_mem_left hread hcpart with ⟨t, -, ht⟩
    exact ht.enclosed.dense.nonempty

/-- Every location that reading a text reports is exact: the text at the span of an error is its
snippet, and what is read is located where it stands. -/
theorem read_locates (text : String) :
    (∀ e, read text = .error e →
      e.span = ⟨e.clause.offset, e.clause.offset + e.snippet.utf8ByteSize⟩ ∧
        e.span.text? text.toList = some e.snippet.toList) ∧
    ∀ net, read text = .ok net → Located text.toList net := by
  refine ⟨fun e he => ⟨?_, ?_⟩, fun net hnet => located_of_read hnet⟩
  · rw [ReadError.snippet, ← Text.byteLength_toList, String.toList_ofList]
    rfl
  · rw [ReadError.snippet, String.toList_ofList]
    exact Clause.text?_span_of_within (within_of_error he)

/-- Blanks of two and three bytes stand before and after what is located. -/
theorem read_locates_among_wide_blanks :
    (∃ e, read "\u3000Cta A=Init s;\u00a0s m()s ;" = .error e ∧ e.span = ⟨18, 24⟩ ∧
      e.span.text? "\u3000Cta A=Init s;\u00a0s m()s ;".toList = some "s m()s".toList) ∧
    ∃ net, read "\u3000Cta A=Init s;\u00a0s B!m()s\u2003;\u3000Cta B=Init s; s A?m()s;" = .ok net ∧
      net.map Automaton.span = [⟨3, 30⟩, ⟨33, 56⟩] ∧
      (net.flatMap fun a => a.transitions.map Transition.span) = [⟨18, 26⟩, ⟨47, 55⟩] ∧
      Located "\u3000Cta A=Init s;\u00a0s B!m()s\u2003;\u3000Cta B=Init s; s A?m()s;".toList
        net := by
  constructor
  · have hclause : (match read "\u3000Cta A=Init s;\u00a0s m()s ;" with
        | .error e => some e.clause
        | .ok _ => none) = some ⟨"s m()s".toList, 18⟩ := by decide +kernel
    cases hread : read "\u3000Cta A=Init s;\u00a0s m()s ;" with
    | ok net =>
      rw [hread] at hclause
      cases hclause
    | error e =>
      rw [hread] at hclause
      have he : e.clause = ⟨"s m()s".toList, 18⟩ := Option.some.inj hclause
      have hspan : e.span = ⟨18, 24⟩ := by
        rw [ReadError.span, he]
        rfl
      have hlocated := ((read_locates _).1 e hread).2
      rw [ReadError.snippet, he, String.toList_ofList] at hlocated
      exact ⟨e, rfl, hspan, hlocated⟩
  · rcases Fallible.exists_ok_of_any
      (x := read "\u3000Cta A=Init s;\u00a0s B!m()s\u2003;\u3000Cta B=Init s; s A?m()s;")
      (P := fun net => net.map Automaton.span = [⟨3, 30⟩, ⟨33, 56⟩] ∧
        (net.flatMap fun a => a.transitions.map Transition.span) = [⟨18, 26⟩, ⟨47, 55⟩])
      (by decide +kernel) with ⟨net, hnet, hautomata, htransitions⟩
    exact ⟨net, hnet, hautomata, htransitions, (read_locates _).2 net hnet⟩

end Network
end TimedAutomata
