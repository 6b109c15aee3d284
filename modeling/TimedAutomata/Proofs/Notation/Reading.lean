import TimedAutomata.Proofs.Automaton.Growth
import TimedAutomata.Proofs.Notation.Clauses
import TimedAutomata.Proofs.Notation.Scanning

/-!
# What is read as a network

A text is read as a network exactly if each of its pieces is read as an automaton and no label
is used twice.

* `Declaration.automaton_eq_ok_iff`: one declaration
* `Network.read_eq_ok_iff`: a whole text
* `Parts`: the header and the edges that an automaton is made from
* `Network.exists_parts_of_read`: every automaton that was read is made from parts in the notation
-/

namespace TimedAutomata

/-! ## Declarations -/

namespace Declaration

theorem scan_eq_ok_iff {cs : List Char} {ds : List Declaration} :
    scan cs = .ok ds ↔ Text.IsBlank (cut 0 none cs).1 ∧
      List.Forall₂ (fun piece d => ofPiece piece = .ok d) (cut 0 none cs).2 ds := by
  rw [← Text.trim_eq_nil_iff, ← Fallible.mapM_eq_ok_iff]
  by_cases h : Text.trim (cut 0 none cs).1 = [] <;> simp [scan, Clause.trimmed, h]

theorem automaton_eq_ok_iff {d : Declaration} {a : Automaton} :
    d.automaton = .ok a ↔ ∃ header es, d.header.header = .ok header ∧
      List.Forall₂ (fun c e => c.edge = .ok e) d.edges es ∧
      Automaton.ofEdges header d.whole es = a := by
  simp only [automaton, Fallible.bind_eq_ok_iff, Fallible.pure_eq_ok_iff, Fallible.mapM_eq_ok_iff,
    exists_and_left]

end Declaration

/-! ## Networks -/

namespace Network

theorem declare_eq_ok_iff {before net : Network} {d : Declaration} :
    declare before d = .ok net ↔ ∃ a, d.automaton = .ok a ∧
      a.label ∉ before.map Automaton.label ∧ net = before ++ [a] := by
  simp only [declare, Fallible.bind_eq_ok_iff]
  refine exists_congr fun a => and_congr_right fun _ => ?_
  by_cases h : a.label ∈ before.map Automaton.label
  · have hany : before.any (·.label == a.label) = true := by simpa using h
    simp only [hany, if_true, Fallible.bind_eq_ok_iff, Fallible.throw_eq_ok_iff, h]
    simp
  · have hany : before.any (·.label == a.label) = false := by simpa using h
    simp only [hany, Bool.false_eq_true, if_false, Fallible.pure_eq_ok_iff, h, not_false_iff,
      true_and]
    exact eq_comm

theorem nodup_labels_concat {before : Network} {a : Automaton}
    (hb : (before.map Automaton.label).Nodup) (ha : a.label ∉ before.map Automaton.label) :
    ((before ++ [a]).map Automaton.label).Nodup := by
  rw [List.map_append]
  exact List.nodup_append.2 ⟨hb, by simp, by simpa using ha⟩

theorem foldlM_declare_eq_ok_iff {ds : List Declaration} {before net : Network}
    (hb : (before.map Automaton.label).Nodup) :
    ds.foldlM declare before = .ok net ↔
      ∃ more, List.Forall₂ (fun d a => d.automaton = .ok a) ds more ∧ net = before ++ more ∧
        (net.map Automaton.label).Nodup := by
  induction ds generalizing before with
  | nil =>
    simp only [List.foldlM_nil, Fallible.pure_eq_ok_iff, List.forall₂_nil_left_iff,
      exists_eq_left, List.append_nil]
    exact ⟨fun h => ⟨h.symm, h ▸ hb⟩, fun h => h.1.symm⟩
  | cons d ds ih =>
    simp only [List.foldlM_cons, Fallible.bind_eq_ok_iff, declare_eq_ok_iff]
    constructor
    · rintro ⟨_, ⟨a, ha, hlabel, rfl⟩, hrest⟩
      have hsnoc := nodup_labels_concat hb hlabel
      obtain ⟨more, hmore, rfl, hnodup⟩ := (ih hsnoc).1 hrest
      exact ⟨a :: more, .cons ha hmore, by simp, hnodup⟩
    · rintro ⟨more, hmore, hnet, hnodup⟩
      obtain ⟨a, more', ha, hmore', rfl⟩ := List.forall₂_cons_left_iff.1 hmore
      rw [List.append_cons] at hnet
      have hsnoc : ((before ++ [a]).map Automaton.label).Nodup := by
        rw [hnet, List.map_append] at hnodup
        exact (List.nodup_append.1 hnodup).1
      refine ⟨before ++ [a], ⟨a, ha, ?_, rfl⟩, (ih hsnoc).2 ⟨more', hmore', hnet, hnodup⟩⟩
      rw [List.map_append] at hsnoc
      intro hmem
      exact (List.nodup_append.1 hsnoc).2.2 _ hmem a.label (by simp) rfl

/-- The automaton written as a piece of a text. -/
def IsWritten (piece : Clause) (a : Automaton) : Prop :=
  ∃ d, Declaration.ofPiece piece = .ok d ∧ d.automaton = .ok a

/-- A text is read as a network exactly if its pieces are read one by one, nothing but blanks
stands before them and no label is used twice. -/
theorem read_eq_ok_iff {text : String} {net : Network} :
    read text = .ok net ↔ Text.IsBlank (Declaration.cut 0 none text.toList).1 ∧
      List.Forall₂ IsWritten (Declaration.cut 0 none text.toList).2 net ∧
      (net.map Automaton.label).Nodup := by
  have hnil : (([] : Network).map Automaton.label).Nodup := by simp
  simp only [read, Fallible.bind_eq_ok_iff, Declaration.scan_eq_ok_iff,
    foldlM_declare_eq_ok_iff hnil, List.nil_append]
  constructor
  · rintro ⟨ds, ⟨hblank, hds⟩, more, hmore, rfl, hnodup⟩
    refine ⟨hblank, ?_, hnodup⟩
    exact Fallible.forall₂_comp_iff.2 ⟨ds, hds, hmore⟩
  · rintro ⟨hblank, hwritten, hnodup⟩
    obtain ⟨ds, hds, hnet⟩ := Fallible.forall₂_comp_iff.1 hwritten
    exact ⟨ds, ⟨hblank, hds⟩, net, hnet, rfl, hnodup⟩

end Network

/-! ## Automata that were read -/

/-- What an automaton is made from. -/
structure Parts where
  header : Header
  source : Clause
  edges : List Edge

namespace Parts

def automaton (p : Parts) : Automaton :=
  Automaton.ofEdges p.header p.source p.edges

/-- The header and the edges are in the notation. -/
structure Written (p : Parts) : Prop where
  header : p.header.Written
  edges : ∀ e ∈ p.edges, e.Written

theorem represents (p : Parts) : p.automaton.Represents p.header p.edges :=
  Automaton.represents_ofEdges p.header p.source p.edges

theorem wellFormed (p : Parts) : p.automaton.WellFormed :=
  Automaton.wellFormed_ofEdges p.header p.source p.edges

end Parts

theorem Declaration.exists_parts {d : Declaration} {a : Automaton} (h : d.automaton = .ok a) :
    ∃ p : Parts, p.Written ∧ p.automaton = a := by
  obtain ⟨header, es, hheader, hes, rfl⟩ := automaton_eq_ok_iff.1 h
  refine ⟨⟨header, d.whole, es⟩, ⟨?_, ?_⟩, rfl⟩
  · exact (header?_eq_some_iff.1 (Clause.header_eq_ok_iff.1 hheader)).1
  · intro e he
    obtain ⟨c, -, hc⟩ := Fallible.exists_of_mem_right hes he
    exact Clause.written_of_edge hc

namespace Network

theorem nodup_labels_of_read {text : String} {net : Network} (h : read text = .ok net) :
    (net.map Automaton.label).Nodup :=
  (read_eq_ok_iff.1 h).2.2

theorem exists_parts_of_pieces {pieces : List Clause} {net : Network}
    (h : List.Forall₂ IsWritten pieces net) :
    ∃ ps : List Parts, (∀ p ∈ ps, p.Written) ∧ ps.map Parts.automaton = net := by
  induction h with
  | nil => exact ⟨[], by simp, rfl⟩
  | cons hhead _ ih =>
    obtain ⟨d, -, hd⟩ := hhead
    obtain ⟨p, hp, rfl⟩ := Declaration.exists_parts hd
    obtain ⟨ps, hps, rfl⟩ := ih
    exact ⟨p :: ps, by simpa using ⟨hp, hps⟩, rfl⟩

/-- Every network that was read is made from parts in the notation. -/
theorem exists_parts_of_read {text : String} {net : Network} (h : read text = .ok net) :
    ∃ ps : List Parts, (∀ p ∈ ps, p.Written) ∧ ps.map Parts.automaton = net :=
  exists_parts_of_pieces (read_eq_ok_iff.1 h).2.1

end Network
end TimedAutomata
