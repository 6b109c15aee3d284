import Mathlib.Data.List.Infix
import Mathlib.Data.List.Nodup
import TimedAutomata.CommandLine.Run
import TimedAutomata.Proofs.Notation.Cutting
import TimedAutomata.Proofs.Notation.Shifting

/-!
# Joining texts

Texts in the notation are joined with a line feed behind each. A declaration of the joined text
reaches to the next marker, so the last one of a text takes in the line feed and what stands
before the first marker of the next text. All of that is blank, and no marker spans the seam.

* `Declaration.cut_append_line`: the cuts of two texts and the cut of the joined text
* `Declaration.ofPiece_of_pads`: blanks behind a piece make no difference
* `Declaration.scan_append_line`, `Declaration.scan_joined`: the declarations of a joined text
* `CommandLine.placed`: what was found in the texts one by one, as it stands in the joined text
* `Network.exists_repeated`: where a label is repeated for the first time, reading stops
* `Network.read_joined`: what is read from texts that are joined
-/

namespace TimedAutomata

open CommandLine (joined)

namespace Declaration

/-! ## The seam -/

/-- A marker spans no line feed. -/
theorem startsAt_append_line (before : Option Char) (c : Char) (cs rest : List Char) :
    startsAt before (c :: (cs ++ '\n' :: rest)) = startsAt before (c :: cs) := by
  have hprefix : marker.isPrefixOf (c :: (cs ++ '\n' :: rest)) = marker.isPrefixOf (c :: cs) := by
    -- the marker has four characters, so at most three of `cs` are looked at
    match cs with
    | [] => simp [marker, List.isPrefixOf]
    | [_] => simp [marker, List.isPrefixOf]
    | [_, _] => simp [marker, List.isPrefixOf]
    | _ :: _ :: _ :: _ => simp [marker, List.isPrefixOf]
  rw [startsAt, startsAt, hprefix]

/-- The start of a text and the start of a line are alike. -/
theorem cut_line (offset : Nat) (cs : List Char) :
    cut offset (some '\n') cs = cut offset none cs := by
  have hopens : opensAfter (some '\n') = opensAfter none := by decide
  cases cs with
  | nil => rfl
  | cons c cs => rw [cut_cons, cut_cons, startsAt, startsAt, hopens]

/-- The piece with blanks behind it. -/
def Pads (piece padded : Clause) : Prop :=
  ∃ tail, Text.IsBlank tail ∧ padded = ⟨piece.text ++ tail, piece.offset⟩

/-- Two texts with a line feed between them are cut as each of them is, if the second starts with
blanks only. These go to the end of the first text: to its last piece or, if it has none, to what
stands before its first marker. -/
theorem cut_append_line (offset : Nat) (before : Option Char) (cs : List Char) {rest : List Char}
    {head : List Char} {pieces : List Clause} (hblank : Text.IsBlank head)
    (hrest : cut (offset + Text.byteLength cs + 1) none rest = (head, pieces)) :
    ∃ tail front, Text.IsBlank tail ∧ List.Forall₂ Pads (cut offset before cs).2 front ∧
      cut offset before (cs ++ '\n' :: rest) =
        ((cut offset before cs).1 ++ tail, front ++ pieces) := by
  induction cs generalizing offset before with
  | nil =>
    have hline : Text.isBlank '\n' = true := by decide
    have hsize : '\n'.utf8Size = 1 := by decide
    refine ⟨'\n' :: head, [], by simpa [Text.IsBlank, hline] using hblank, .nil, ?_⟩
    simp only [Text.byteLength_nil, Nat.add_zero] at hrest
    simp [cut_cons, startsAt_eq_false_of_ne, hsize, cut_line, hrest, cut]
  | cons c cs ih =>
    rw [Text.byteLength_cons, ← Nat.add_assoc] at hrest
    rcases ih (offset + c.utf8Size) (some c) hrest with ⟨tail, front, htail, hfront, hcut⟩
    rw [List.cons_append, cut_cons, cut_cons, startsAt_append_line, hcut]
    by_cases hstarts : startsAt before (c :: cs) = true
    · -- the piece that starts here takes in what the rest of the text left over
      simp only [if_pos hstarts]
      refine ⟨[], _ :: front, by simp [Text.IsBlank], .cons ⟨tail, htail, rfl⟩ hfront, by simp⟩
    · simp only [if_neg hstarts]
      exact ⟨tail, front, htail, hfront, by simp⟩

/-! ## Padded pieces -/

theorem split_append_rest {tail : List Char} (h : ';' ∉ tail) (offset : Nat) (cs : List Char) :
    split offset (cs ++ tail) =
      ((split offset cs).1, ⟨(split offset cs).2.text ++ tail, (split offset cs).2.offset⟩) := by
  induction cs generalizing offset with
  | nil => simp [split, split_of_not_mem h]
  | cons c cs ih =>
    simp only [List.cons_append, split, ih]
    split
    · rfl
    · cases (split (offset + c.utf8Size) cs).1 <;> rfl

theorem trimmed_append {c : Clause} {tail : List Char} (h : ¬ Text.IsBlank c.text)
    (htail : Text.IsBlank tail) : Clause.trimmed ⟨c.text ++ tail, c.offset⟩ = c.trimmed := by
  have hlength : (c.text.takeWhile Text.isBlank).length ≠ c.text.length := by
    intro hall
    apply h
    rw [← (List.takeWhile_prefix Text.isBlank).eq_of_length hall]
    exact fun d hd => List.mem_takeWhile_imp hd
  simp only [Clause.trimmed, Text.trim_append_of_isBlank htail, List.takeWhile_append,
    if_neg hlength]

/-- A declaration does not depend on the blanks behind it. -/
theorem ofPiece_of_pads {piece padded : Clause} {d : Declaration} (hpads : Pads piece padded)
    (h : ofPiece piece = .ok d) : ofPiece padded = .ok d := by
  rcases hpads with ⟨tail, htail, rfl⟩
  have hsemicolon : Text.isBlank ';' ≠ true := by decide
  have hvisible : ¬ Text.IsBlank piece.text := fun hblank =>
    hsemicolon (hblank _ (mem_of_ofPiece h))
  have hmem : ';' ∉ tail := fun hmem => hsemicolon (htail _ hmem)
  rcases ofPiece_eq_ok_iff.1 h with ⟨header, edges, hclosed, hblank, rfl⟩
  refine ofPiece_eq_ok_iff.2 ⟨header, edges, ?_, ?_, ?_⟩
  · rw [split_append_rest hmem, hclosed]
  · rw [split_append_rest hmem]
    exact List.forall_mem_append.2 ⟨hblank, htail⟩
  · rw [trimmed_append hvisible htail]

/-- The declarations of two texts with a line feed between them. -/
theorem scan_append_line {cs rest : List Char} {ds es : List Declaration} (h : scan cs = .ok ds)
    (hrest : scan rest = .ok es) :
    scan (cs ++ '\n' :: rest) = .ok (ds ++ es.map (shift (Text.byteLength cs + 1))) := by
  rcases scan_eq_ok_iff.1 h with ⟨hhead, hpieces⟩
  rcases scan_eq_ok_iff.1 hrest with ⟨hblank, hmore⟩
  have hmoved := cut_add (Text.byteLength cs + 1) 0 none rest
  rw [Nat.add_zero, ← Nat.zero_add (Text.byteLength cs + 1), ← Nat.add_assoc] at hmoved
  rcases cut_append_line 0 none cs hblank hmoved with ⟨tail, front, htail, hfront, hcut⟩
  rw [scan_eq_ok_iff, hcut]
  -- the pieces of the first text are padded, those of the second are moved
  refine ⟨List.forall_mem_append.2 ⟨hhead, htail⟩, List.rel_append ?_ ?_⟩
  · have hpadded := Fallible.forall₂_comp_iff.2 ⟨_, hfront.flip, hpieces⟩
    apply hpadded.imp
    rintro padded d ⟨piece, hpads, hpiece⟩
    exact ofPiece_of_pads hpads hpiece
  · apply List.forall₂_map_left_iff.2
    apply List.forall₂_map_right_iff.2
    apply hmore.imp
    intro piece d hpiece
    rw [Nat.zero_add]
    exact ofPiece_shift hpiece _

end Declaration

/-! ## Many texts -/

namespace CommandLine

variable {α β : Type} {shift : Nat → α → α} {shift' : Nat → β → β}

/-- What was found in each of the texts, as it stands in the joined text: moved by the bytes of
all the texts before. -/
def placed (shift : Nat → α → α) (texts : List String) (found : List (List α)) : List α :=
  (texts.inits.zipWith (fun before part => part.map (shift (joined before).utf8ByteSize))
    found).flatten

theorem toList_joined_cons (t : String) (texts : List String) :
    (joined (t :: texts)).toList = t.toList ++ '\n' :: (joined texts).toList := by
  simp [joined]

theorem utf8ByteSize_joined_cons (t : String) (texts : List String) :
    (joined (t :: texts)).utf8ByteSize =
      Text.byteLength t.toList + 1 + (joined texts).utf8ByteSize := by
  have hsize : '\n'.utf8Size = 1 := by decide
  simp only [← Text.byteLength_toList, toList_joined_cons, Text.byteLength_append,
    Text.byteLength_cons, hsize, Nat.add_assoc]

theorem placed_cons (hzero : ∀ a, shift 0 a = a)
    (hadd : ∀ k l a, shift k (shift l a) = shift (k + l) a) (t : String) (texts : List String)
    (part : List α) (found : List (List α)) :
    placed shift (t :: texts) (part :: found) =
      part ++ (placed shift texts found).map (shift (Text.byteLength t.toList + 1)) := by
  have hfirst : part.map (shift (joined []).utf8ByteSize) = part := by
    have hsize : (joined []).utf8ByteSize = 0 := by simp [joined]
    rw [hsize]
    exact List.map_id'' hzero part
  simp only [placed, List.inits_cons, List.zipWith_cons_cons, List.flatten_cons, hfirst,
    List.zipWith_map_left, List.map_flatten, List.map_zipWith, List.map_map, Function.comp_def,
    hadd, utf8ByteSize_joined_cons]

/-- Moving keeps what holds between the things found in two rounds over the texts. -/
theorem forall₂_placed {R : α → β → Prop} (hR : ∀ k a b, R a b → R (shift k a) (shift' k b))
    (texts : List String) {as : List (List α)} {bs : List (List β)}
    (h : List.Forall₂ (List.Forall₂ R) as bs) :
    List.Forall₂ R (placed shift texts as) (placed shift' texts bs) := by
  unfold placed
  generalize texts.inits = fronts
  induction h generalizing fronts with
  | nil => simp
  | cons hpart _ ih =>
    cases fronts with
    | nil => simp
    | cons front fronts =>
      apply List.rel_append
      · apply List.forall₂_map_left_iff.2
        apply List.forall₂_map_right_iff.2
        exact hpart.imp fun a b => hR _ a b
      · exact ih fronts

end CommandLine

open CommandLine (placed placed_cons forall₂_placed toList_joined_cons)

/-- The declarations of joined texts. -/
theorem Declaration.scan_joined {texts : List String} {dss : List (List Declaration)}
    (h : List.Forall₂ (fun t ds => scan t.toList = .ok ds) texts dss) :
    scan (joined texts).toList = .ok (placed shift texts dss) := by
  induction h with
  | nil => rfl
  | cons hfirst _ ih =>
    rw [toList_joined_cons, placed_cons shift_zero shift_shift]
    exact scan_append_line hfirst ih

namespace Network

/-- No label is used in two of the networks. -/
def Apart (nets : List Network) : Prop :=
  nets.Pairwise fun m n => ∀ a ∈ m, ∀ b ∈ n, a.label ≠ b.label

instance (nets : List Network) : Decidable (Apart nets) :=
  inferInstanceAs (Decidable (nets.Pairwise _))

theorem labels_placed {texts : List String} {nets : List Network}
    (h : texts.length = nets.length) :
    (placed Automaton.shift texts nets).map Automaton.label =
      (nets.map fun net => net.map Automaton.label).flatten := by
  induction texts generalizing nets with
  | nil =>
    obtain rfl := List.length_eq_zero_iff.1 h.symm
    rfl
  | cons t texts ih =>
    cases nets with
    | nil => simp at h
    | cons net nets =>
      rw [placed_cons Automaton.shift_zero Automaton.shift_shift, List.map_append, List.map_map,
        List.map_cons, List.flatten_cons, ← ih (by simpa using h)]
      rfl

/-- The labels of all networks differ exactly if no two networks share one. -/
theorem nodup_labels_placed_iff {texts : List String} {nets : List Network}
    (h : List.Forall₂ (fun t net => read t = .ok net) texts nets) :
    ((placed Automaton.shift texts nets).map Automaton.label).Nodup ↔ Apart nets := by
  have hown : ∀ net ∈ nets, (net.map Automaton.label).Nodup := by
    intro net hnet
    rcases Fallible.exists_of_mem_right h hnet with ⟨t, -, ht⟩
    exact nodup_labels_of_read ht
  rw [labels_placed h.length_eq, List.nodup_flatten, List.pairwise_map, Apart]
  constructor
  · rintro ⟨-, hpair⟩
    apply hpair.imp
    intro m n hdisjoint a ha b hb heq
    exact hdisjoint (List.mem_map_of_mem ha) (heq ▸ List.mem_map_of_mem hb)
  · intro hpair
    refine ⟨by simpa using hown, hpair.imp ?_⟩
    intro m n happart label hm hn
    rcases List.mem_map.1 hm with ⟨a, ha, rfl⟩
    rcases List.mem_map.1 hn with ⟨b, hb, heq⟩
    exact happart a ha b hb heq.symm

/-- If labels are repeated, the first declaration that repeats one is at fault. -/
theorem exists_repeated {ds : List Declaration} {more : Network}
    (h : List.Forall₂ (fun d a => d.automaton = .ok a) ds more) {before : Network}
    (hb : (before.map Automaton.label).Nodup)
    (hmore : ¬ ((before ++ more).map Automaton.label).Nodup) :
    ∃ k d a, ds[k]? = some d ∧ more[k]? = some a ∧ d.automaton = .ok a ∧
      ((before ++ more.take k).map Automaton.label).Nodup ∧
      a.label ∈ (before ++ more.take k).map Automaton.label ∧
      ds.foldlM declare before = .error ⟨.duplicateLabel a.label, d.header⟩ := by
  induction h generalizing before with
  | nil => exact absurd hb (by simpa using hmore)
  | @cons d a ds more hd _ ih =>
    by_cases hmem : a.label ∈ before.map Automaton.label
    · have hany : before.any (·.label == a.label) = true := by simpa using hmem
      have hdeclare : declare before d = .error ⟨.duplicateLabel a.label, d.header⟩ := by
        simp [declare, hd, hany, bind, Except.bind, throw, throwThe, MonadExceptOf.throw]
      refine ⟨0, d, a, rfl, rfl, hd, by simpa using hb, by simpa using hmem, ?_⟩
      rw [List.foldlM_cons, hdeclare]
      rfl
    · -- the label is new, so the fault lies further on
      have hdeclare : declare before d = .ok (before ++ [a]) :=
        declare_eq_ok_iff.2 ⟨a, hd, hmem, rfl⟩
      rcases ih (nodup_labels_concat hb hmem) (by simpa using hmore) with
        ⟨k, e, b, he, hb', heb, hnodup, hrepeat, herror⟩
      refine ⟨k + 1, e, b, he, hb', heb, by simpa using hnodup, by simpa using hrepeat, ?_⟩
      rw [List.foldlM_cons, hdeclare]
      exact herror

/-- The declarations of each text that is read, and the automata they describe. -/
theorem exists_scans {texts : List String} {nets : List Network}
    (h : List.Forall₂ (fun t net => read t = .ok net) texts nets) :
    ∃ dss, List.Forall₂ (fun t ds => Declaration.scan t.toList = .ok ds) texts dss ∧
      List.Forall₂ (List.Forall₂ fun d a => d.automaton = .ok a) dss nets := by
  apply Fallible.forall₂_comp_iff.1
  apply h.imp
  intro t net hread
  have hnil : (([] : Network).map Automaton.label).Nodup := by simp
  simp only [read, Fallible.bind_eq_ok_iff, foldlM_declare_eq_ok_iff hnil, List.nil_append] at hread
  rcases hread with ⟨ds, hds, more, hmore, rfl, -⟩
  exact ⟨ds, hds, hmore⟩

/-- Texts that are read one by one are read together exactly if no two of them use the same
label. Then all their automata are read, in order, each with its positions moved by the bytes of
the texts before. Otherwise the first declaration that repeats a label is reported, at its place
in the joined text. -/
theorem read_joined {texts : List String} {nets : List Network}
    (h : List.Forall₂ (fun t net => read t = .ok net) texts nets) :
    ((∃ net, read (joined texts) = .ok net) ↔ Apart nets) ∧
    (Apart nets → read (joined texts) = .ok (placed Automaton.shift texts nets)) ∧
    (¬ Apart nets → ∃ dss k d a,
      List.Forall₂ (fun t ds => Declaration.scan t.toList = .ok ds) texts dss ∧
      (placed Declaration.shift texts dss)[k]? = some d ∧
      (placed Automaton.shift texts nets)[k]? = some a ∧ d.automaton = .ok a ∧
      (((placed Automaton.shift texts nets).take k).map Automaton.label).Nodup ∧
      a.label ∈ ((placed Automaton.shift texts nets).take k).map Automaton.label ∧
      read (joined texts) = .error ⟨.duplicateLabel a.label, d.header⟩) := by
  rcases exists_scans h with ⟨dss, hscan, hautomata⟩
  have hnil : (([] : Network).map Automaton.label).Nodup := by simp
  have hread : read (joined texts) = (placed Declaration.shift texts dss).foldlM declare [] := by
    rw [read, Declaration.scan_joined hscan]
    rfl
  have hplaced : List.Forall₂ (fun d a => d.automaton = .ok a)
      (placed Declaration.shift texts dss) (placed Automaton.shift texts nets) :=
    forall₂_placed (fun k _ _ => Declaration.automaton_shift k) texts hautomata
  by_cases hnets : Apart nets
  · have hok : read (joined texts) = .ok (placed Automaton.shift texts nets) := by
      rw [hread, foldlM_declare_eq_ok_iff hnil]
      exact ⟨_, hplaced, rfl, (nodup_labels_placed_iff h).2 hnets⟩
    exact ⟨iff_of_true ⟨_, hok⟩ hnets, fun _ => hok, fun hshared => absurd hnets hshared⟩
  · have hrepeats := mt (nodup_labels_placed_iff h).1 hnets
    rcases exists_repeated hplaced hnil hrepeats with ⟨k, d, a, hd, ha, hda, hfirst, hlabel, herror⟩
    rw [← hread] at herror
    refine ⟨iff_of_false ?_ hnets, fun hapart => absurd hapart hnets, fun _ =>
      ⟨dss, k, d, a, hscan, hd, ha, hda, hfirst, hlabel, herror⟩⟩
    rintro ⟨net, hnet⟩
    rw [herror] at hnet
    cases hnet

/-- Two texts with blanks between them, once with different labels and once with the same. -/
theorem read_joined_around_blank :
    (∃ a b,
      read "\u00a0Cta A=Init s;s B!m()s;" = .ok [a] ∧ read "Cta B=Init s;s A?m()s;" = .ok [b] ∧
      read (joined ["\u00a0Cta A=Init s;s B!m()s;", "\u2003", "Cta B=Init s;s A?m()s;"]) =
        .ok [a, b.shift 29]) ∧
    ∃ place,
      read (joined ["Cta A=Init s;", "\u2003", "Cta A=Init t;"]) =
        .error ⟨.duplicateLabel "A", place⟩ := by
  have hblank : read "\u2003" = .ok [] := rfl
  constructor
  · rcases Fallible.exists_ok_of_any (x := read "\u00a0Cta A=Init s;s B!m()s;")
      (P := fun net => ∃ a ∈ net, net = [a] ∧ a.label = "A") (by decide +kernel) with
      ⟨_, hfirst, a, -, rfl, ha⟩
    rcases Fallible.exists_ok_of_any (x := read "Cta B=Init s;s A?m()s;")
      (P := fun net => ∃ b ∈ net, net = [b] ∧ b.label = "B") (by decide +kernel) with
      ⟨_, hlast, b, -, rfl, hb⟩
    rcases read_joined (.cons hfirst (.cons hblank (.cons hlast .nil))) with ⟨-, hread, -⟩
    refine ⟨a, b, hfirst, hlast, (hread (by simp [Apart, ha, hb])).trans ?_⟩
    have hnone : (joined []).utf8ByteSize = 0 := rfl
    have hsize : (joined ["\u00a0Cta A=Init s;s B!m()s;", "\u2003"]).utf8ByteSize = 29 := by
      decide +kernel
    simp [placed, hnone, hsize]
  · rcases Fallible.exists_ok_of_any (x := read "Cta A=Init s;")
      (P := fun net => ∃ a ∈ net, net = [a] ∧ a.label = "A") (by decide +kernel) with
      ⟨_, hfirst, a, -, rfl, ha⟩
    rcases Fallible.exists_ok_of_any (x := read "Cta A=Init t;")
      (P := fun net => ∃ b ∈ net, net = [b] ∧ b.label = "A") (by decide +kernel) with
      ⟨_, hlast, b, -, rfl, hb⟩
    rcases read_joined (.cons hfirst (.cons hblank (.cons hlast .nil))) with ⟨-, -, herror⟩
    rcases herror (by simp [Apart, ha, hb]) with ⟨_, k, d, c, -, -, hc, -, -, -, hread⟩
    have hlabel : c.label = "A" := by
      have hmem := List.mem_map_of_mem (f := Automaton.label) (List.mem_of_getElem? hc)
      rw [labels_placed rfl] at hmem
      simpa [ha, hb] using hmem
    exact ⟨d.header, by rw [hread, hlabel]⟩

end Network
end TimedAutomata
