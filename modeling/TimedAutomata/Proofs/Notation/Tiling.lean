import TimedAutomata.Proofs.Notation.Locations

/-!
# How a text is tiled by its clauses

The markers of a text cut it into stretches, and the semicolons cut a stretch into clauses. Nothing
is lost by this: a text that is scanned is made of the clauses, each with its semicolon, and of
blanks. It cannot be scanned if something else than blanks stands before the first marker or after
the last semicolon of a stretch.

* `Declaration.stretches`: the places from marker to marker
* `Declaration.Unclosed`: a stretch that does not end with a semicolon and blanks
* `Declaration.exists_ofPiece_iff`: no other stretch is refused
* `Tiled`: a text made of clauses, their semicolons and blanks
* `Declaration.tiled_pieces`: stretches that are declarations are made so
* `Declaration.scan_tiles`: which texts are scanned, and what is found in them
-/

namespace TimedAutomata

namespace Declaration

/-! ## Stretches -/

/-- From each of the positions to the next one, and from the last one to `stop`. -/
def spansTo (stop : Nat) : List Nat → List Span
  | [] => []
  | m :: ms => ⟨m, ms.headD stop⟩ :: spansTo stop ms

/-- The place before the first marker, and those from each marker to the next one or to the end. -/
def stretches (cs : List Char) : List Span :=
  spansTo (Text.byteLength cs) (0 :: markers cs)

/-- The pieces follow one another without a gap, the first one at `offset`. -/
def Chained : (offset : Nat) → List Clause → Prop
  | _, [] => True
  | offset, piece :: pieces => piece.offset = offset ∧ Chained piece.stop pieces

theorem Chained.spans {offset : Nat} {pieces : List Clause} (h : Chained offset pieces) :
    pieces.map Clause.span =
      spansTo (offset + Text.byteLength (pieces.map Clause.text).flatten)
        (pieces.map Clause.offset) := by
  induction pieces generalizing offset with
  | nil => rfl
  | cons piece pieces ih =>
    rcases h with ⟨rfl, hrest⟩
    have hstop : piece.offset + Text.byteLength ((piece :: pieces).map Clause.text).flatten =
        piece.stop + Text.byteLength (pieces.map Clause.text).flatten := by
      simp [Clause.stop, Nat.add_assoc]
    rw [hstop, List.map_cons, List.map_cons, spansTo, ih hrest, Clause.span]
    -- a piece ends where the next one starts
    cases pieces with
    | nil => simp
    | cons next pieces => simp [hrest.1]

theorem chained_cut (offset : Nat) (before : Option Char) (cs : List Char) :
    Chained offset (⟨(cut offset before cs).1, offset⟩ :: (cut offset before cs).2) := by
  induction cs generalizing offset before with
  | nil => exact ⟨rfl, trivial⟩
  | cons c cs ih =>
    have hrest := (ih (offset + c.utf8Size) (some c)).2
    rw [Clause.stop, Nat.add_assoc, ← Text.byteLength_cons] at hrest
    rw [cut_cons]
    split
    · exact ⟨rfl, rfl, hrest⟩
    · exact ⟨rfl, hrest⟩

theorem map_offset_cut (offset : Nat) (before : Option Char) (cs : List Char) :
    (cut offset before cs).2.map Clause.offset = markersFrom offset before cs := by
  induction cs generalizing offset before with
  | nil => rfl
  | cons c cs ih =>
    rw [cut_cons, markersFrom]
    split <;> simp [ih]

/-- The stretches of a text are the places of the pieces that it is cut into. -/
theorem map_span_cut (cs : List Char) :
    (⟨(cut 0 none cs).1, 0⟩ :: (cut 0 none cs).2 : List Clause).map Clause.span =
      stretches cs := by
  have hspans := (chained_cut 0 none cs).spans
  have hwhole : ((⟨(cut 0 none cs).1, 0⟩ :: (cut 0 none cs).2 : List Clause).map
      Clause.text).flatten = cs := (cutAt_cut 0 none cs).whole.symm
  have hoffsets : (⟨(cut 0 none cs).1, 0⟩ :: (cut 0 none cs).2 : List Clause).map Clause.offset =
      0 :: markers cs := congrArg (0 :: ·) (map_offset_cut 0 none cs)
  rw [hspans, hwhole, hoffsets, Nat.zero_add, stretches]

/-! ## Stretches without an end -/

/-- The text has no semicolon, or something else than blanks after its last one. -/
def Unclosed (w : List Char) : Prop :=
  ';' ∉ w ∨ ¬ Text.IsBlank (w.rtakeWhile (· ≠ ';'))

instance (w : List Char) : Decidable (Unclosed w) :=
  inferInstanceAs (Decidable (_ ∨ _))

theorem mem_closed_iff {ws : List (List Char)} {tail : List Char} (htail : ';' ∉ tail) :
    ';' ∈ closed ws ++ tail ↔ ws ≠ [] := by
  cases ws <;> simp [closed, htail]

/-- The rest of a text stands after its last semicolon. -/
theorem rtakeWhile_closed {ws : List (List Char)} {tail : List Char} (hws : ws ≠ [])
    (htail : ';' ∉ tail) : (closed ws ++ tail).rtakeWhile (· ≠ ';') = tail := by
  have hall : ∀ c ∈ tail.reverse, decide (c ≠ ';') = true := by
    intro c hc
    simp only [decide_eq_true_eq]
    rintro rfl
    exact htail (List.mem_reverse.1 hc)
  rcases List.eq_nil_or_concat ws with rfl | ⟨front, w, rfl⟩
  · exact absurd rfl hws
  · have hreverse : (closed (front.concat w) ++ tail).reverse =
        tail.reverse ++ ';' :: (closed front ++ w).reverse := by simp [closed]
    rw [List.rtakeWhile, hreverse, List.takeWhile_append_of_pos hall,
      List.takeWhile_cons_of_neg (by simp), List.append_nil, List.reverse_reverse]

/-- A piece is a declaration unless it is unclosed. -/
theorem exists_ofPiece_iff {piece : Clause} :
    (∃ d, ofPiece piece = .ok d) ↔ ¬ Unclosed piece.text := by
  rcases exists_closed piece.text with ⟨ws, tail, htext, hws, htail⟩
  rcases split_clauses hws htail piece.offset with ⟨hclosed, hrest⟩
  rw [← htext] at hclosed hrest
  have hunclosed : ¬ Unclosed piece.text ↔ ws ≠ [] ∧ Text.IsBlank tail := by
    rw [Unclosed, htext, mem_closed_iff htail, not_or, not_not, not_not]
    refine and_congr_right fun hne => ?_
    rw [rtakeWhile_closed hne htail]
  have hnil : (split piece.offset piece.text).1 ≠ [] ↔ ws ≠ [] := by
    rw [← hclosed, ne_eq, ne_eq, List.map_eq_nil_iff]
  rw [hunclosed, ← hnil, List.ne_nil_iff_exists_cons]
  simp only [ofPiece_eq_ok_iff, hrest]
  constructor
  · rintro ⟨d, header, edges, hsplit, hblank, -⟩
    exact ⟨⟨header, edges, hsplit⟩, hblank⟩
  · rintro ⟨⟨header, edges, hsplit⟩, hblank⟩
    exact ⟨_, header, edges, hsplit, hblank, rfl⟩

theorem cause_of_ofPiece_error {piece : Clause} {e : ReadError} (h : ofPiece piece = .error e) :
    e.cause = .missingTerminator := by
  simp only [ofPiece] at h
  split at h
  · rw [← Except.error.inj h]
  · split at h
    · cases h
    · rw [← Except.error.inj h]

/-- A text is refused for what stands before its first marker, or else for an unclosed stretch. -/
theorem cause_of_scan_error {cs : List Char} {e : ReadError} (h : scan cs = .error e) :
    e.cause = if Text.IsBlank (cut 0 none cs).1 then .missingTerminator else .strayText := by
  simp only [scan, Clause.trimmed, List.isEmpty_iff, Text.trim_eq_nil_iff] at h
  split at h
  · next hblank =>
    rcases Fallible.exists_of_mapM_eq_error h with ⟨piece, -, hpiece⟩
    rw [if_pos hblank, cause_of_ofPiece_error hpiece]
  · next hstray => rw [if_neg hstray, ← Except.error.inj h]

/-- All texts are scanned but those with something before the first marker, and those with an
unclosed stretch. -/
theorem exists_scan_iff {cs : List Char} :
    (∃ ds, scan cs = .ok ds) ↔ Text.IsBlank (cut 0 none cs).1 ∧
      ∀ piece ∈ (cut 0 none cs).2, ¬ Unclosed piece.text := by
  simp only [scan_eq_ok_iff, exists_and_left]
  refine and_congr_right fun _ => ?_
  constructor
  · rintro ⟨ds, hds⟩ piece hpiece
    rcases Fallible.exists_of_mem_left hds hpiece with ⟨d, -, hd⟩
    exact exists_ofPiece_iff.1 ⟨d, hd⟩
  · intro h
    exact Fallible.exists_forall₂ fun piece hpiece => exists_ofPiece_iff.2 (h piece hpiece)

end Declaration

/-! ## Tiles -/

/-- The text, which starts at `offset`, is made of the clauses and blanks: each clause has a
semicolon after it, and blanks may stand before a clause, before its semicolon, and at the end. -/
inductive Tiled : (offset : Nat) → List Char → List Clause → Prop where
  | rest {offset : Nat} {blanks : List Char} : Text.IsBlank blanks → Tiled offset blanks []
  | clause {offset : Nat} {c : Clause} {cs : List Clause} {gap pad after : List Char} :
      Text.IsBlank gap → c.offset = offset + Text.byteLength gap → Text.IsBlank pad →
      Tiled (c.stop + Text.byteLength pad + 1) after cs →
      Tiled offset (gap ++ (c.text ++ (pad ++ ';' :: after))) (c :: cs)

namespace Tiled

variable {offset : Nat} {text : List Char} {cs ds : List Clause}

/-- Blanks in front go to the first gap. -/
theorem behind {blanks : List Char} (hblanks : Text.IsBlank blanks)
    (h : Tiled (offset + Text.byteLength blanks) text cs) : Tiled offset (blanks ++ text) cs := by
  cases h with
  | rest hrest => exact .rest (List.forall_mem_append.2 ⟨hblanks, hrest⟩)
  | clause hgap hoffset hpad hafter =>
    rw [← List.append_assoc]
    refine .clause (List.forall_mem_append.2 ⟨hblanks, hgap⟩) ?_ hpad hafter
    rw [hoffset, Text.byteLength_append, Nat.add_assoc]

theorem append {more : List Char} (h : Tiled offset text cs)
    (hmore : Tiled (offset + Text.byteLength text) more ds) :
    Tiled offset (text ++ more) (cs ++ ds) := by
  induction h with
  | rest hblanks => exact hmore.behind hblanks
  | @clause offset c cs gap pad after hgap hoffset hpad _ ih =>
    have hsize : ';'.utf8Size = 1 := by decide
    have hafter : offset + Text.byteLength (gap ++ (c.text ++ (pad ++ ';' :: after))) =
        c.stop + Text.byteLength pad + 1 + Text.byteLength after := by
      simp only [Clause.stop, hoffset, Text.byteLength_append, Text.byteLength_cons, hsize]
      omega
    rw [hafter] at hmore
    have htiled := Tiled.clause hgap hoffset hpad (ih hmore)
    simpa using htiled

end Tiled

namespace Declaration

/-- The clauses of a declaration, in order. -/
def clauses (d : Declaration) : List Clause :=
  d.header :: d.edges

/-- What semicolons close, and blanks behind the last one. -/
theorem tiled_split (offset : Nat) (cs : List Char)
    (hblank : Text.IsBlank (split offset cs).2.text) :
    Tiled offset cs ((split offset cs).1.map Clause.trimmed) := by
  rcases exists_closed cs with ⟨ws, tail, rfl, hws, htail⟩
  induction ws generalizing offset with
  | nil =>
    simp only [closed, List.flatMap_nil, List.nil_append, split_of_not_mem htail] at hblank ⊢
    exact .rest hblank
  | cons w ws ih =>
    simp only [List.forall_mem_cons] at hws
    have hcons : closed (w :: ws) ++ tail = w ++ ';' :: (closed ws ++ tail) := by simp [closed]
    rw [hcons, split_append hws.1] at hblank ⊢
    -- the blanks around the clause fill the place up to its semicolon
    rcases Text.exists_blank_rest w with ⟨pad, hpad, hw⟩
    have hgap : Text.IsBlank (w.takeWhile Text.isBlank) := fun c hc => List.mem_takeWhile_imp hc
    have hstop : (Clause.trimmed ⟨w, offset⟩).stop + Text.byteLength pad + 1 =
        offset + Text.byteLength w + 1 := by
      have hlength := congrArg Text.byteLength hw
      simp only [Text.byteLength_append] at hlength
      simp only [Clause.stop, Clause.trimmed]
      omega
    have hrest := ih (offset + Text.byteLength w + 1) hblank hws.2
    rw [← hstop] at hrest
    have htiled := Tiled.clause (c := Clause.trimmed ⟨w, offset⟩) hgap rfl hpad hrest
    have htext : w.takeWhile Text.isBlank ++ ((Clause.trimmed ⟨w, offset⟩).text ++
        (pad ++ ';' :: (closed ws ++ tail))) = w ++ ';' :: (closed ws ++ tail) := by
      conv_rhs => rw [hw]
      simp [Clause.trimmed]
    rw [htext, hstop] at htiled
    exact htiled

theorem tiled_ofPiece {piece : Clause} {d : Declaration} (h : ofPiece piece = .ok d) :
    Tiled piece.offset piece.text d.clauses := by
  rcases ofPiece_eq_ok_iff.1 h with ⟨header, edges, hsplit, hblank, rfl⟩
  have htiled := tiled_split piece.offset piece.text hblank
  rw [hsplit] at htiled
  exact htiled

/-- Pieces that follow one another are tiled one after another. -/
theorem tiled_pieces {pieces : List Clause} {ds : List Declaration}
    (h : List.Forall₂ (fun piece d => ofPiece piece = .ok d) pieces ds) {offset : Nat}
    (hchained : Chained offset pieces) :
    Tiled offset (pieces.map Clause.text).flatten (ds.flatMap clauses) := by
  induction h generalizing offset with
  | nil => exact .rest (by simp [Text.IsBlank])
  | cons hd _ ih =>
    rcases hchained with ⟨rfl, hrest⟩
    exact (tiled_ofPiece hd).append (ih hrest)

/-- The clauses of a declaration hold no semicolon and have no blank ends. -/
theorem clean_of_ofPiece {piece : Clause} {d : Declaration} (h : ofPiece piece = .ok d)
    {c : Clause} (hc : c ∈ d.clauses) : ';' ∉ c.text ∧ (c.text = [] ∨ Text.Dense c.text) := by
  rcases ofPiece_eq_ok_iff.1 h with ⟨header, edges, hsplit, -, rfl⟩
  rcases exists_closed piece.text with ⟨ws, tail, htext, hws, htail⟩
  have hclosed := (split_clauses hws htail piece.offset).1
  rw [← htext, hsplit] at hclosed
  obtain ⟨raw, hraw, rfl⟩ : ∃ raw ∈ header :: edges, raw.trimmed = c := List.mem_map.1 hc
  have hunbroken : ';' ∉ raw.text := hws raw.text (hclosed ▸ List.mem_map_of_mem hraw)
  refine ⟨fun hmem => hunbroken (Text.mem_of_mem_trim hmem), ?_⟩
  by_cases hnil : Text.trim raw.text = []
  · exact .inl hnil
  · exact .inr (Text.dense_trim hnil)

/-! ## Headers -/

/-- A prefix without a certain element ends before its first occurrence. -/
theorem isPrefix_of_not_mem {α : Type} {l w rest : List α} {c : α} (h : l <+: w ++ c :: rest)
    (hc : c ∉ l) : l <+: w := by
  rcases h with ⟨r, hr⟩
  rcases List.append_eq_append_iff.1 hr with ⟨more, rfl, -⟩ | ⟨more, rfl, hmore⟩
  · exact List.prefix_append l more
  · cases more with
    | nil => simp
    | cons x more =>
      obtain ⟨rfl, -⟩ := List.cons.inj hmore
      simp at hc

/-- The header of a declaration starts where its piece does, with the marker but for the space. -/
theorem header_of_marker {piece : Clause} {d : Declaration} (h : ofPiece piece = .ok d)
    (hmarker : marker <+: piece.text) :
    d.header.offset = piece.offset ∧ ['C', 't', 'a'] <+: d.header.text := by
  rcases ofPiece_eq_ok_iff.1 h with ⟨header, edges, hsplit, -, rfl⟩
  rcases split_eq_cons hsplit with ⟨rest, htext, hoffset, -, -⟩
  rw [htext] at hmarker
  rcases isPrefix_of_not_mem hmarker (by decide) with ⟨more, hmore⟩
  have hdense : Text.Dense ['C', 't', 'a'] :=
    ⟨by simp, by simp [Text.isBlank, Text.blankRanges], by simp [Text.isBlank, Text.blankRanges]⟩
  have hheader : header.text = [] ++ (['C', 't', 'a'] ++ ' ' :: more) := hmore.symm
  constructor
  · have hblanks : header.text.takeWhile Text.isBlank = [] := by
      rw [hheader]
      exact List.takeWhile_cons_of_neg (by decide)
    simp [Clause.trimmed, hblanks, hoffset]
  · simp only [Clause.trimmed, hheader, Text.trim_append_dense hdense]
    exact List.prefix_append _ _

/-! ## Whole texts -/

/-- Scanning tiles a text, or finds something stray or unclosed in it. The markers cut a text into
what stands before the first of them, and one stretch for each, without cutting a character. The
text is refused exactly if the former is not blank, or some stretch is unclosed; a stretch is never
blank, as it starts with its marker. Otherwise there is one declaration for each marker, and the
text is made of the clauses of all declarations, in order, each with a semicolon after it, and of
blanks. No clause holds a semicolon or has a blank end, and each header starts as the marker
does. -/
theorem scan_tiles (cs : List Char) : ∃ head pieces,
    List.Forall₂ (fun s w => s.text? cs = some w) (stretches cs) (head :: pieces) ∧
    (∀ w ∈ pieces, marker <+: w) ∧
    ((∃ e, scan cs = .error e) ↔ ¬ Text.IsBlank head ∨ ∃ w ∈ pieces, Unclosed w) ∧
    (∀ e, scan cs = .error e →
      e.cause = if Text.IsBlank head then .missingTerminator else .strayText) ∧
    ∀ ds, scan cs = .ok ds →
      ds.map (fun d => d.header.offset) = markers cs ∧
      Tiled 0 cs (ds.flatMap clauses) ∧
      (∀ d ∈ ds, ∀ c ∈ d.clauses, ';' ∉ c.text ∧ (c.text = [] ∨ Text.Dense c.text)) ∧
      ∀ d ∈ ds, ['C', 't', 'a'] <+: d.header.text := by
  have hmarker : ∀ piece ∈ (cut 0 none cs).2, marker <+: piece.text :=
    fun piece => marker_isPrefix_of_mem_cut
  refine ⟨(cut 0 none cs).1, (cut 0 none cs).2.map Clause.text, ?_, ?_, ?_, ?_, ?_⟩
  · have hplaces := Fallible.forall₂_map (f := Clause.span) (g := Clause.text)
      (R := fun s w => s.text? cs = some w)
      fun c hc => Clause.text?_span_of_within ((laid_cut 0 none cs).within hc)
    rw [map_span_cut] at hplaces
    exact hplaces
  · simpa using hmarker
  · have herror : (∃ e, scan cs = .error e) ↔ ¬ ∃ ds, scan cs = .ok ds := by
      cases scan cs <;> simp
    rw [herror, exists_scan_iff, not_and_or]
    simp
  · exact fun e => cause_of_scan_error
  · intro ds hds
    rcases scan_eq_ok_iff.1 hds with ⟨hblank, hpieces⟩
    have hheaders := Fallible.forall₂_imp_of_mem hpieces
      fun piece hpiece d _ hd => header_of_marker hd (hmarker piece hpiece)
    refine ⟨?_, ?_, ?_, ?_⟩
    · rw [markers, ← map_offset_cut, ← List.forall₂_eq_eq_eq, List.forall₂_map_left_iff,
        List.forall₂_map_right_iff]
      exact hheaders.flip.imp fun _ _ hheader => hheader.1
    · have hchained := (chained_cut 0 none cs).2
      have htiled := (tiled_pieces hpieces hchained).behind hblank
      rw [← (cutAt_cut 0 none cs).whole] at htiled
      exact htiled
    · intro d hd c hc
      rcases Fallible.exists_of_mem_right hpieces hd with ⟨piece, -, hpiece⟩
      exact clean_of_ofPiece hpiece hc
    · intro d hd
      rcases Fallible.exists_of_mem_right hheaders hd with ⟨piece, -, -, hheader⟩
      exact hheader

/-- Blanks of two and three bytes stand around the clauses, one of them empty, and a word that ends
like a marker is none; and the second of two stretches is unclosed. -/
theorem scan_tiles_wide_blanks :
    (∃ ds, scan "\u3000Cta A=Init s\u00a0;;\u2003s B!m()xCta ;\nCta B=Init t; ".toList = .ok ds ∧
      ds.map (fun d => d.clauses.map fun c => (String.ofList c.text, c.offset)) =
        [[("Cta A=Init s", 3), ("", 18), ("s B!m()xCta", 22)], [("Cta B=Init t", 36)]] ∧
      markers "\u3000Cta A=Init s\u00a0;;\u2003s B!m()xCta ;\nCta B=Init t; ".toList = [3, 36] ∧
      Tiled 0 "\u3000Cta A=Init s\u00a0;;\u2003s B!m()xCta ;\nCta B=Init t; ".toList
        (ds.flatMap clauses)) ∧
    ∃ e, scan "Cta A=Init s;Cta B=Init t; x".toList = .error e ∧ e.cause = .missingTerminator ∧
      stretches "Cta A=Init s;Cta B=Init t; x".toList = [⟨0, 0⟩, ⟨0, 13⟩, ⟨13, 28⟩] := by
  constructor
  · rcases Fallible.exists_ok_of_any
      (x := scan "\u3000Cta A=Init s\u00a0;;\u2003s B!m()xCta ;\nCta B=Init t; ".toList)
      (P := fun ds => ds.map (fun d => d.clauses.map fun c => (String.ofList c.text, c.offset)) =
        [[("Cta A=Init s", 3), ("", 18), ("s B!m()xCta", 22)], [("Cta B=Init t", 36)]] ∧
        ds.map (fun d => d.header.offset) = [3, 36])
      (by decide +kernel) with ⟨ds, hds, hclauses, hoffsets⟩
    rcases scan_tiles
      "\u3000Cta A=Init s\u00a0;;\u2003s B!m()xCta ;\nCta B=Init t; ".toList with
      ⟨head, pieces, -, -, -, -, hok⟩
    rcases hok ds hds with ⟨hmarkers, htiled, -, -⟩
    exact ⟨ds, hds, hclauses, hmarkers.symm.trans hoffsets, htiled⟩
  · have hstretches : stretches "Cta A=Init s;Cta B=Init t; x".toList =
        [⟨0, 0⟩, ⟨0, 13⟩, ⟨13, 28⟩] := by decide +kernel
    have hhead : (⟨0, 0⟩ : Span).text? "Cta A=Init s;Cta B=Init t; x".toList = some [] := by decide
    have hlast : (⟨13, 28⟩ : Span).text? "Cta A=Init s;Cta B=Init t; x".toList =
        some "Cta B=Init t; x".toList := by decide +kernel
    rcases scan_tiles "Cta A=Init s;Cta B=Init t; x".toList with
      ⟨head, pieces, hplaces, -, herror, hcause, -⟩
    rw [hstretches, List.forall₂_cons, hhead, List.forall₂_cons_left_iff] at hplaces
    rcases hplaces with ⟨hempty, first, rest, -, hrest, rfl⟩
    rw [List.forall₂_cons_left_iff, hlast] at hrest
    rcases hrest with ⟨last, more, hunclosed, -, rfl⟩
    obtain rfl : "Cta B=Init t; x".toList = last := Option.some.inj hunclosed
    rcases herror.2 (.inr ⟨"Cta B=Init t; x".toList, by simp, by decide +kernel⟩) with ⟨e, he⟩
    have hblank : Text.IsBlank head := by simp [← Option.some.inj hempty, Text.IsBlank]
    rw [if_pos hblank] at hcause
    exact ⟨e, he, hcause e he, hstretches⟩

end Declaration
end TimedAutomata
