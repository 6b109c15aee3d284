import TimedAutomata.Proofs.Notation.Reading

/-!
# Reading printed networks

A network that was read and is printed is read back as the same network, unless a word of the
printed text looks like the start of a declaration. A label does if it is the word `Cta`, since
a space follows it, and so does the state that a transition leaves; all other words are followed
by something else.

* `Declaration.chars`: the printed text of an automaton
* `text?_of_represents`, `Network.toList_text?`: what is printed
* `isBlock_chars`: a printed automaton without such words holds one marker
* `isWritten_chars`: a printed automaton is read back
* `Network.round_trip`: the exact conditions of the round trip
-/

namespace TimedAutomata

open Grammar Declaration

/-! ## Printed automata -/

/-- The clause of an edge, with the line end before it. -/
def Edge.line (e : Edge) : List Char :=
  ['\n', ' ', ' ', ' ', ' '] ++ e.text.toList

/-- The printed text of the automaton. -/
def Parts.chars (p : Parts) : List Char :=
  closed (p.header.chars :: p.edges.map Edge.line) ++ ['\n']

theorem transitionText?_of_isEdge {a : Automaton} {t : Transition} {e : Edge}
    (h : Automaton.IsEdge a t e) : a.transitionText? t = some e.text := by
  simp [Automaton.transitionText?, h.start, h.target, h.comm, h.guard, h.resets, Edge.text]

theorem mapM_transitionText? {a : Automaton} {ts : List Transition} {es : List Edge}
    (h : List.Forall₂ (Automaton.IsEdge a) ts es) :
    ts.mapM a.transitionText? = some (es.map Edge.text) := by
  induction h with
  | nil => rfl
  | cons hte _ ih => simp [transitionText?_of_isEdge hte, ih]

/-- A line end can be counted to the line before it or to the line after it. -/
theorem flatMap_line (es : List Edge) :
    ['\n'] ++ es.flatMap (fun e => [' ', ' ', ' ', ' '] ++ e.text.toList ++ [';', '\n']) =
      closed (es.map Edge.line) ++ ['\n'] := by
  induction es with
  | nil => rfl
  | cons e es ih =>
    simp only [closed, List.map_cons, List.flatMap_cons] at ih ⊢
    rw [List.append_assoc _ _ ['\n'], ← ih]
    simp [Edge.line]

theorem Parts.text?_automaton (p : Parts) :
    p.automaton.text? = some (String.ofList p.chars) := by
  have h := p.represents
  have hline := flatMap_line p.edges
  simp only [Automaton.text?, h.initial, mapM_transitionText? h.edges, Option.bind_eq_bind,
    Option.bind_some, Option.pure_def, Option.some.injEq]
  rw [← String.toList_inj]
  simpa [Parts.chars, closed, Header.chars, h.label, List.flatMap_map] using hline

theorem mapM_text? (ps : List Parts) :
    (ps.map Parts.automaton).mapM Automaton.text? =
      some (ps.map fun p => String.ofList p.chars) := by
  induction ps with
  | nil => rfl
  | cons p ps ih => simp [p.text?_automaton, ih]

/-- What is printed for a network. -/
theorem Network.text?_parts (ps : List Parts) :
    Network.text? (ps.map Parts.automaton) =
      some (String.ofList (['\n'].intercalate (ps.map Parts.chars))) := by
  simp only [Network.text?, mapM_text?, Option.bind_eq_bind, Option.bind_some, Option.pure_def,
    Option.some.injEq]
  rw [← String.toList_inj]
  simp [Sequence.joinWith, Function.comp_def]

/-! ## Markers in printed automata -/

theorem not_mem_chars (e : Guard.Expr) {c : Char} (hc : Guard.isGuardChar c = false) :
    c ∉ e.chars := by
  intro h
  rw [← e.text_derivation] at h
  simp [e.derivation.isGuardChar_of_mem c h] at hc

/-- The text of an edge after its first word and the space. -/
def Edge.tail (e : Edge) : List Char :=
  e.comm.partner.toList ++ (e.comm.direction.symbol.toList ++ (e.comm.payload.toList ++ (['('] ++
    (e.guard.expr.chars ++ (resetChars e.resets ++ [')', ' '])) ++ e.target.toList)))

theorem Edge.toList_text_tail (e : Edge) :
    e.text.toList = e.start.toList ++ ([' '] ++ e.tail) := by
  simp [e.toList_text, Edge.tail]

/-- After the first word of an edge nothing looks like a declaration. -/
theorem quiet_tail {e : Edge} (hw : e.Written) (before : Option Char) (rest : List Char) :
    Quiet before e.tail (';' :: rest) := by
  have hsymbol (cs : List Char) : EndsWord (e.comm.direction.symbol.toList ++ cs) ∧
      (e.comm.direction.symbol.toList ++ cs).head? ≠ some ' ' ∧
      'C' ∉ e.comm.direction.symbol.toList := by
    cases e.comm.direction <;> simp [Direction.symbol, isWordChar]
  have hmiddle : 'C' ∉ ['('] ++ (e.guard.expr.chars ++ (resetChars e.resets ++ [')', ' '])) := by
    have hreset : 'C' ∉ resetChars e.resets := by
      cases e.resets <;> decide
    simp [not_mem_chars e.guard.expr (c := 'C') (by decide), hreset]
  refine Quiet.append (quiet_word hw.partner ?_ ?_ _) ?_
  · rw [List.append_assoc]
    exact (hsymbol _).1
  · intro _
    rw [List.append_assoc]
    exact (hsymbol _).2.1
  refine Quiet.append (quiet_of_not_mem (hsymbol []).2.2 _ _) ?_
  refine Quiet.append (quiet_word hw.payload (by simp [isWordChar]) (by simp) _) ?_
  refine Quiet.append (quiet_of_not_mem hmiddle _ _) ?_
  exact quiet_word hw.target (by simp [isWordChar]) (by simp) _

theorem quiet_line {e : Edge} (hw : e.Written) (hstart : e.start.toList ≠ ['C', 't', 'a'])
    (before : Option Char) (rest : List Char) :
    Quiet before (e.line ++ [';']) rest := by
  rw [Edge.line, e.toList_text_tail, List.append_assoc]
  refine Quiet.append (quiet_of_not_mem (by decide) _ _) ?_
  rw [List.append_assoc]
  refine Quiet.append (quiet_word hw.start (by simp [isWordChar]) (fun h => absurd h hstart) _) ?_
  rw [List.append_assoc]
  refine Quiet.append (quiet_of_not_mem (by decide) _ _) ?_
  exact Quiet.append (by simpa using quiet_tail hw _ _) (quiet_of_not_mem (by decide) _ _)

theorem quiet_lines {es : List Edge} (hes : ∀ e ∈ es, e.Written)
    (hstarts : ∀ e ∈ es, e.start.toList ≠ ['C', 't', 'a']) (before : Option Char)
    (rest : List Char) : Quiet before (closed (es.map Edge.line)) rest := by
  induction es generalizing before with
  | nil => trivial
  | cons e es ih =>
    simp only [List.forall_mem_cons] at hes hstarts
    have hcons : closed ((e :: es).map Edge.line) =
        (e.line ++ [';']) ++ closed (es.map Edge.line) := by
      simp [closed]
    rw [hcons]
    exact Quiet.append (quiet_line hes.1 hstarts.1 _ _) (ih hes.2 hstarts.2 _)

/-- A printed automaton holds no marker but its own, if neither its label nor a state that a
transition leaves is the word of the marker. -/
theorem Parts.isBlock_chars {p : Parts} (hp : p.Written)
    (hlabel : p.header.label.toList ≠ ['C', 't', 'a'])
    (hstarts : ∀ e ∈ p.edges, e.start.toList ≠ ['C', 't', 'a']) : IsBlock p.chars := by
  refine ⟨p.header.label.toList ++ ([' ', '=', ' ', 'I', 'n', 'i', 't', ' '] ++
    (p.header.initial.toList ++ ([';'] ++ (closed (p.edges.map Edge.line) ++ ['\n'])))),
    ?_, ?_, ?_⟩
  · simp [Parts.chars, closed, Header.chars, marker]
  · intro rest
    refine Quiet.append (quiet_word hp.header.label (by simp [isWordChar])
      (fun h => absurd h hlabel) _) ?_
    refine Quiet.append (quiet_of_not_mem (by decide) _ _) ?_
    refine Quiet.append (quiet_word hp.header.initial (by simp [isWordChar]) (by simp) _) ?_
    refine Quiet.append (quiet_of_not_mem (by decide) _ _) ?_
    exact Quiet.append (quiet_lines hp.edges hstarts _ _) (quiet_of_not_mem (by decide) _ _)
  · simp [lastOf]

/-! ## Reading back -/

theorem not_mem_line {e : Edge} (hw : e.Written) : ';' ∉ e.line := by
  have hsemicolon : isWordChar ';' = false := by decide
  have hsymbol : ';' ∉ e.comm.direction.symbol.toList := by
    cases e.comm.direction <;> decide
  have hreset : ';' ∉ resetChars e.resets := by
    cases e.resets <;> decide
  simp [Edge.line, e.toList_text, hw.start.not_mem hsemicolon, hw.target.not_mem hsemicolon,
    hw.partner.not_mem hsemicolon, hw.payload.not_mem hsemicolon, hsymbol, hreset,
    not_mem_chars e.guard.expr (c := ';') (by decide)]

theorem not_mem_header {header : Header} (hw : header.Written) : ';' ∉ header.chars := by
  have hsemicolon : isWordChar ';' = false := by decide
  simp [Header.chars, hw.label.not_mem hsemicolon, hw.initial.not_mem hsemicolon]

/-- The clauses of printed edges are read as edges that differ in spelling and position only. -/
theorem edges_of_lines {es : List Edge} (hes : ∀ e ∈ es, e.Written) {cs : List Clause}
    (hcs : cs.map Clause.text = es.map fun e => e.text.toList) :
    ∃ es', List.Forall₂ (fun c e => c.edge = .ok e) cs es' ∧
      es'.map Edge.bare = es.map Edge.bare := by
  induction es generalizing cs with
  | nil =>
    obtain rfl : cs = [] := by simpa using hcs
    exact ⟨[], .nil, rfl⟩
  | cons e es ih =>
    obtain ⟨c, cs, rfl, hc, hrest⟩ := List.map_eq_cons_iff.1 hcs
    simp only [List.forall_mem_cons] at hes
    obtain ⟨es', hes', hbare⟩ := ih hes.2 hrest
    refine ⟨_ :: es', .cons (Clause.edge_text hes.1 hc) hes', ?_⟩
    simp [hbare, Edge.bare]

/-- A printed automaton is read back, up to spelling and positions. -/
theorem Parts.isWritten_chars {p : Parts} (hp : p.Written) {piece : Clause} {tail : List Char}
    (htail : Text.IsBlank tail) (hpiece : piece.text = p.chars ++ tail) :
    ∃ a, Network.IsWritten piece a ∧ a.bare = p.automaton.bare := by
  have hclauses : ∀ w ∈ p.header.chars :: p.edges.map Edge.line, ';' ∉ w := by
    simp only [List.forall_mem_cons, List.forall_mem_map]
    exact ⟨not_mem_header hp.header, fun e he => not_mem_line (hp.edges e he)⟩
  have hblank : Text.IsBlank ('\n' :: tail) := by
    simpa [Text.IsBlank] using ⟨by decide, htail⟩
  have hwhole : piece.text = closed (p.header.chars :: p.edges.map Edge.line) ++ '\n' :: tail := by
    simp [hpiece, Parts.chars]
  obtain ⟨d, hd, hdheader, hdedges⟩ := ofPiece_clauses hwhole hclauses hblank
  have hlines : d.edges.map Clause.text = p.edges.map fun e => e.text.toList := by
    rw [hdedges, List.map_map]
    refine List.map_congr_left fun e he => ?_
    have hindent : Text.IsBlank ['\n', ' ', ' ', ' ', ' '] := by decide
    have hnone : Text.IsBlank [] := by decide
    simpa [Edge.line] using Text.trim_append hindent (Edge.dense_text (hp.edges e he)) hnone
  rw [Text.trim_of_dense (dense_chars hp.header)] at hdheader
  obtain ⟨es, hes, hbare⟩ := edges_of_lines hp.edges hlines
  refine ⟨_, ⟨d, hd, automaton_eq_ok_iff.2
    ⟨p.header, es, Clause.header_chars hp.header hdheader, hes, rfl⟩⟩, ?_⟩
  exact Automaton.bare_ofEdges _ _ hbare

theorem Network.read_blocks {ps : List Parts} (hps : ∀ p ∈ ps, p.Written)
    (hblocks : ∀ p ∈ ps, IsBlock p.chars)
    (hlabels : ((ps.map Parts.automaton).map Automaton.label).Nodup) :
    ∃ again, Network.read (String.ofList (['\n'].intercalate (ps.map Parts.chars))) = .ok again ∧
      again.map Automaton.bare = (ps.map Parts.automaton).map Automaton.bare := by
  have hall : ∀ b ∈ ps.map Parts.chars, IsBlock b := by simpa using hblocks
  obtain ⟨hhead, hpieces⟩ := cut_blocks hall (show opensAfter none = true from rfl) 0
  set pieces := (cut 0 none (['\n'].intercalate (ps.map Parts.chars))).2 with hdef
  rw [List.forall₂_map_right_iff] at hpieces
  have hwritten : List.Forall₂
      (fun piece p => ∃ a, Network.IsWritten piece a ∧ a.bare = p.automaton.bare) pieces ps := by
    refine List.forall₂_iff_zip.2 ⟨hpieces.length_eq, fun hmem => ?_⟩
    obtain ⟨tail, htail, hpiece⟩ := List.forall₂_zip hpieces hmem
    exact Parts.isWritten_chars (hps _ (List.of_mem_zip hmem).2) htail hpiece
  obtain ⟨again, hread, hsame⟩ := Fallible.forall₂_comp_iff.1 hwritten
  have hbare : again.map Automaton.bare = (ps.map Parts.automaton).map Automaton.bare := by
    rw [List.map_map, ← List.forall₂_eq_eq_eq, List.forall₂_map_left_iff,
      List.forall₂_map_right_iff]
    exact hsame
  have hagain : again.map Automaton.label = (ps.map Parts.automaton).map Automaton.label := by
    have hlabel := congrArg (List.map Automaton.label) hbare
    simpa [Function.comp_def] using hlabel
  refine ⟨again, read_eq_ok_iff.2 ⟨?_, ?_, hagain ▸ hlabels⟩, hbare⟩
  · simp [hhead, Text.IsBlank]
  · simpa using hread

/-! ## Words that look like a declaration -/

/-- Every block of a text stands where a declaration can start. -/
theorem exists_split_intercalate {blocks : List (List Char)} {b : List Char} (hb : b ∈ blocks) :
    ∃ front rest, ['\n'].intercalate blocks = front ++ (b ++ rest) ∧
      ∀ before, opensAfter before = true → opensAfter (lastOf before front) = true := by
  induction blocks with
  | nil => simp at hb
  | cons c blocks ih =>
    cases blocks with
    | nil =>
      obtain rfl : b = c := by simpa using hb
      exact ⟨[], [], by simp, fun before h => h⟩
    | cons next blocks =>
      rw [List.intercalate_cons_cons]
      rcases List.mem_cons.1 hb with rfl | hb
      · exact ⟨[], ['\n'] ++ ['\n'].intercalate (next :: blocks), by simp, fun before h => h⟩
      · obtain ⟨front, rest, hsplit, hopens⟩ := ih hb
        refine ⟨c ++ (['\n'] ++ front), rest, by simp [hsplit], fun before _ => ?_⟩
        simp only [lastOf_append, lastOf]
        exact hopens _ (by decide)

/-- In a text that is read, every marker that can start a declaration does. -/
theorem Network.isWritten_of_read {printed : String} {net : Network}
    (h : read printed = .ok net) {front rest : List Char}
    (hsplit : printed.toList = front ++ (marker ++ rest))
    (hopens : opensAfter (lastOf none front) = true) :
    ∃ offset a, IsWritten ⟨marker ++ (cut (offset + 4) (some ' ') rest).1, offset⟩ a := by
  obtain ⟨-, hwritten, -⟩ := read_eq_ok_iff.1 h
  have hsuffix := pieces_append none front (marker ++ rest) 0
  rw [← hsplit, cut_marker hopens] at hsuffix
  obtain ⟨a, -, ha⟩ := Fallible.exists_of_mem_left hwritten
    (hsuffix.subset (List.mem_cons_self ..))
  exact ⟨_, a, ha⟩

/-- A marker after a marker leaves the first one without its clause. -/
theorem Network.read_marker_marker (printed : String) (net : Network) (front rest : List Char)
    (hsplit : printed.toList = front ++ (marker ++ (marker ++ rest)))
    (hopens : opensAfter (lastOf none front) = true) : read printed ≠ .ok net := by
  intro h
  obtain ⟨offset, a, d, hd, -⟩ := isWritten_of_read h hsplit hopens
  rw [cut_marker (by decide)] at hd
  simpa [marker] using mem_of_ofPiece hd

/-- The rest of an edge does not continue a header. -/
theorem header?_tail {e : Edge} (hw : e.Written) : header? (marker ++ e.tail) = none := by
  have hsymbol (cs : List Char) : EndsWord (e.comm.direction.symbol.toList ++ cs) ∧
      literal? ['='] (skipSpaces (e.comm.direction.symbol.toList ++ cs)) = none := by
    cases e.comm.direction <;>
      simp [Direction.symbol, isWordChar, skipSpaces, isSpace, literal?]
  have hspaces : spaces? (' ' :: e.tail) = some e.tail :=
    spaces?_eq_some_iff.2 ⟨.single, by simp [Spaces.single], rfl, hw.partner.startsDense _⟩
  have hcta : literal? ['C', 't', 'a'] (skipSpaces (marker ++ e.tail)) = some (' ' :: e.tail) :=
    (literal?_skipSpaces_eq_some_iff (by decide)).2 ⟨.none, rfl⟩
  have hpartner := word?_append hw.partner (hsymbol (e.comm.payload.toList ++ (['('] ++
    (e.guard.expr.chars ++ (resetChars e.resets ++ [')', ' '])) ++ e.target.toList))).1
  simp only [header?, hcta, hspaces, Option.bind_eq_bind, Option.bind_some]
  rw [Edge.tail, hpartner]
  simp only [Option.bind_some, (hsymbol _).2, Option.bind_none]

/-- An edge after a marker is taken for a header. -/
theorem Network.read_marker_tail (printed : String) (net : Network) {e : Edge} (hw : e.Written)
    (hstart : e.start.toList = ['C', 't', 'a']) (front rest : List Char)
    (hsplit : printed.toList = front ++ (marker ++ (e.tail ++ ';' :: rest)))
    (hopens : opensAfter (lastOf none front) = true) : read printed ≠ .ok net := by
  intro h
  obtain ⟨offset, a, d, hd, hda⟩ := isWritten_of_read h hsplit hopens
  obtain ⟨header, -, hheader, -⟩ := automaton_eq_ok_iff.1 hda
  have htext : marker ++ e.tail = e.text.toList := by
    simp [e.toList_text_tail, hstart, marker]
  have hsemicolon : ';' ∉ marker ++ e.tail := by
    have hline := not_mem_line hw
    simp only [Edge.line, List.mem_append, not_or] at hline
    exact htext ▸ hline.2
  have hquiet : Quiet (some ' ') (e.tail ++ [';']) rest :=
    Quiet.append (quiet_tail hw _ _) (quiet_of_not_mem (by decide) _ _)
  rw [List.append_cons, cut_append hquiet] at hd
  generalize (cut _ _ rest).1 = later at hd
  have hpiece : marker ++ (e.tail ++ [';'] ++ later) = (marker ++ e.tail) ++ ';' :: later := by
    simp
  have hclause : d.header.text = marker ++ e.tail := by
    have htrim := header_of_ofPiece hd hpiece hsemicolon
    rwa [Text.trim_of_dense (htext ▸ Edge.dense_text hw)] at htrim
  rw [Clause.header_eq_ok_iff, hclause, header?_tail hw] at hheader
  simp at hheader

/-! ## The round trip -/

/-- Neither the label nor a state that a transition leaves is the word of the marker. -/
def Automaton.AvoidsMarker (a : Automaton) : Prop :=
  a.label ≠ "Cta" ∧ ∀ t ∈ a.transitions, a.stateName? t.start ≠ some "Cta"

instance (a : Automaton) : Decidable a.AvoidsMarker :=
  inferInstanceAs (Decidable (_ ∧ _))

theorem Parts.avoidsMarker_iff (p : Parts) : p.automaton.AvoidsMarker ↔
    p.header.label.toList ≠ ['C', 't', 'a'] ∧
      ∀ e ∈ p.edges, e.start.toList ≠ ['C', 't', 'a'] := by
  have hword (s : String) : s = "Cta" ↔ s.toList = ['C', 't', 'a'] := by
    rw [← String.toList_inj]
    rfl
  have h := p.represents
  simp only [Automaton.AvoidsMarker, h.label, ne_eq, hword]
  refine and_congr_right fun _ => ⟨fun hall e he => ?_, fun hall t ht => ?_⟩
  · obtain ⟨t, ht, hte⟩ := Fallible.exists_of_mem_right h.edges he
    have := hall t ht
    rwa [hte.start, Option.some.injEq, hword] at this
  · obtain ⟨e, he, hte⟩ := Fallible.exists_of_mem_left h.edges ht
    rw [hte.start, Option.some.injEq, hword]
    exact hall e he

/-- A network with such a word is printed as a text that is refused. -/
theorem Network.read_ne_ok {ps : List Parts} (hps : ∀ p ∈ ps, p.Written) {p : Parts}
    (hp : p ∈ ps) (havoids : ¬ p.automaton.AvoidsMarker) (net : Network) :
    read (String.ofList (['\n'].intercalate (ps.map Parts.chars))) ≠ .ok net := by
  obtain ⟨front, rest, hsplit, hopens⟩ :=
    exists_split_intercalate (List.mem_map_of_mem (f := Parts.chars) hp)
  rw [p.avoidsMarker_iff, not_and_or] at havoids
  rcases havoids with hlabel | hstarts
  · have hlabel : p.header.label.toList = ['C', 't', 'a'] := by simpa using hlabel
    refine read_marker_marker _ net front (['=', ' ', 'I', 'n', 'i', 't', ' '] ++
      (p.header.initial.toList ++ (';' :: (closed (p.edges.map Edge.line) ++ '\n' :: rest)))) ?_
      (hopens none rfl)
    simp [hsplit, Parts.chars, closed, Header.chars, hlabel, marker]
  · obtain ⟨e, he, hstart⟩ : ∃ e ∈ p.edges, e.start.toList = ['C', 't', 'a'] := by
      simpa using hstarts
    obtain ⟨es, fs, hes⟩ := List.append_of_mem he
    refine read_marker_tail _ net ((hps p hp).edges e he) hstart
      (front ++ (closed (p.header.chars :: es.map Edge.line) ++ ['\n', ' ', ' ', ' ', ' ']))
      (closed (fs.map Edge.line) ++ '\n' :: rest) ?_ ?_
    · simp [hsplit, Parts.chars, closed, hes, Edge.line, e.toList_text_tail, hstart, marker]
    · simp only [lastOf_append, lastOf]
      decide

/-- A network that was read is printed, and the printed text is read back as the same network up
to the spelling of guards and positions, exactly if no automaton has the label `Cta` and no
transition leaves a state of that name. Otherwise the printed text is refused. -/
theorem Network.round_trip {text : String} {net : Network} (h : read text = .ok net) :
    ∃ printed, net.text? = some printed ∧
      ((∃ again, read printed = .ok again ∧
          again.map Automaton.bare = net.map Automaton.bare) ↔
        ∀ a ∈ net, a.AvoidsMarker) ∧
      ((∃ a ∈ net, ¬ a.AvoidsMarker) → ∃ e, read printed = .error e) := by
  have hlabels := nodup_labels_of_read h
  obtain ⟨ps, hps, rfl⟩ := exists_parts_of_read h
  refine ⟨_, Network.text?_parts ps, ⟨?_, ?_⟩, ?_⟩
  · rintro ⟨again, hagain, -⟩ a ha
    obtain ⟨p, hp, rfl⟩ := List.mem_map.1 ha
    by_contra havoids
    exact read_ne_ok hps hp havoids again hagain
  · intro havoids
    refine read_blocks hps (fun p hp => ?_) hlabels
    obtain ⟨hlabel, hstarts⟩ :=
      p.avoidsMarker_iff.1 (havoids _ (List.mem_map_of_mem (f := Parts.automaton) hp))
    exact Parts.isBlock_chars (hps p hp) hlabel hstarts
  · rintro ⟨a, ha, havoids⟩
    obtain ⟨p, hp, rfl⟩ := List.mem_map.1 ha
    cases hread : read (String.ofList (['\n'].intercalate (ps.map Parts.chars))) with
    | ok net => exact absurd hread (read_ne_ok hps hp havoids net)
    | error e => exact ⟨e, rfl⟩

/-- Two networks that differ in one word: a state can be called `Cta` if transitions only enter
it. -/
theorem Network.round_trip_entering_and_leaving :
    (∃ net printed again,
      read "Cta A = Init s; s B!m(0<x<5||!(true),\x7b x \x7d) Cta;\nCta B=Init s;s A ? m() s;" =
        .ok net ∧
      net.text? = some printed ∧ read printed = .ok again ∧
      again.map Automaton.bare = net.map Automaton.bare) ∧
    ∃ net printed e,
      read "Cta A = Init s; Cta\tB!m(0<x<5||!(true),\x7b x \x7d) s;\nCta B=Init s;s A ? m() s;" =
        .ok net ∧
      net.text? = some printed ∧ read printed = .error e := by
  constructor
  · obtain ⟨net, hnet, havoids⟩ := Fallible.exists_ok_of_any
      (x := read
        "Cta A = Init s; s B!m(0<x<5||!(true),\x7b x \x7d) Cta;\nCta B=Init s;s A ? m() s;")
      (P := fun net => ∀ a ∈ net, a.AvoidsMarker) (by decide +kernel)
    obtain ⟨printed, hprinted, hback, -⟩ := Network.round_trip hnet
    obtain ⟨again, hagain, hsame⟩ := hback.2 havoids
    exact ⟨net, printed, again, hnet, hprinted, hagain, hsame⟩
  · obtain ⟨net, hnet, hmark⟩ := Fallible.exists_ok_of_any
      (x := read
        "Cta A = Init s; Cta\tB!m(0<x<5||!(true),\x7b x \x7d) s;\nCta B=Init s;s A ? m() s;")
      (P := fun net => ∃ a ∈ net, ¬ a.AvoidsMarker) (by decide +kernel)
    obtain ⟨printed, hprinted, -, hrefused⟩ := Network.round_trip hnet
    obtain ⟨e, he⟩ := hrefused hmark
    exact ⟨net, printed, e, hnet, hprinted, he⟩

end TimedAutomata
