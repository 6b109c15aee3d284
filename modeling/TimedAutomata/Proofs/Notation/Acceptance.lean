import Mathlib.Data.List.Nodup
import TimedAutomata.Proofs.Automaton.Discovery
import TimedAutomata.Proofs.Notation.Alphabet
import TimedAutomata.Proofs.Notation.Cutting
import TimedAutomata.Proofs.Notation.Reading

/-!
# Reading accepts exactly the notation

A text is read as a network exactly if it is spelled as a valid document, and the network is what
the document stands for. Acceptance is decided in several stages; each has its own equivalence.

* `balanced_of_rawGuard?`: what is taken for a guard is balanced
* `Spelling.header?_eq_some_iff_spelled`, `Spelling.edge?_eq_some_iff_spelled`: clauses
* `Spelling.exists_of_isWritten`, `Spelling.Declaration.exists_isWritten`: declarations
* `Spelling.Document.Valid.cutAt`: a valid document is cut into its declarations
* `Network.read_iff_spelled`: whole texts
-/

namespace TimedAutomata

open Grammar Declaration

/-! ## Raw guards -/

theorem Balanced.passes {w : List Char} (h : Balanced w) : Passes w := by
  induction h with
  | nil => exact passes_nil
  | char hopen hclose hcomma _ ih => exact (passes_singleton hopen hclose hcomma).append ih
  | paren _ _ ihv ihw => simpa using ihv.paren.append ihw

/-- Text that closes `depth` parentheses and is balanced apart from that. -/
def Closes : (depth : Nat) → List Char → Prop
  | 0, w => Balanced w
  | depth + 1, w => ∃ u v, w = u ++ ')' :: v ∧ Balanced u ∧ Closes depth v

theorem Closes.char {depth : Nat} {c : Char} {w : List Char} (hopen : c ≠ '(') (hclose : c ≠ ')')
    (hcomma : c ≠ ',') (h : Closes depth w) : Closes depth (c :: w) := by
  cases depth with
  | zero => exact Balanced.char hopen hclose hcomma h
  | succ depth =>
    rcases h with ⟨u, v, rfl, hu, hv⟩
    exact ⟨c :: u, v, rfl, hu.char hopen hclose hcomma, hv⟩

/-- A parenthesis that is opened is the first to be closed. -/
theorem Closes.open {depth : Nat} {w : List Char} (h : Closes (depth + 1) w) :
    Closes depth ('(' :: w) := by
  rcases h with ⟨u, v, rfl, hu, hv⟩
  cases depth with
  | zero => exact hu.paren hv
  | succ depth =>
    rcases hv with ⟨u', v', rfl, hu', hv'⟩
    exact ⟨'(' :: (u ++ ')' :: u'), v', by simp, hu.paren hu', hv'⟩

theorem closes_of_rawGuard? {depth : Nat} {cs guard rest : List Char}
    (h : rawGuard? depth cs = some (guard, rest)) : Closes depth guard := by
  induction cs generalizing depth guard with
  | nil => simp [rawGuard?] at h
  | cons c cs ih =>
    unfold rawGuard? at h
    split at h
    · obtain ⟨rfl, -⟩ := Prod.mk.inj (Option.some.inj h)
      exact Balanced.nil
    · obtain ⟨rfl, -⟩ := Prod.mk.inj (Option.some.inj h)
      exact Balanced.nil
    · simp at h
    · rcases Option.map_eq_some_iff.1 h with ⟨⟨g, r⟩, hg, heq⟩
      obtain ⟨rfl, rfl⟩ := Prod.mk.inj heq
      exact (ih hg).open
    · rcases Option.map_eq_some_iff.1 h with ⟨⟨g, r⟩, hg, heq⟩
      obtain ⟨rfl, rfl⟩ := Prod.mk.inj heq
      exact ⟨[], g, rfl, .nil, ih hg⟩
    · rcases Option.map_eq_some_iff.1 h with ⟨⟨g, r⟩, hg, heq⟩
      obtain ⟨rfl, rfl⟩ := Prod.mk.inj heq
      -- the three characters that mean something were dealt with at every depth
      refine (ih hg).char ?_ ?_ ?_
      all_goals
        rintro rfl
        cases depth <;> simp_all

theorem balanced_of_rawGuard? {cs guard rest : List Char}
    (h : rawGuard? 0 cs = some (guard, rest)) : Balanced guard :=
  closes_of_rawGuard? h

/-! ## Clauses -/

namespace Spelling

theorem Header.written (h : Header) :
    (⟨h.label.text, h.initial.text⟩ : TimedAutomata.Header).Written where
  label := by simpa [Word.text] using h.label.word
  initial := by simpa [Word.text] using h.initial.word

/-- A clause is read as a header exactly if it is spelled as one. -/
theorem header?_eq_some_iff_spelled {cs : List Char} {header : TimedAutomata.Header} :
    header? cs = some header ↔ ∃ (s s' : Spaces) (h : Header),
      cs = s.chars ++ (h.chars ++ s'.chars) ∧ header = ⟨h.label.text, h.initial.text⟩ := by
  rw [header?_eq_some_iff]
  constructor
  · rintro ⟨hw, s₀, s₁, s₂, s₃, s₄, s₅, hs₁, hs₄, rfl⟩
    refine ⟨s₀, s₅, ⟨s₁, ⟨_, hw.label⟩, s₂, s₃, s₄, ⟨_, hw.initial⟩, hs₁, hs₄⟩, ?_, ?_⟩
    · simp [Header.chars]
    · simp [Word.text]
  · rintro ⟨s, s', h, rfl, rfl⟩
    refine ⟨h.written, s, h.afterCta, h.beforeEquals, h.afterEquals, h.afterInit, s',
      h.afterCta_ne, h.afterInit_ne, ?_⟩
    simp [Header.chars, Word.text]

/-- The mark is there exactly if the clock is reset. -/
theorem resetMark_iff {resets : Bool} {mark : List Char} :
    ResetMark resets mark ↔ ∃ reset : Option Reset,
      reset.isSome = resets ∧ mark = (reset.map Reset.chars).getD [] := by
  cases resets with
  | false =>
    constructor
    · intro h
      exact ⟨none, rfl, h⟩
    · rintro ⟨reset, hnone, rfl⟩
      obtain rfl : reset = none := by simpa using hnone
      rfl
  | true =>
    constructor
    · rintro ⟨s₀, s₁, s₂, s₃, rfl⟩
      exact ⟨some ⟨s₀, s₁, s₂, s₃⟩, rfl, rfl⟩
    · rintro ⟨reset, hsome, rfl⟩
      rcases Option.isSome_iff_exists.1 hsome with ⟨r, rfl⟩
      exact ⟨r.afterComma, r.beforeClock, r.afterClock, r.beforeClose, rfl⟩

/-- What an edge says before its guard is looked at. -/
def Edge.raw (e : Edge) : RawEdge :=
  ⟨e.start.text, e.target.text, e.comm, e.guard, e.reset.isSome⟩

theorem Edge.written (e : Edge) : e.raw.Written where
  start := by simpa [raw, Word.text] using e.start.word
  target := by simpa [raw, Word.text] using e.target.word
  partner := by simpa [raw, comm, Word.text] using e.partner.word
  payload := by simpa [raw, comm, Word.text] using e.payload.word

/-- A clause is read as an edge exactly if it is spelled as one. -/
theorem edge?_eq_some_iff_spelled {cs : List Char} {raw : RawEdge} :
    edge? cs = some raw ↔ ∃ (s s' : Spaces) (e : Edge),
      cs = s.chars ++ (e.chars ++ s'.chars) ∧ raw = e.raw := by
  rw [edge?_eq_some_iff]
  constructor
  · rintro ⟨hw, s₀, s₁, s₂, s₃, s₄, s₅, s₆, mark, group, hs₁, hmark, hguard, rfl⟩
    rcases resetMark_iff.1 hmark with ⟨reset, hreset, rfl⟩
    refine ⟨s₀, s₆, ⟨⟨_, hw.start⟩, s₁, ⟨_, hw.partner⟩, s₂, raw.comm.direction, s₃,
      ⟨_, hw.payload⟩, s₄, raw.guard, reset, s₅, ⟨_, hw.target⟩, hs₁,
      balanced_of_rawGuard? hguard⟩, ?_, ?_⟩
    · simp [Edge.chars, Edge.mark, append_of_rawGuard? hguard]
    · simp [Edge.raw, Edge.comm, Word.text, hreset]
  · rintro ⟨s, s', e, rfl, rfl⟩
    have hmark : ResetMark e.raw.resets e.mark := resetMark_iff.2 ⟨e.reset, rfl, rfl⟩
    refine ⟨e.written, s, e.afterStart, e.beforeSymbol, e.afterSymbol, e.beforeGroup,
      e.afterGroup, s', e.mark, _, e.afterStart_ne, hmark,
      e.balanced.passes.rawGuard? hmark _, ?_⟩
    simp [Edge.chars, Edge.raw, Edge.comm, Word.text]

/-! ## Blanks around clauses -/

theorem Header.dense (h : Header) : Text.Dense h.chars := by
  have hcta : IsWord ['C', 't', 'a'] := by decide
  have hdense := hcta.dense.sandwich h.initial.word.dense (h.afterCta.chars ++ (h.label.chars ++
    (h.beforeEquals.chars ++ (['='] ++ (h.afterEquals.chars ++ (['I', 'n', 'i', 't'] ++
      h.afterInit.chars))))))
  simpa [Header.chars] using hdense

theorem Edge.dense (e : Edge) : Text.Dense e.chars := by
  have hdense := e.start.word.dense.sandwich e.target.word.dense (e.afterStart.chars ++
    (e.partner.chars ++ (e.beforeSymbol.chars ++ (e.direction.symbol.toList ++
      (e.afterSymbol.chars ++ (e.payload.chars ++ (e.beforeGroup.chars ++ (['('] ++ (e.guard ++
        (e.mark ++ ([')'] ++ e.afterGroup.chars)))))))))))
  simpa [Edge.chars] using hdense

/-- Trimming leaves one of some dense texts between separators exactly if that text stands between
blanks. -/
theorem exists_trim_iff {ι : Type} {text : ι → List Char} (hdense : ∀ i, Text.Dense (text i))
    {P : ι → Prop} {w : List Char} :
    (∃ (s s' : Spaces) (i : ι), Text.trim w = s.chars ++ (text i ++ s'.chars) ∧ P i) ↔
      ∃ (before after : Text.Blanks) (i : ι),
        w = before.chars ++ (text i ++ after.chars) ∧ P i := by
  constructor
  · rintro ⟨s, s', i, htrim, hi⟩
    rcases Text.exists_blank_ends w with ⟨before, after, hbefore, hafter, hw⟩
    have hs : Text.IsBlank s.chars := fun c hc => isBlank_of_isSpace (s.separate c hc)
    have hs' : Text.IsBlank s'.chars := fun c hc => isBlank_of_isSpace (s'.separate c hc)
    refine ⟨⟨before ++ s.chars, ?_⟩, ⟨s'.chars ++ after, ?_⟩, i, ?_, hi⟩
    · exact List.forall_mem_append.2 ⟨hbefore, hs⟩
    · exact List.forall_mem_append.2 ⟨hs', hafter⟩
    · rw [hw, htrim]
      simp
  · rintro ⟨before, after, i, rfl, hi⟩
    refine ⟨.none, .none, i, ?_, hi⟩
    rw [Text.trim_append before.blank (hdense i) after.blank]
    simp [Spaces.none]

/-- A clause is read as a header exactly if the text it was trimmed from is spelled as a header
between blanks. -/
theorem header_eq_ok_iff_spelled {c : Clause} {w : List Char} (hc : c.text = Text.trim w)
    {header : TimedAutomata.Header} :
    c.header = .ok header ↔ ∃ (before after : Text.Blanks) (h : Header),
      w = before.chars ++ (h.chars ++ after.chars) ∧
      header = ⟨h.label.text, h.initial.text⟩ := by
  rw [Clause.header_eq_ok_iff, hc, header?_eq_some_iff_spelled]
  exact exists_trim_iff Header.dense

/-- What is read from an edge, up to its position. -/
structure Edge.Says (s : Edge) (e : TimedAutomata.Edge) : Prop where
  start : e.start = s.start.text
  target : e.target = s.target.text
  comm : e.comm = s.comm
  guard : Guard.read s.guard = .ok e.guard
  resets : e.resets = s.reset.isSome

/-- A clause is read as an edge exactly if the text it was trimmed from is spelled as that edge
between blanks. -/
theorem edge_eq_ok_iff_spelled {c : Clause} {w : List Char} (hc : c.text = Text.trim w)
    {e : TimedAutomata.Edge} :
    c.edge = .ok e ↔ e.span = c.span ∧ ∃ cl : EdgeClause, w = cl.chars ∧ cl.edge.Says e := by
  have hpadded := exists_trim_iff Edge.dense (P := fun s => s.Says e) (w := w)
  rw [Clause.edge_eq_ok_iff, hc]
  constructor
  · rintro ⟨raw, hread, hguard, he⟩
    rcases edge?_eq_some_iff_spelled.1 hread with ⟨s, s', spelled, htrim, rfl⟩
    have hmeant : spelled.Says e := by
      rw [he]
      exact ⟨rfl, rfl, rfl, hguard, rfl⟩
    rcases hpadded.1 ⟨s, s', spelled, htrim, hmeant⟩ with ⟨b, a, t, hw, ht⟩
    exact ⟨by rw [he], ⟨b, t, a⟩, hw, ht⟩
  · rintro ⟨hspan, cl, hw, hmeant⟩
    rcases hpadded.2 ⟨cl.before, cl.after, cl.edge, hw, hmeant⟩ with ⟨s, s', t, htrim, ht⟩
    refine ⟨t.raw, edge?_eq_some_iff_spelled.2 ⟨s, s', t, htrim, rfl⟩, ht.guard, ?_⟩
    simp only [Edge.raw, ← ht.start, ← ht.target, ← ht.comm, ← ht.resets, ← hspan]

/-! ## Declarations -/

/-- The clauses that were trimmed from `ws` are read as edges exactly if they are spelled as these
edges. -/
theorem exists_edgeClauses {cs : List Clause} {ws : List (List Char)}
    (hcs : cs.map Clause.text = ws.map Text.trim) {es : List TimedAutomata.Edge}
    (h : List.Forall₂ (fun c e => c.edge = .ok e) cs es) :
    ∃ cls : List EdgeClause, ws = cls.map EdgeClause.chars ∧
      List.Forall₂ (fun cl e => cl.edge.Says e) cls es := by
  induction h generalizing ws with
  | nil =>
    obtain rfl : ws = [] := by simpa [eq_comm] using hcs
    exact ⟨[], rfl, .nil⟩
  | cons hc _ ih =>
    rcases List.map_eq_cons_iff.1 hcs.symm with ⟨w, ws, rfl, hw, hws⟩
    rcases ih hws.symm with ⟨cls, rfl, hcls⟩
    rcases ((edge_eq_ok_iff_spelled hw.symm).1 hc).2 with ⟨cl, rfl, hcl⟩
    exact ⟨cl :: cls, rfl, .cons hcl hcls⟩

theorem exists_edges {cls : List EdgeClause}
    (hcls : ∀ cl ∈ cls, ∃ g, Guard.read cl.edge.guard = .ok g) {cs : List Clause}
    (hcs : cs.map Clause.text = (cls.map EdgeClause.chars).map Text.trim) :
    ∃ es, List.Forall₂ (fun c e => c.edge = .ok e) cs es ∧
      List.Forall₂ (fun cl e => cl.edge.Says e) cls es := by
  induction cls generalizing cs with
  | nil =>
    obtain rfl : cs = [] := by simpa using hcs
    exact ⟨[], .nil, .nil⟩
  | cons cl cls ih =>
    rcases List.map_eq_cons_iff.1 hcs with ⟨c, cs, rfl, hc, hcs⟩
    simp only [List.forall_mem_cons] at hcls
    rcases ih hcls.2 hcs with ⟨es, hes, hmeant⟩
    rcases hcls.1 with ⟨g, hg⟩
    have hcl : cl.edge.Says
        ⟨cl.edge.start.text, cl.edge.target.text, cl.edge.comm, g, cl.edge.reset.isSome, c.span⟩ :=
      ⟨rfl, rfl, rfl, hg, rfl⟩
    exact ⟨_ :: es, .cons ((edge_eq_ok_iff_spelled hc).2 ⟨rfl, cl, rfl, hcl⟩) hes,
      .cons hcl hmeant⟩

theorem flatMap_names {cls : List EdgeClause} {es : List TimedAutomata.Edge}
    (h : List.Forall₂ (fun cl e => cl.edge.Says e) cls es) :
    es.flatMap (fun e => [e.start, e.target]) =
      cls.flatMap fun cl => [cl.edge.start.text, cl.edge.target.text] := by
  induction h with
  | nil => rfl
  | cons hcl _ ih => simp [hcl.start, hcl.target, ih]

/-- An automaton made from the edges of a declaration is what the declaration stands for. -/
theorem Declaration.denotes_ofEdges (d : Declaration) (source : Clause)
    (hsource : source.text = Text.trim d.chars) {es : List TimedAutomata.Edge}
    (hes : List.Forall₂ (fun cl e => cl.edge.Says e) d.edges es) :
    d.Denotes (Automaton.ofEdges ⟨d.header.label.text, d.header.initial.text⟩ source es) := by
  have hrep := Automaton.represents_ofEdges
    ⟨d.header.label.text, d.header.initial.text⟩ source es
  have hwell := Automaton.wellFormed_ofEdges
    ⟨d.header.label.text, d.header.initial.text⟩ source es
  refine ⟨hrep.label, hrep.initial, ?_, hwell.indexed, ?_, hwell.outgoing,
    Automaton.endStates_ofEdges _ _ _, by rw [Automaton.source_ofEdges, hsource]⟩
  · rw [Automaton.stateNames_ofEdges, flatMap_names hes]
  · have hboth := Fallible.forall₂_comp_iff.2 ⟨es, hes, hrep.edges.flip⟩
    refine hboth.imp ?_
    rintro cl t ⟨e, hmeant, hedge⟩
    exact ⟨hmeant.start ▸ hedge.start, hmeant.target ▸ hedge.target, hedge.comm.trans hmeant.comm,
      hedge.guard ▸ hmeant.guard, hedge.resets.trans hmeant.resets⟩

/-- A marker leaves no room for blanks in front of it. -/
theorem blanks_eq_nil {before : Text.Blanks} {rest : List Char}
    (h : marker <+: before.chars ++ rest) : before.chars = [] := by
  cases hb : before.chars with
  | nil => rfl
  | cons c cs =>
    have hblank : Text.isBlank c = true := before.blank c (by simp [hb])
    rw [hb, marker, List.cons_append, List.cons_prefix_cons] at h
    obtain rfl := h.1
    exact absurd hblank (by decide)

/-- A marker in front of a header is part of the header. -/
theorem Header.marker_isPrefix (h : Header) {rest : List Char}
    (hmarker : marker <+: h.chars ++ rest) : marker <+: h.chars := by
  refine List.prefix_of_prefix_length_le hmarker (List.prefix_append _ _) ?_
  have hgap := List.length_pos_of_ne_nil h.afterCta_ne
  simp only [marker, Header.chars, List.length_append, List.length_cons, List.length_nil]
  omega

/-- A piece that is read as an automaton is spelled as a declaration that stands for it. -/
theorem exists_of_isWritten {piece : Clause} {a : Automaton} (hmarker : marker <+: piece.text)
    (h : Network.IsWritten piece a) :
    ∃ d : Declaration, (piece.text = d.chars ∧ d.Guarded) ∧ d.Denotes a := by
  rcases h with ⟨d, hd, hda⟩
  rcases clauses_of_ofPiece hd with ⟨w, ws, tail, hpiece, htail, hheader, hedges⟩
  rcases automaton_eq_ok_iff.1 hda with ⟨header, es, hread, hes, rfl⟩
  rcases (header_eq_ok_iff_spelled hheader).1 hread with ⟨before, after, h, rfl, rfl⟩
  rcases exists_edgeClauses hedges hes with ⟨cls, rfl, hmeant⟩
  have hsplit : piece.text = before.chars ++ (h.chars ++ (after.chars ++
      ([';'] ++ (closed (cls.map EdgeClause.chars) ++ tail)))) := by
    simp [hpiece, closed]
  rw [hsplit] at hmarker
  have hbefore := blanks_eq_nil hmarker
  rw [hbefore, List.nil_append] at hmarker hsplit
  let spelled : Declaration := ⟨h, after, cls, ⟨tail, htail⟩, h.marker_isPrefix hmarker⟩
  have hchars : piece.text = spelled.chars := by
    simp [hsplit, spelled, Declaration.chars, Declaration.clauses, closed]
  have hsource : d.whole.text = Text.trim spelled.chars := by
    rw [whole_of_ofPiece hd, Clause.trimmed, hchars]
  refine ⟨spelled, ⟨hchars, ?_⟩, spelled.denotes_ofEdges d.whole hsource hmeant⟩
  · intro cl hcl
    rcases Fallible.exists_of_mem_left hmeant hcl with ⟨e, -, he⟩
    exact ⟨e.guard, he.guard⟩

/-- A piece that is spelled as a declaration is read as an automaton that it stands for. -/
theorem Declaration.exists_isWritten {d : Declaration} (hd : d.Guarded) {piece : Clause}
    (hpiece : piece.text = d.chars) : ∃ a, Network.IsWritten piece a ∧ d.Denotes a := by
  have hclosed : ∀ w ∈ d.clauses, ';' ∉ w :=
    fun w hw => (d.inAlphabet_clauses hd w hw).not_mem (by decide)
  rcases ofPiece_clauses hpiece hclosed d.tail.blank with ⟨read, hread, hheader, hedges⟩
  have hnone : Text.IsBlank [] := by decide
  have hfirst := (header_eq_ok_iff_spelled hheader).2
    ⟨⟨[], hnone⟩, d.afterHeader, d.header, rfl, rfl⟩
  rcases exists_edges hd hedges with ⟨es, hes, hmeant⟩
  refine ⟨_, ⟨read, hread, automaton_eq_ok_iff.2 ⟨_, es, hfirst, hes, rfl⟩⟩, ?_⟩
  have hsource : read.whole.text = Text.trim d.chars := by
    rw [whole_of_ofPiece hread, Clause.trimmed, hpiece]
  exact d.denotes_ofEdges read.whole hsource hmeant

/-! ## Documents -/

theorem opensAfter_blanks {before : Option Char} (h : opensAfter before = true)
    (b : Text.Blanks) : opensAfter (lastOf before b.chars) = true := by
  rcases b with ⟨cs, hcs⟩
  cases cs using List.reverseRecOn with
  | nil => exact h
  | append_singleton cs c =>
    have hc : Text.isBlank c = true := hcs c (by simp)
    simp [lastOf, opensAfter, hc]

/-- After a declaration another one can start. -/
theorem Declaration.opensAfter_chars (d : Declaration) (before : Option Char) :
    opensAfter (lastOf before d.chars) = true := by
  rw [Declaration.chars, lastOf_append]
  apply opensAfter_blanks
  -- the clauses end with a semicolon
  cases h : d.clauses using List.reverseRecOn with
  | nil => simp [Declaration.clauses] at h
  | append_singleton ws w => simp [closed, lastOf, opensAfter]

theorem opensAfter_declarations {before : Option Char} (h : opensAfter before = true)
    (ds : List Declaration) :
    opensAfter (lastOf before (ds.map Declaration.chars).flatten) = true := by
  induction ds generalizing before with
  | nil => exact h
  | cons d ds ih =>
    rw [List.map_cons, List.flatten_cons, lastOf_append]
    exact ih (d.opensAfter_chars before)

theorem Declaration.marker_isPrefix (d : Declaration) : marker <+: d.chars := by
  refine d.marked.trans ?_
  simp [Declaration.chars, Declaration.clauses, closed]

theorem Document.chars_eq (doc : Document) :
    doc.chars = doc.lead.chars ++ (doc.declarations.map Declaration.chars).flatten := by
  rw [Document.chars, List.flatMap_def]

/-- A valid document is cut into its declarations. -/
theorem Document.Valid.cutAt {doc : Document} (h : doc.Valid) :
    CutAt none doc.chars doc.lead.chars (doc.declarations.map Declaration.chars) where
  whole := doc.chars_eq
  nonempty := by
    intro p hp
    rcases List.mem_map.1 hp with ⟨d, -, rfl⟩
    intro hnil
    have hmarker := d.marker_isPrefix
    simp [hnil, marker] at hmarker
  starts := by
    intro front rest hsplit
    rw [startsAt, Bool.and_eq_true_iff, List.isPrefixOf_iff_prefix]
    constructor
    · rintro ⟨hopens, more, rfl⟩
      rw [lastOf_none] at hopens
      rcases h.markers front more hsplit hopens with ⟨ds, d, es, hds, rfl⟩
      exact ⟨ds.map Declaration.chars, d.chars, es.map Declaration.chars, by simp [hds],
        by rw [List.flatMap_def]⟩
    · rintro ⟨ps, p, qs, hpieces, rfl⟩
      rcases List.map_eq_append_iff.1 hpieces with ⟨ds, es, hdocs, rfl, hes⟩
      rcases List.map_eq_cons_iff.1 hes with ⟨d, es, rfl, rfl, rfl⟩
      refine ⟨?_, ?_⟩
      · rw [lastOf_append]
        exact opensAfter_declarations (opensAfter_blanks rfl doc.lead) ds
      · -- what follows starts with the declaration, and that with a marker
        have hrest : rest = d.chars ++ (es.map Declaration.chars).flatten := by
          simpa [doc.chars_eq, hdocs] using hsplit.symm
        rw [hrest]
        exact d.marker_isPrefix.trans (List.prefix_append _ _)

/-- A document that is cut into its declarations has no other markers. -/
theorem Document.markers_of_cutAt {doc : Document}
    (h : CutAt none doc.chars doc.lead.chars (doc.declarations.map Declaration.chars))
    {front rest : List Char} (hsplit : doc.chars = front ++ (marker ++ rest))
    (hopens : opensAfter front.getLast? = true) :
    ∃ ds d es, doc.declarations = ds ++ d :: es ∧
      front = doc.lead.chars ++ ds.flatMap Declaration.chars := by
  have hstarts : startsAt (lastOf none front) (marker ++ rest) = true := by
    rw [startsAt, Bool.and_eq_true_iff, lastOf_none]
    exact ⟨hopens, List.isPrefixOf_iff_prefix.2 (List.prefix_append _ _)⟩
  rcases (h.starts _ _ hsplit).1 hstarts with ⟨ps, p, qs, hpieces, rfl⟩
  rcases List.map_eq_append_iff.1 hpieces with ⟨ds, es, hdocs, rfl, hes⟩
  rcases List.map_eq_cons_iff.1 hes with ⟨d, es, rfl, -, -⟩
  exact ⟨ds, d, es, hdocs, by rw [List.flatMap_def]⟩

/-- Declarations and what they stand for have the same labels. -/
theorem labels_of_denotes {ds : List Declaration} {net : Network}
    (h : List.Forall₂ Declaration.Denotes ds net) :
    net.map Automaton.label = (ds.map fun d => d.header.label.chars).map String.ofList := by
  induction h with
  | nil => rfl
  | cons hd _ ih => simpa [hd.label, Word.text] using ih

/-- Pieces that are spelled as declarations are read one by one. -/
theorem exists_of_pieces {pieces : List Clause} {ds : List Declaration}
    (hpieces : pieces.map Clause.text = ds.map Declaration.chars) (hds : ∀ d ∈ ds, d.Guarded) :
    ∃ net, List.Forall₂ Network.IsWritten pieces net ∧
      List.Forall₂ Declaration.Denotes ds net := by
  induction ds generalizing pieces with
  | nil =>
    obtain rfl : pieces = [] := by simpa using hpieces
    exact ⟨[], .nil, .nil⟩
  | cons d ds ih =>
    rcases List.map_eq_cons_iff.1 hpieces with ⟨piece, pieces, rfl, hpiece, hrest⟩
    simp only [List.forall_mem_cons] at hds
    rcases Declaration.exists_isWritten hds.1 hpiece with ⟨a, ha, hda⟩
    rcases ih hrest hds.2 with ⟨net, hnet, hdenotes⟩
    exact ⟨a :: net, .cons ha hnet, .cons hda hdenotes⟩

/-- Every valid document is read, and as what it stands for. -/
theorem Document.Valid.exists_read {doc : Document} (h : doc.Valid) {text : String}
    (htext : doc.chars = text.toList) :
    ∃ net, Network.read text = .ok net ∧
      List.Forall₂ Declaration.Denotes doc.declarations net := by
  -- there is one way to cut the text, so its pieces are the declarations
  have hcut := h.cutAt
  rw [htext] at hcut
  obtain ⟨hlead, hpieces⟩ := (cutAt_cut 0 none text.toList).unique hcut
  rcases exists_of_pieces hpieces h.guards with ⟨net, hnet, hdenotes⟩
  refine ⟨net, Network.read_eq_ok_iff.2 ⟨?_, hnet, ?_⟩, hdenotes⟩
  · rw [hlead]
    exact doc.lead.blank
  · rw [labels_of_denotes hdenotes]
    exact List.Nodup.map (fun _ _ => String.ofList_injective) h.labels

/-- Every text that is read is spelled as a valid document, which stands for what is read. -/
theorem exists_valid_of_read {text : String} {net : Network} (h : Network.read text = .ok net) :
    ∃ doc : Document, doc.Valid ∧ doc.chars = text.toList ∧
      List.Forall₂ Declaration.Denotes doc.declarations net := by
  rcases Network.read_eq_ok_iff.1 h with ⟨hblank, hwritten, hlabels⟩
  have hcut := cutAt_cut 0 none text.toList
  have hmarked : ∀ piece ∈ (cut 0 none text.toList).2, marker <+: piece.text :=
    fun piece hpiece => marker_isPrefix_of_mem_cut hpiece
  have hspelled : List.Forall₂ (fun piece a => ∃ d : Declaration,
      (piece.text = d.chars ∧ d.Guarded) ∧ d.Denotes a) (cut 0 none text.toList).2 net := by
    refine ((List.forall₂_and_left _ _).2 ⟨hmarked, hwritten⟩).imp ?_
    rintro piece a ⟨hmarker, ha⟩
    exact exists_of_isWritten hmarker ha
  rcases Fallible.forall₂_comp_iff.1 hspelled with ⟨ds, hds, hdenotes⟩
  let doc : Document := ⟨⟨_, hblank⟩, ds⟩
  have hpieces : (cut 0 none text.toList).2.map Clause.text = ds.map Declaration.chars := by
    rw [← List.forall₂_eq_eq_eq, List.forall₂_map_left_iff, List.forall₂_map_right_iff]
    exact hds.imp fun piece d hd => hd.1
  rw [hpieces] at hcut
  have htext : doc.chars = text.toList := by rw [doc.chars_eq, hcut.whole]
  refine ⟨doc, ⟨?_, ?_, ?_⟩, htext, hdenotes⟩
  · intro d hd
    rcases Fallible.exists_of_mem_right hds hd with ⟨piece, -, -, hguarded⟩
    exact hguarded
  · intro front rest
    exact Document.markers_of_cutAt (by rwa [htext])
  · rw [labels_of_denotes hdenotes] at hlabels
    exact List.Nodup.of_map _ hlabels

/-- Every automaton that is read is what some declaration stands for. -/
theorem exists_declaration_of_read {text : String} {net : Network}
    (h : Network.read text = .ok net) {a : Automaton} (ha : a ∈ net) :
    ∃ d : Declaration, d.Guarded ∧ d.Denotes a := by
  rcases exists_valid_of_read h with ⟨doc, hvalid, -, hdenotes⟩
  rcases Fallible.exists_of_mem_right hdenotes ha with ⟨d, hd, hda⟩
  exact ⟨d, hvalid.guards d hd, hda⟩

end Spelling

/-! ## Texts -/

namespace Network

open Spelling

/-- A text is read exactly if it is spelled as a valid document, and then as what the document
stands for. The checks that are made before a clause is read refuse none that is spelled as a
header or as an edge: a header is always read, and an edge unless its guard is at fault. -/
theorem read_iff_spelled (text : String) :
    ((∃ net, read text = .ok net) ↔
      ∃ doc : Document, doc.Valid ∧ doc.chars = text.toList) ∧
    (∀ (doc : Document) (net : Network), doc.Valid → doc.chars = text.toList →
      read text = .ok net → List.Forall₂ Spelling.Declaration.Denotes doc.declarations net) ∧
    (∀ (c : Clause) (s s' : Spaces) (h : Spelling.Header),
      c.text = s.chars ++ (h.chars ++ s'.chars) →
      c.header = .ok ⟨h.label.text, h.initial.text⟩) ∧
    (∀ (c : Clause) (s s' : Spaces) (e : Spelling.Edge),
      c.text = s.chars ++ (e.chars ++ s'.chars) →
      c.edge =
        match Guard.read e.guard with
        | .ok guard =>
          .ok ⟨e.start.text, e.target.text, e.comm, guard, e.reset.isSome, c.span⟩
        | .error reason => .error ⟨.invalidGuard reason, c⟩) := by
  refine ⟨⟨?_, ?_⟩, ?_, ?_, ?_⟩
  · rintro ⟨net, hread⟩
    rcases exists_valid_of_read hread with ⟨doc, hvalid, htext, -⟩
    exact ⟨doc, hvalid, htext⟩
  · rintro ⟨doc, hvalid, htext⟩
    rcases hvalid.exists_read htext with ⟨net, hread, -⟩
    exact ⟨net, hread⟩
  · intro doc net hvalid htext hread
    rcases hvalid.exists_read htext with ⟨net', hread', hdenotes⟩
    obtain rfl : net' = net := Except.ok.inj (hread'.symm.trans hread)
    exact hdenotes
  · intro c s s' h hc
    exact Clause.header_eq_ok_iff.2 (header?_eq_some_iff_spelled.2 ⟨s, s', h, hc, rfl⟩)
  · intro c s s' e hc
    exact Clause.edge_of_edge? (edge?_eq_some_iff_spelled.2 ⟨s, s', e, hc, rfl⟩)

/-- Blanks of several kinds, an automaton without edges, nested parentheses and a reset. -/
theorem read_iff_spelled_padded :
    ∃ (doc : Document) (net : Network),
      doc.chars =
        "\n\u00a0Cta A\t=Init a0 ; a0 B!m ( (1<x) ,\x7b x \x7d) a1;Cta B = Init b;".toList ∧
      List.Forall₂ Spelling.Declaration.Denotes doc.declarations net ∧
      net.map Automaton.label = ["A", "B"] := by
  rcases Fallible.exists_ok_of_any
    (x := read "\n\u00a0Cta A\t=Init a0 ; a0 B!m ( (1<x) ,\x7b x \x7d) a1;Cta B = Init b;")
    (P := fun net => net.map Automaton.label = ["A", "B"]) (by decide +kernel)
    with ⟨net, hread, hlabels⟩
  rcases (read_iff_spelled _).1.1 ⟨net, hread⟩ with ⟨doc, hvalid, htext⟩
  exact ⟨doc, net, htext, (read_iff_spelled _).2.1 doc net hvalid htext hread, hlabels⟩

end Network
end TimedAutomata
