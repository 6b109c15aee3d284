import TimedAutomata.Proofs.Notation.Scanning

/-!
# The one way to cut a text

A text is cut where declarations start, and only there; this determines the pieces. In the same
way a piece is split at its semicolons, and only there.

* `StandsBefore head pieces front`: one of the pieces starts after `front`
* `CutAt`: the pieces of a text start where declarations start
* `cutAt_cut`: what `cut` returns is cut that way
* `CutAt.unique`: nothing else is
* `exists_closed`: every text is made of closed clauses and a rest
-/

namespace TimedAutomata
namespace Declaration

/-! ## Beginnings of pieces -/

/-- One of the pieces starts after `front`, if the pieces follow `head` one after another. -/
def StandsBefore (head : List Char) (pieces : List (List Char)) (front : List Char) : Prop :=
  ∃ ps p qs, pieces = ps ++ p :: qs ∧ front = head ++ ps.flatten

theorem not_standsBefore_nil (head front : List Char) : ¬ StandsBefore head [] front := by
  rintro ⟨ps, p, qs, h, -⟩
  simp at h

/-- The first piece starts after `head`, the others inside the rest of the text. -/
theorem standsBefore_cons {head p front : List Char} {ps : List (List Char)} :
    StandsBefore head (p :: ps) front ↔
      front = head ∨ ∃ more, front = head ++ more ∧ StandsBefore p ps more := by
  constructor
  · rintro ⟨ps₁, q, ps₂, hps, rfl⟩
    cases ps₁ with
    | nil => exact .inl (by simp)
    | cons p' ps₁ =>
      obtain ⟨rfl, rfl⟩ := List.cons.inj hps
      exact .inr ⟨p ++ ps₁.flatten, by simp, ps₁, q, ps₂, rfl, rfl⟩
  · rintro (rfl | ⟨more, rfl, ps₁, q, ps₂, rfl, rfl⟩)
    · exact ⟨[], p, ps, rfl, by simp⟩
    · exact ⟨p :: ps₁, q, ps₂, rfl, by simp⟩

theorem standsBefore_cons_cons {c : Char} {head front : List Char} {ps : List (List Char)} :
    StandsBefore (c :: head) ps (c :: front) ↔ StandsBefore head ps front := by
  simp [StandsBefore]

theorem not_standsBefore_of_cons {c : Char} {head : List Char} {ps : List (List Char)} :
    ¬ StandsBefore (c :: head) ps [] := by
  simp [StandsBefore]

theorem StandsBefore.head_isPrefix {head front : List Char} {ps : List (List Char)}
    (h : StandsBefore head ps front) : head <+: front := by
  rcases h with ⟨ps₁, p, ps₂, -, rfl⟩
  exact List.prefix_append _ _

/-! ## Cutting -/

/-- The text `cs`, which follows `before`, is cut into `head` and pieces that start where
declarations start. -/
structure CutAt (before : Option Char) (cs head : List Char) (pieces : List (List Char)) :
    Prop where
  whole : cs = head ++ pieces.flatten
  nonempty : ∀ p ∈ pieces, p ≠ []
  starts : ∀ front rest, cs = front ++ rest →
    (startsAt (lastOf before front) rest = true ↔ StandsBefore head pieces front)

theorem startsAt_nil (before : Option Char) : startsAt before [] = false := by
  simp [startsAt, marker]

/-- `cut` cuts where declarations start. -/
theorem cutAt_cut (offset : Nat) (before : Option Char) (cs : List Char) :
    CutAt before cs (cut offset before cs).1 ((cut offset before cs).2.map Clause.text) := by
  induction cs generalizing offset before with
  | nil =>
    refine ⟨by simp [cut], by simp [cut], ?_⟩
    intro front rest h
    obtain ⟨rfl, rfl⟩ : front = [] ∧ rest = [] := by simpa [eq_comm] using h
    simp [cut, startsAt_nil, not_standsBefore_nil]
  | cons c cs ih =>
    have hrest := ih (offset + c.utf8Size) (some c)
    rw [cut_cons]
    by_cases hstarts : startsAt before (c :: cs) = true
    · rw [if_pos hstarts]
      refine ⟨?_, ?_, ?_⟩
      · simpa using hrest.whole
      · simpa using hrest.nonempty
      · -- the first piece starts here, the others where they start in the rest
        intro front rest h
        cases front with
        | nil =>
          obtain rfl : c :: cs = rest := by simpa using h
          simp [lastOf, hstarts, standsBefore_cons]
        | cons d front =>
          obtain ⟨rfl, hcs⟩ := List.cons.inj h
          rw [lastOf, hrest.starts front rest hcs, List.map_cons, standsBefore_cons]
          simp [standsBefore_cons_cons]
    · rw [if_neg hstarts]
      refine ⟨?_, ?_, ?_⟩
      · simpa using hrest.whole
      · exact hrest.nonempty
      · intro front rest h
        cases front with
        | nil =>
          obtain rfl : c :: cs = rest := by simpa using h
          simp [lastOf, hstarts, not_standsBefore_of_cons]
        | cons d front =>
          obtain ⟨rfl, hcs⟩ := List.cons.inj h
          rw [lastOf, hrest.starts front rest hcs, standsBefore_cons_cons]

/-- Every piece starts with a marker. -/
theorem marker_isPrefix_of_mem_cut {offset : Nat} {before : Option Char} {cs : List Char}
    {piece : Clause} (h : piece ∈ (cut offset before cs).2) : marker <+: piece.text := by
  induction cs generalizing offset before with
  | nil => simp [cut] at h
  | cons c cs ih =>
    by_cases hstarts : startsAt before (c :: cs) = true
    · rcases Bool.and_eq_true_iff.1 hstarts with ⟨hopens, hmarker⟩
      rcases List.isPrefixOf_iff_prefix.1 hmarker with ⟨rest, hrest⟩
      have hfirst := cut_marker hopens offset rest
      rw [hrest, cut_cons, if_pos hstarts] at hfirst
      rw [cut_cons, if_pos hstarts] at h
      rcases List.mem_cons.1 h with rfl | hlater
      · have hpiece := (List.cons.inj (Prod.mk.inj hfirst).2).1
        rw [hpiece]
        exact List.prefix_append _ _
      · exact ih hlater
    · rw [cut_cons, if_neg hstarts] at h
      exact ih h

/-- What follows the first character of the first piece is cut into the rest of that piece and
the other pieces. -/
theorem CutAt.rest {before : Option Char} {cs head q : List Char} {c : Char}
    {ps : List (List Char)} (h : CutAt before cs head ((c :: q) :: ps)) :
    CutAt (some c) (q ++ ps.flatten) q ps where
  whole := rfl
  nonempty p hp := h.nonempty p (List.mem_cons_of_mem _ hp)
  starts front rest hsplit := by
    have hcs : cs = (head ++ c :: front) ++ rest := by simp [h.whole, hsplit]
    have hstarts := h.starts _ _ hcs
    rw [lastOf_append, lastOf, standsBefore_cons] at hstarts
    simpa [standsBefore_cons_cons] using hstarts

/-- Some piece starts where the first one of another cut does. -/
theorem CutAt.standsBefore_head {before : Option Char} {cs head head' p : List Char}
    {pieces ps : List (List Char)} (h : CutAt before cs head pieces)
    (h' : CutAt before cs head' (p :: ps)) : StandsBefore head pieces head' :=
  (h.starts _ _ h'.whole).1 ((h'.starts _ _ h'.whole).2 (standsBefore_cons.2 (.inl rfl)))

/-- There is one way to cut a text. -/
theorem CutAt.unique {before : Option Char} {cs head head' : List Char}
    {pieces pieces' : List (List Char)} (h : CutAt before cs head pieces)
    (h' : CutAt before cs head' pieces') : head = head' ∧ pieces = pieces' := by
  induction pieces generalizing before cs head head' pieces' with
  | nil =>
    cases pieces' with
    | nil => exact ⟨by simpa using h.whole.symm.trans h'.whole, rfl⟩
    | cons p' ps' => exact absurd (h.standsBefore_head h') (not_standsBefore_nil _ _)
  | cons p ps ih =>
    cases pieces' with
    | nil => exact absurd (h'.standsBefore_head h) (not_standsBefore_nil _ _)
    | cons p' ps' =>
      -- neither first piece can start before the other
      have hle := (h.standsBefore_head h').head_isPrefix
      have hge := (h'.standsBefore_head h).head_isPrefix
      obtain rfl : head = head' :=
        hle.eq_of_length (Nat.le_antisymm hle.length_le hge.length_le)
      rcases List.exists_cons_of_ne_nil (h.nonempty p (by simp)) with ⟨c, q, rfl⟩
      rcases List.exists_cons_of_ne_nil (h'.nonempty p' (by simp)) with ⟨c', q', rfl⟩
      have hsame := h.whole.symm.trans h'.whole
      obtain ⟨rfl, hflat⟩ : c = c' ∧ q ++ ps.flatten = q' ++ ps'.flatten := by
        simpa using hsame
      have hrest := h'.rest
      rw [← hflat] at hrest
      obtain ⟨rfl, rfl⟩ := ih h.rest hrest
      exact ⟨rfl, rfl⟩

/-! ## Splitting -/

/-- Every text is made of closed clauses and a rest without a semicolon. -/
theorem exists_closed (cs : List Char) :
    ∃ ws tail, cs = closed ws ++ tail ∧ (∀ w ∈ ws, ';' ∉ w) ∧ ';' ∉ tail := by
  induction cs with
  | nil => exact ⟨[], [], rfl, by simp, by simp⟩
  | cons c cs ih =>
    rcases ih with ⟨ws, tail, rfl, hws, htail⟩
    by_cases hc : c = ';'
    · exact ⟨[] :: ws, tail, by simp [closed, hc], by simpa using hws, htail⟩
    · cases ws with
      | nil => exact ⟨[], c :: tail, by simp [closed], by simp, by simp [Ne.symm hc, htail]⟩
      | cons w ws =>
        refine ⟨(c :: w) :: ws, tail, by simp [closed], ?_, htail⟩
        simpa [Ne.symm hc] using hws

/-- A declaration keeps the text of its piece, without the blank ends. -/
theorem whole_of_ofPiece {piece : Clause} {d : Declaration} (h : ofPiece piece = .ok d) :
    d.whole = piece.trimmed := by
  rcases ofPiece_eq_ok_iff.1 h with ⟨header, edges, -, -, rfl⟩
  rfl

/-- A piece that is a declaration is made of closed clauses, at least one, and blanks. -/
theorem clauses_of_ofPiece {piece : Clause} {d : Declaration} (h : ofPiece piece = .ok d) :
    ∃ w ws tail, piece.text = closed (w :: ws) ++ tail ∧ Text.IsBlank tail ∧
      d.header.text = Text.trim w ∧ d.edges.map Clause.text = ws.map Text.trim := by
  rcases exists_closed piece.text with ⟨ws, tail, hpiece, hws, htail⟩
  rcases split_clauses hws htail piece.offset with ⟨hclosed, hrest⟩
  rw [← hpiece] at hclosed hrest
  rcases ofPiece_eq_ok_iff.1 h with ⟨header, edges, hsplit, hblank, rfl⟩
  rw [hsplit] at hclosed
  rw [hrest] at hblank
  refine ⟨header.text, edges.map Clause.text, tail, ?_, hblank, rfl, ?_⟩
  · rw [hpiece, ← hclosed]
    rfl
  · simp [Clause.trimmed]

end Declaration
end TimedAutomata
