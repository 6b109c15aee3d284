import Mathlib.Data.List.Forall2
import Mathlib.Data.List.Infix
import TimedAutomata.Declaration
import TimedAutomata.Proofs.Fallible
import TimedAutomata.Proofs.Lexeme

/-!
# Scanning for declarations

Whether a marker starts a declaration depends on the character before it, so the laws of `cut`
speak about a text between what stands before and after it.

* `Quiet before w rest`: no declaration starts inside `w` when it stands between the two
* `quiet_of_not_mem`, `quiet_word`: texts without the first letter of the marker, and words
* `cut_append`, `cut_marker`: cutting a text piece by piece
* `cut_blocks`: texts that start with a marker and hold no other are what is cut out
* `split_clauses`, `ofPiece_clauses`: a text made of closed clauses is split into them
* `ofPiece_eq_ok_iff`: which pieces are declarations
-/

namespace TimedAutomata
namespace Declaration

open Grammar

/-! ## Quiet texts -/

/-- The character that stands before what follows `w`. -/
def lastOf : (before : Option Char) → (w : List Char) → Option Char
  | before, [] => before
  | _, c :: w => lastOf (some c) w

@[simp] theorem lastOf_append (before : Option Char) (v w : List Char) :
    lastOf before (v ++ w) = lastOf (lastOf before v) w := by
  induction v generalizing before with
  | nil => rfl
  | cons c v ih => exact ih (some c)

theorem lastOf_none (w : List Char) : lastOf none w = w.getLast? := by
  cases w using List.reverseRecOn with
  | nil => rfl
  | append_singleton w c => simp [lastOf]

/-- No declaration starts inside `w` when it stands between `before` and `rest`. -/
def Quiet : (before : Option Char) → (w rest : List Char) → Prop
  | _, [], _ => True
  | before, c :: w, rest => startsAt before (c :: (w ++ rest)) = false ∧ Quiet (some c) w rest

theorem Quiet.append {before : Option Char} {v w rest : List Char}
    (hv : Quiet before v (w ++ rest)) (hw : Quiet (lastOf before v) w rest) :
    Quiet before (v ++ w) rest := by
  induction v generalizing before with
  | nil => exact hw
  | cons c v ih =>
    refine ⟨?_, ih hv.2 hw⟩
    simpa using hv.1

/-- A declaration starts with the first letter of the marker. -/
theorem startsAt_eq_false_of_ne {before : Option Char} {c : Char} (hc : c ≠ 'C')
    (cs : List Char) : startsAt before (c :: cs) = false := by
  simp [startsAt, marker, List.isPrefixOf, Ne.symm hc]

theorem quiet_of_not_mem {w : List Char} (hw : 'C' ∉ w) (before : Option Char)
    (rest : List Char) : Quiet before w rest := by
  induction w generalizing before with
  | nil => trivial
  | cons c w ih =>
    simp only [List.mem_cons, not_or] at hw
    exact ⟨startsAt_eq_false_of_ne (Ne.symm hw.1) _, ih hw.2 (some c)⟩

theorem opensAfter_of_isWordChar {c : Char} (hc : isWordChar c = true) :
    opensAfter (some c) = false := by
  have hblank := isBlank_of_isWordChar hc
  have hne : c ≠ ';' := by
    rintro rfl
    simp [isWordChar] at hc
  simp [opensAfter, hblank, hne]

/-- Inside a word no declaration starts. -/
theorem quiet_inside_word {before : Option Char} {w : List Char}
    (hb : opensAfter before = false) (hw : ∀ c ∈ w, isWordChar c = true) (rest : List Char) :
    Quiet before w rest := by
  induction w generalizing before with
  | nil => trivial
  | cons c w ih =>
    simp only [List.forall_mem_cons] at hw
    exact ⟨by simp [startsAt, hb], ih (opensAfter_of_isWordChar hw.1) hw.2⟩

/-- The only word that can start a declaration is the one of the marker, with a space after it. -/
theorem quiet_word {w rest : List Char} (hw : IsWord w) (hrest : EndsWord rest)
    (hmark : w = ['C', 't', 'a'] → rest.head? ≠ some ' ') (before : Option Char) :
    Quiet before w rest := by
  obtain ⟨c, w', rfl⟩ := List.exists_cons_of_ne_nil hw.1
  refine ⟨?_, quiet_inside_word (opensAfter_of_isWordChar (hw.2 c (by simp)))
    (fun d hd => hw.2 d (by simp [hd])) rest⟩
  by_contra hstarts
  have hprefix : marker <+: (c :: w') ++ rest := by
    have hboth : startsAt before (c :: (w' ++ rest)) = true := by simpa using hstarts
    simpa [startsAt] using (Bool.and_eq_true_iff.1 hboth).2
  obtain ⟨more, hmore⟩ := hprefix
  have hends : EndsWord (' ' :: more) := by simp [isWordChar]
  have hinj := word_append_inj (v := ['C', 't', 'a']) (by decide) hw hends hrest hmore
  exact hmark hinj.1.symm (by simp [← hinj.2])

/-! ## Cutting -/

theorem cut_cons (offset : Nat) (before : Option Char) (c : Char) (cs : List Char) :
    cut offset before (c :: cs) =
      if startsAt before (c :: cs) then
        ([], ⟨c :: (cut (offset + c.utf8Size) (some c) cs).1, offset⟩ ::
          (cut (offset + c.utf8Size) (some c) cs).2)
      else
        (c :: (cut (offset + c.utf8Size) (some c) cs).1,
          (cut (offset + c.utf8Size) (some c) cs).2) := by
  rw [cut]

/-- A quiet text goes to what stands before the next marker. -/
theorem cut_append {before : Option Char} {w rest : List Char} (h : Quiet before w rest)
    (offset : Nat) :
    cut offset before (w ++ rest) =
      (w ++ (cut (offset + Text.byteLength w) (lastOf before w) rest).1,
        (cut (offset + Text.byteLength w) (lastOf before w) rest).2) := by
  induction w generalizing before offset with
  | nil => simp [lastOf]
  | cons c w ih =>
    simp [cut_cons, h.1, ih h.2, lastOf, Nat.add_assoc]

/-- A marker starts a piece. -/
theorem cut_marker {before : Option Char} (h : opensAfter before = true) (offset : Nat)
    (rest : List Char) :
    cut offset before (marker ++ rest) =
      ([], ⟨marker ++ (cut (offset + 4) (some ' ') rest).1, offset⟩ ::
        (cut (offset + 4) (some ' ') rest).2) := by
  have hquiet : Quiet (some 'C') ['t', 'a', ' '] rest := quiet_of_not_mem (by decide) _ _
  have hcut := cut_append hquiet (offset + 1)
  have hstarts : startsAt before ('C' :: (['t', 'a', ' '] ++ rest)) = true := by
    simp [startsAt, h, marker]
  have hsize : 'C'.utf8Size = 1 := by decide
  have hlength : Text.byteLength ['t', 'a', ' '] = 3 := by decide
  rw [hlength, Nat.add_assoc] at hcut
  rw [show marker = 'C' :: ['t', 'a', ' '] from rfl, List.cons_append, cut_cons, if_pos hstarts,
    hsize, hcut]
  rfl

/-- The pieces of the end of a text are pieces of the text. -/
theorem pieces_append (before : Option Char) (w rest : List Char) (offset : Nat) :
    (cut (offset + Text.byteLength w) (lastOf before w) rest).2 <:+
      (cut offset before (w ++ rest)).2 := by
  induction w generalizing before offset with
  | nil => simp [lastOf]
  | cons c w ih =>
    have hrest := ih (some c) (offset + c.utf8Size)
    rw [Text.byteLength_cons, lastOf, List.cons_append, cut_cons, ← Nat.add_assoc]
    split
    · exact hrest.trans (List.suffix_cons _ _)
    · exact hrest

/-- A text that starts with a marker, holds no other and ends a line. -/
def IsBlock (cs : List Char) : Prop :=
  ∃ body, cs = marker ++ body ∧ (∀ rest, Quiet (some ' ') body rest) ∧
    lastOf (some ' ') body = some '\n'

/-- Blocks with an empty line between them are cut out one by one. -/
theorem cut_blocks {blocks : List (List Char)} (h : ∀ b ∈ blocks, IsBlock b)
    {before : Option Char} (hb : opensAfter before = true) (offset : Nat) :
    (cut offset before (['\n'].intercalate blocks)).1 = [] ∧
      List.Forall₂ (fun piece block => ∃ tail, Text.IsBlank tail ∧ piece.text = block ++ tail)
        (cut offset before (['\n'].intercalate blocks)).2 blocks := by
  have hline : opensAfter (some '\n') = true := by decide
  induction blocks generalizing offset before with
  | nil => simp [cut, List.intercalate]
  | cons block blocks ih =>
    obtain ⟨body, rfl, hquiet, hlast⟩ := h block (by simp)
    cases blocks with
    | nil =>
      have hcut := cut_append (hquiet []) (offset + 4)
      rw [List.append_nil] at hcut
      rw [List.intercalate_singleton, cut_marker hb, hcut]
      simp [cut, Text.IsBlank]
    | cons next blocks =>
      have hrest := ih (fun b hb => h b (List.mem_cons_of_mem _ hb)) hline
        (offset + 4 + Text.byteLength body + 1)
      set more := ['\n'].intercalate (next :: blocks) with hmore
      have hjoin : ['\n'].intercalate ((marker ++ body) :: next :: blocks) =
          marker ++ (body ++ (['\n'] ++ more)) := by
        rw [List.intercalate_cons_cons]
        simp [hmore]
      have hcut : cut (offset + 4 + Text.byteLength body) (some '\n') (['\n'] ++ more) =
          (['\n'], (cut (offset + 4 + Text.byteLength body + 1) (some '\n') more).2) := by
        have hlength : Text.byteLength ['\n'] = 1 := by decide
        rw [cut_append (quiet_of_not_mem (by decide) _ _), hlength, lastOf, lastOf, hrest.1]
        rfl
      rw [hjoin, cut_marker hb, cut_append (hquiet _), hlast, hcut]
      refine ⟨rfl, .cons ⟨['\n'], by simp [Text.IsBlank]; decide, by simp⟩ hrest.2⟩

/-! ## Splitting into clauses -/

theorem split_of_not_mem {w : List Char} (hw : ';' ∉ w) (offset : Nat) :
    split offset w = ([], ⟨w, offset⟩) := by
  induction w generalizing offset with
  | nil => rfl
  | cons c w ih =>
    simp only [List.mem_cons, not_or] at hw
    simp [split, ih hw.2, Ne.symm hw.1]

theorem split_append {w : List Char} (hw : ';' ∉ w) (rest : List Char) (offset : Nat) :
    split offset (w ++ ';' :: rest) =
      (⟨w, offset⟩ :: (split (offset + Text.byteLength w + 1) rest).1,
        (split (offset + Text.byteLength w + 1) rest).2) := by
  induction w generalizing offset with
  | nil =>
    have hsize : ';'.utf8Size = 1 := by decide
    simp [split, hsize]
  | cons c w ih =>
    simp only [List.mem_cons, not_or] at hw
    simp [split, ih hw.2, Ne.symm hw.1, Nat.add_assoc]

/-- The texts with a semicolon after each. -/
def closed (ws : List (List Char)) : List Char :=
  ws.flatMap fun w => w ++ [';']

/-- Closed clauses are split into themselves. -/
theorem split_clauses {ws : List (List Char)} {tail : List Char} (hws : ∀ w ∈ ws, ';' ∉ w)
    (htail : ';' ∉ tail) (offset : Nat) :
    (split offset (closed ws ++ tail)).1.map Clause.text = ws ∧
      (split offset (closed ws ++ tail)).2.text = tail := by
  induction ws generalizing offset with
  | nil => simp [closed, split_of_not_mem htail]
  | cons w ws ih =>
    simp only [List.forall_mem_cons] at hws
    have hrest := ih hws.2 (offset + Text.byteLength w + 1)
    have hcons : closed (w :: ws) ++ tail = w ++ ';' :: (closed ws ++ tail) := by simp [closed]
    rw [hcons, split_append hws.1]
    exact ⟨by simp [hrest.1], hrest.2⟩

/-- A piece made of closed clauses and blanks is a declaration of these clauses. -/
theorem ofPiece_clauses {piece : Clause} {w : List Char} {ws : List (List Char)}
    {tail : List Char} (hpiece : piece.text = closed (w :: ws) ++ tail)
    (hws : ∀ v ∈ w :: ws, ';' ∉ v) (htail : Text.IsBlank tail) :
    ∃ d, ofPiece piece = .ok d ∧ d.header.text = Text.trim w ∧
      d.edges.map Clause.text = ws.map Text.trim := by
  have hmem : ';' ∉ tail := by
    intro h
    exact absurd (htail _ h) (by decide)
  obtain ⟨hclosed, hrest⟩ := split_clauses hws hmem piece.offset
  rw [← hpiece] at hclosed hrest
  obtain ⟨c, cs, hsplit, hc, hcs⟩ := List.map_eq_cons_iff.1 hclosed
  have hblank : Text.trim tail = [] := Text.trim_eq_nil_iff.2 htail
  refine ⟨⟨piece.trimmed, c.trimmed, cs.map Clause.trimmed⟩, ?_, ?_, ?_⟩
  · simp [ofPiece, hsplit, Clause.trimmed, hrest, hblank]
  · simp [Clause.trimmed, hc]
  · simp [Clause.trimmed, ← hcs]

/-- A piece is a declaration exactly if a semicolon closes some clause of it and only blanks
follow the last. -/
theorem ofPiece_eq_ok_iff {piece : Clause} {d : Declaration} :
    ofPiece piece = .ok d ↔ ∃ header edges, (split piece.offset piece.text).1 = header :: edges ∧
      Text.IsBlank (split piece.offset piece.text).2.text ∧
      d = ⟨piece.trimmed, header.trimmed, edges.map Clause.trimmed⟩ := by
  rw [← Text.trim_eq_nil_iff]
  cases hclosed : (split piece.offset piece.text).1 with
  | nil => simp [ofPiece, hclosed]
  | cons header edges =>
    by_cases hrest : Text.trim (split piece.offset piece.text).2.text = []
    · simp [ofPiece, hclosed, Clause.trimmed, hrest, eq_comm]
    · simp [ofPiece, hclosed, Clause.trimmed, hrest]

/-- The first clause of a declaration ends at the first semicolon of its piece. -/
theorem header_of_ofPiece {piece : Clause} {d : Declaration} (h : ofPiece piece = .ok d)
    {w rest : List Char} (hpiece : piece.text = w ++ ';' :: rest) (hw : ';' ∉ w) :
    d.header.text = Text.trim w := by
  rcases ofPiece_eq_ok_iff.1 h with ⟨header, edges, hclosed, -, rfl⟩
  rw [hpiece, split_append hw] at hclosed
  rw [← (List.cons.inj hclosed).1]
  rfl

theorem mem_of_ofPiece {piece : Clause} {d : Declaration} (h : ofPiece piece = .ok d) :
    ';' ∈ piece.text := by
  by_contra hmem
  rcases ofPiece_eq_ok_iff.1 h with ⟨header, edges, hclosed, -, -⟩
  simp [split_of_not_mem hmem] at hclosed

end Declaration
end TimedAutomata
