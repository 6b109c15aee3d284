import Mathlib.Data.List.TakeWhile
import TimedAutomata.Grammar.Lexeme
import TimedAutomata.Proofs.Blank

/-!
# Laws of the lexeme readers

Each reader of `Grammar.Lexeme` takes the longest piece of its kind from the front of a text. The
laws below say so with the piece written in front of an arbitrary rest.

* `Spaces`: a run of separators, possibly empty
* `IsWord`: a label, state name or payload
* `EndsWord rest`: a word in front of `rest` ends there
* `skipSpaces_append`, `word?_append`: reading what was written
* `exists_spaces`, `word?_eq_some_iff`: what was read
-/

namespace TimedAutomata
namespace Grammar

/-! ## Separators -/

/-- A run of separators, possibly empty. -/
@[ext] structure Spaces where
  chars : List Char
  separate : ∀ c ∈ chars, isSpace c = true

namespace Spaces

def none : Spaces := ⟨[], by simp⟩

/-- The single space that printed texts use. -/
def single : Spaces := ⟨[' '], by simp [isSpace]⟩

end Spaces

/-- The text does not start with a separator. -/
def StartsDense (cs : List Char) : Prop :=
  ∀ c, cs.head? = some c → isSpace c = false

theorem skipSpaces_of_startsDense {cs : List Char} (h : StartsDense cs) : skipSpaces cs = cs := by
  cases cs with
  | nil => rfl
  | cons c cs =>
    have hc : isSpace c = false := h c rfl
    simp [skipSpaces, hc]

theorem startsDense_skipSpaces (cs : List Char) : StartsDense (skipSpaces cs) := by
  intro c hc
  have h := List.head?_dropWhile_not isSpace cs
  rw [show List.dropWhile isSpace cs = skipSpaces cs from rfl, hc] at h
  simpa using h

theorem skipSpaces_append (s : Spaces) (cs : List Char) :
    skipSpaces (s.chars ++ cs) = skipSpaces cs :=
  List.dropWhile_append_of_pos s.separate

/-- Separators in front of a text that starts densely are skipped, and nothing else. -/
theorem skipSpaces_append_dense (s : Spaces) {cs : List Char} (h : StartsDense cs) :
    skipSpaces (s.chars ++ cs) = cs := by
  rw [skipSpaces_append, skipSpaces_of_startsDense h]

@[simp] theorem skipSpaces_skipSpaces (cs : List Char) :
    skipSpaces (skipSpaces cs) = skipSpaces cs :=
  skipSpaces_of_startsDense (startsDense_skipSpaces cs)

theorem exists_spaces (cs : List Char) : ∃ s : Spaces, cs = s.chars ++ skipSpaces cs :=
  ⟨⟨cs.takeWhile isSpace, fun _ hc => List.mem_takeWhile_imp hc⟩,
    (List.takeWhile_append_dropWhile).symm⟩

/-- Two runs of separators in front of dense texts agree, and so do the texts. -/
theorem spaces_append_inj {s t : Spaces} {cs ds : List Char} (hcs : StartsDense cs)
    (hds : StartsDense ds) (h : s.chars ++ cs = t.chars ++ ds) : s = t ∧ cs = ds := by
  have hrest : cs = ds := by
    have := congrArg skipSpaces h
    rwa [skipSpaces_append_dense s hcs, skipSpaces_append_dense t hds] at this
  subst hrest
  exact ⟨Spaces.ext (List.append_cancel_right h), rfl⟩

theorem spaces?_eq_some_iff {cs rest : List Char} :
    spaces? cs = some rest ↔
      ∃ s : Spaces, s.chars ≠ [] ∧ cs = s.chars ++ rest ∧ StartsDense rest := by
  constructor
  · intro h
    cases cs with
    | nil => simp [spaces?] at h
    | cons c cs =>
      by_cases hc : isSpace c = true
      · have hrest : skipSpaces cs = rest := by simpa [spaces?, hc] using h
        obtain ⟨s, hs⟩ := exists_spaces cs
        refine ⟨⟨c :: s.chars, by simpa [hc] using s.separate⟩, by simp, ?_, ?_⟩
        · simpa [hrest] using hs
        · exact hrest ▸ startsDense_skipSpaces cs
      · simp [spaces?, hc] at h
  · rintro ⟨⟨chars, hsep⟩, hne, rfl, hrest⟩
    cases chars with
    | nil => exact absurd rfl hne
    | cons c chars =>
      have hc : isSpace c = true := hsep c (by simp)
      have hskip := skipSpaces_append_dense ⟨chars, fun d hd => hsep d (by simp [hd])⟩ hrest
      simpa [spaces?, hc] using hskip

/-! ## Words -/

/-- A label, a state name or a payload. -/
def IsWord (w : List Char) : Prop :=
  w ≠ [] ∧ ∀ c ∈ w, isWordChar c = true

instance (w : List Char) : Decidable (IsWord w) :=
  decidable_of_iff (w ≠ [] ∧ w.all isWordChar = true) (by simp [IsWord])

/-- A word in front of `rest` ends there. -/
def EndsWord (rest : List Char) : Prop :=
  ∀ c, rest.head? = some c → isWordChar c = false

@[simp] theorem endsWord_nil : EndsWord [] := by
  intro c hc
  simp at hc

@[simp] theorem endsWord_cons {c : Char} {rest : List Char} :
    EndsWord (c :: rest) ↔ isWordChar c = false := by
  simp [EndsWord]

@[simp] theorem startsDense_nil : StartsDense [] := by
  intro c hc
  simp at hc

@[simp] theorem startsDense_cons {c : Char} {rest : List Char} :
    StartsDense (c :: rest) ↔ isSpace c = false := by
  simp [StartsDense]

/-- The separators are no word characters. -/
theorem isWordChar_of_isSpace {c : Char} (h : isSpace c = true) : isWordChar c = false := by
  simp only [isSpace, Bool.or_eq_true, beq_iff_eq] at h
  rcases h with ((rfl | rfl) | rfl) | rfl <;> decide

theorem isSpace_of_isWordChar {c : Char} (h : isWordChar c = true) : isSpace c = false := by
  cases hc : isSpace c with
  | false => rfl
  | true => simp [isWordChar_of_isSpace hc] at h

theorem endsWord_spaces_append (s : Spaces) {rest : List Char} (h : EndsWord rest) :
    EndsWord (s.chars ++ rest) := by
  intro c hc
  cases hs : s.chars with
  | nil => exact h c (by simpa [hs] using hc)
  | cons d ds =>
    have hd : d = c := by simpa [hs] using hc
    exact hd ▸ isWordChar_of_isSpace (s.separate d (by simp [hs]))

theorem endsWord_spaces_cons (s : Spaces) {c : Char} (hc : isWordChar c = false)
    (rest : List Char) : EndsWord (s.chars ++ c :: rest) :=
  endsWord_spaces_append s (by simpa using hc)

theorem endsWord_spaces (s : Spaces) : EndsWord s.chars := by
  simpa using endsWord_spaces_append s endsWord_nil

theorem IsWord.startsDense {w : List Char} (hw : IsWord w) (rest : List Char) :
    StartsDense (w ++ rest) := by
  obtain ⟨hne, hall⟩ := hw
  cases w with
  | nil => exact absurd rfl hne
  | cons c w => simpa using isSpace_of_isWordChar (hall c (by simp))

theorem IsWord.not_mem {w : List Char} (hw : IsWord w) {c : Char} (hc : isWordChar c = false) :
    c ∉ w := by
  intro h
  simp [hw.2 c h] at hc

theorem Spaces.not_mem (s : Spaces) {c : Char} (hc : isSpace c = false) : c ∉ s.chars := by
  intro h
  simp [s.separate c h] at hc

theorem word?_append {w rest : List Char} (hw : IsWord w) (hrest : EndsWord rest) :
    word? (w ++ rest) = some (w, rest) := by
  obtain ⟨hne, hall⟩ := hw
  have htake : (w ++ rest).takeWhile isWordChar = w := by
    rw [List.takeWhile_append_of_pos hall]
    cases rest with
    | nil => simp
    | cons c rest => simp [endsWord_cons.1 hrest]
  have hdrop : (w ++ rest).dropWhile isWordChar = rest := by
    rw [List.dropWhile_append_of_pos hall]
    cases rest with
    | nil => simp
    | cons c rest => simp [endsWord_cons.1 hrest]
  cases w with
  | nil => exact absurd rfl hne
  | cons c w => simp only [word?, htake, hdrop]

theorem word?_eq_some_iff {cs w rest : List Char} :
    word? cs = some (w, rest) ↔ cs = w ++ rest ∧ IsWord w ∧ EndsWord rest := by
  constructor
  · intro h
    unfold word? at h
    cases ht : cs.takeWhile isWordChar with
    | nil => simp [ht] at h
    | cons c t =>
      have hpair : (c :: t, cs.dropWhile isWordChar) = (w, rest) := by simpa [ht] using h
      obtain ⟨rfl, rfl⟩ := Prod.mk.inj hpair
      refine ⟨?_, ⟨by simp, ?_⟩, ?_⟩
      · rw [← ht, List.takeWhile_append_dropWhile]
      · intro d hd
        exact List.mem_takeWhile_imp (ht ▸ hd)
      · intro d hd
        have hnot := List.head?_dropWhile_not isWordChar cs
        simpa [hd] using hnot
  · rintro ⟨rfl, hw, hrest⟩
    exact word?_append hw hrest

/-- A text starts with at most one word that ends there. -/
theorem word_append_inj {v w cs ds : List Char} (hv : IsWord v) (hw : IsWord w)
    (hcs : EndsWord cs) (hds : EndsWord ds) (h : v ++ cs = w ++ ds) : v = w ∧ cs = ds := by
  have hread := word?_append hv hcs
  rw [h, word?_append hw hds] at hread
  simp only [Option.some.injEq, Prod.mk.injEq] at hread
  exact ⟨hread.1.symm, hread.2.symm⟩

/-! ## Separators, words and blanks -/

theorem isBlank_of_isSpace {c : Char} (h : isSpace c = true) : Text.isBlank c = true := by
  simp only [isSpace, Bool.or_eq_true, beq_iff_eq] at h
  rcases h with ((rfl | rfl) | rfl) | rfl <;> decide

/-- The code points of word characters. -/
theorem toNat_of_isWordChar {c : Char} (h : isWordChar c = true) :
    48 ≤ c.toNat ∧ c.toNat ≤ 57 ∨ 65 ≤ c.toNat ∧ c.toNat ≤ 90 ∨ c.toNat = 95 ∨
      97 ≤ c.toNat ∧ c.toNat ≤ 122 := by
  change (decide (c.val ≥ 'A'.val ∧ c.val ≤ 'Z'.val) ||
    (decide (c.val ≥ 'a'.val) && decide (c.val ≤ 'z'.val)) ||
      (decide (c.val ≥ '0'.val) && decide (c.val ≤ '9'.val)) || c == '_') = true at h
  simp only [Bool.or_eq_true, Bool.and_eq_true, decide_eq_true_eq, beq_iff_eq,
    UInt32.le_iff_toNat_le, ge_iff_le] at h
  rcases h with ((h | h) | h) | rfl
  · exact .inr (.inl ⟨h.1, h.2⟩)
  · exact .inr (.inr (.inr ⟨h.1, h.2⟩))
  · exact .inl ⟨h.1, h.2⟩
  · exact .inr (.inr (.inl rfl))

theorem isBlank_of_isWordChar {c : Char} (h : isWordChar c = true) : Text.isBlank c = false := by
  have hc := toNat_of_isWordChar h
  simp only [Text.isBlank, Text.blankRanges, List.any_cons, List.any_nil, Bool.or_eq_false_iff,
    Bool.and_eq_false_iff, decide_eq_false_iff_not, and_true]
  omega

theorem IsWord.dense {w : List Char} (hw : IsWord w) : Text.Dense w where
  nonempty := hw.1
  first c hc := isBlank_of_isWordChar (hw.2 c (List.mem_of_head? hc))
  last c hc := isBlank_of_isWordChar (hw.2 c (List.mem_of_getLast? hc))

/-! ## Fixed text -/

theorem takeWhile_append_stop {cs : List Char} {c : Char} (rest : List Char) (h : c ∉ cs) :
    (cs ++ c :: rest).takeWhile (· != c) = cs := by
  rw [List.takeWhile_append_of_pos (fun d hd => by simpa using fun (hdc : d = c) => h (hdc ▸ hd))]
  simp

theorem dropWhile_append_stop {cs : List Char} {c : Char} (rest : List Char) (h : c ∉ cs) :
    (cs ++ c :: rest).dropWhile (· != c) = c :: rest := by
  rw [List.dropWhile_append_of_pos (fun d hd => by simpa using fun (hdc : d = c) => h (hdc ▸ hd))]
  simp

theorem literal?_append (lit rest : List Char) : literal? lit (lit ++ rest) = some rest :=
  literal?_eq_some_iff.2 rfl

/-! ## Lexemes after separators -/

theorem skipSpaces_eq_iff {cs ds : List Char} (hds : StartsDense ds) :
    skipSpaces cs = ds ↔ ∃ s : Spaces, cs = s.chars ++ ds := by
  constructor
  · rintro rfl
    exact exists_spaces cs
  · rintro ⟨s, rfl⟩
    exact skipSpaces_append_dense s hds

theorem isEmpty_skipSpaces_iff {cs : List Char} :
    (skipSpaces cs).isEmpty = true ↔ ∃ s : Spaces, cs = s.chars := by
  rw [List.isEmpty_iff, skipSpaces_eq_iff startsDense_nil]
  simp

theorem literal?_skipSpaces_eq_some_iff {c : Char} {lit cs rest : List Char}
    (hc : isSpace c = false) :
    literal? (c :: lit) (skipSpaces cs) = some rest ↔
      ∃ s : Spaces, cs = s.chars ++ (c :: lit ++ rest) := by
  rw [literal?_eq_some_iff, skipSpaces_eq_iff (by simpa using hc)]

theorem word?_skipSpaces_eq_some_iff {cs w rest : List Char} :
    word? (skipSpaces cs) = some (w, rest) ↔
      ∃ s : Spaces, cs = s.chars ++ (w ++ rest) ∧ IsWord w ∧ EndsWord rest := by
  rw [word?_eq_some_iff]
  constructor
  · rintro ⟨hskip, hw, hrest⟩
    obtain ⟨s, hs⟩ := (skipSpaces_eq_iff (hw.startsDense rest)).1 hskip
    exact ⟨s, hs, hw, hrest⟩
  · rintro ⟨s, hs, hw, hrest⟩
    exact ⟨(skipSpaces_eq_iff (hw.startsDense rest)).2 ⟨s, hs⟩, hw, hrest⟩

/-- One or more separators and a word. -/
theorem spaces?_word?_eq_some_iff {cs w rest : List Char} :
    (∃ ds, spaces? cs = some ds ∧ word? ds = some (w, rest)) ↔
      ∃ s : Spaces, s.chars ≠ [] ∧ cs = s.chars ++ (w ++ rest) ∧ IsWord w ∧ EndsWord rest := by
  constructor
  · rintro ⟨ds, hds, hword⟩
    obtain ⟨s, hne, rfl, -⟩ := spaces?_eq_some_iff.1 hds
    obtain ⟨rfl, hw, hrest⟩ := word?_eq_some_iff.1 hword
    exact ⟨s, hne, rfl, hw, hrest⟩
  · rintro ⟨s, hne, rfl, hw, hrest⟩
    exact ⟨w ++ rest, spaces?_eq_some_iff.2 ⟨s, hne, rfl, hw.startsDense rest⟩,
      word?_append hw hrest⟩

end Grammar
end TimedAutomata
