import Mathlib.Data.List.DropRight
import Mathlib.Data.List.TakeWhile
import TimedAutomata.Text.Blank

/-!
# Laws of trimming

Trimming takes blanks from both ends of a text and nothing else.

* `trim_eq_nil_iff`: only blank texts are trimmed away
* `exists_blank_rest`, `exists_blank_ends`: only blanks are trimmed away
* `dense_trim`: what is left has no blank ends
* `trim_append`: blanks around a text that has no blank ends
* `firstWord_append`: the first word between blanks
-/

namespace TimedAutomata
namespace Text

/-- All characters of the text are blank. -/
def IsBlank (cs : List Char) : Prop :=
  ∀ c ∈ cs, isBlank c = true

instance (cs : List Char) : Decidable (IsBlank cs) :=
  decidable_of_iff (cs.all isBlank = true) (by simp [IsBlank])

theorem trimRight_eq_rdropWhile (cs : List Char) : trimRight cs = cs.rdropWhile isBlank := rfl

theorem trim_eq_nil_iff {cs : List Char} : trim cs = [] ↔ IsBlank cs := by
  rw [trim, trimRight_eq_rdropWhile, List.rdropWhile_eq_nil_iff]
  constructor
  · intro h c hc
    rw [← List.takeWhile_append_dropWhile (p := isBlank) (l := cs), List.mem_append] at hc
    rcases hc with hc | hc
    · exact List.mem_takeWhile_imp hc
    · exact h c hc
  · intro h c hc
    exact h c (List.dropWhile_subset isBlank hc)

/-- Trimming takes away the blanks in front, and blanks behind. -/
theorem exists_blank_rest (cs : List Char) :
    ∃ after, IsBlank after ∧ cs = cs.takeWhile isBlank ++ (trim cs ++ after) := by
  refine ⟨(trimLeft cs).rtakeWhile isBlank, fun c hc => List.mem_rtakeWhile_imp hc, ?_⟩
  rw [trim, trimRight_eq_rdropWhile, List.rdropWhile_append_rtakeWhile]
  exact List.takeWhile_append_dropWhile.symm

theorem exists_blank_ends (cs : List Char) :
    ∃ before after, IsBlank before ∧ IsBlank after ∧ cs = before ++ (trim cs ++ after) := by
  rcases exists_blank_rest cs with ⟨after, hafter, hcs⟩
  exact ⟨cs.takeWhile isBlank, after, fun c hc => List.mem_takeWhile_imp hc, hafter, hcs⟩

theorem mem_of_mem_trim {cs : List Char} {c : Char} (h : c ∈ trim cs) : c ∈ cs := by
  rcases exists_blank_ends cs with ⟨before, after, -, -, hcs⟩
  rw [hcs]
  simp [h]

/-- Blanks after a text make no difference to trimming. -/
theorem trim_append_of_isBlank {after : List Char} (ha : IsBlank after) (cs : List Char) :
    trim (cs ++ after) = trim cs := by
  by_cases hcs : IsBlank cs
  · have hboth : IsBlank (cs ++ after) := List.forall_mem_append.2 ⟨hcs, ha⟩
    rw [trim_eq_nil_iff.2 hcs, trim_eq_nil_iff.2 hboth]
  · have hdrop : cs.dropWhile isBlank ≠ [] := by
      intro hnil
      exact hcs (List.dropWhile_eq_nil_iff.1 hnil)
    have hrev : ∀ c ∈ after.reverse, isBlank c = true := by
      intro c hc
      exact ha c (List.mem_reverse.1 hc)
    simp only [trim, trimLeft, trimRight, List.dropWhile_append, List.isEmpty_iff, if_neg hdrop,
      List.reverse_append, List.dropWhile_append_of_pos hrev]

/-- The text neither starts nor ends with a blank, and is not empty. -/
structure Dense (cs : List Char) : Prop where
  nonempty : cs ≠ []
  first : ∀ c, cs.head? = some c → isBlank c = false
  last : ∀ c, cs.getLast? = some c → isBlank c = false

/-- What is left by trimming is dense, if anything is. -/
theorem dense_trim {cs : List Char} (h : trim cs ≠ []) : Dense (trim cs) where
  nonempty := h
  first c hc := by
    have hprefix : trim cs <+: trimLeft cs := List.rdropWhile_prefix isBlank (trimLeft cs)
    have hleft : (trimLeft cs).head? = some c := by
      rcases hprefix with ⟨rest, hrest⟩
      rw [← hrest, List.head?_append_of_ne_nil _ h, hc]
    have hnot := List.head?_dropWhile_not isBlank cs
    rw [show cs.dropWhile isBlank = trimLeft cs from rfl, hleft] at hnot
    exact hnot
  last c hc := by
    have hnot := List.rdropWhile_last_not isBlank (trimLeft cs) h
    rw [List.getLast?_eq_some_getLast h] at hc
    rw [← Option.some.inj hc]
    exact Bool.eq_false_iff.2 hnot

theorem Dense.sandwich {v w : List Char} (hv : Dense v) (hw : Dense w) (middle : List Char) :
    Dense (v ++ (middle ++ w)) where
  nonempty := by simp [hv.nonempty]
  first c hc := hv.first c (by rwa [List.head?_append_of_ne_nil _ hv.nonempty] at hc)
  last c hc := by
    rw [← List.append_assoc, List.getLast?_append_of_ne_nil _ hw.nonempty] at hc
    exact hw.last c hc

theorem trimLeft_append {cs : List Char} (hcs : Dense cs) (before rest : List Char) :
    trimLeft (before ++ (cs ++ rest)) = trimLeft before ++ (cs ++ rest) := by
  have hstart : (cs ++ rest).dropWhile isBlank = cs ++ rest := by
    rcases List.exists_cons_of_ne_nil hcs.nonempty with ⟨c, cs', rfl⟩
    simp [hcs.first c rfl]
  rw [trimLeft, trimLeft, List.dropWhile_append, hstart]
  by_cases hb : before.dropWhile isBlank = [] <;> simp [hb]

theorem trimRight_append {cs : List Char} (hcs : Dense cs) (before after : List Char) :
    trimRight (before ++ (cs ++ after)) = before ++ (cs ++ trimRight after) := by
  have hend : (cs.reverse ++ before.reverse).dropWhile isBlank = cs.reverse ++ before.reverse := by
    rcases List.exists_cons_of_ne_nil (List.reverse_ne_nil_iff.2 hcs.nonempty) with ⟨c, cs', hcs'⟩
    have hlast : isBlank c = false := hcs.last c (by simp [← List.head?_reverse, hcs'])
    simp [hcs', hlast]
  rw [trimRight, trimRight, List.reverse_append, List.reverse_append, List.append_assoc,
    List.dropWhile_append, hend]
  by_cases ha : after.reverse.dropWhile isBlank = [] <;> simp [ha]

/-- Trimming looks for blanks outside of a dense part only. -/
theorem trim_append_dense {cs : List Char} (hcs : Dense cs) (before after : List Char) :
    trim (before ++ (cs ++ after)) = trimLeft before ++ (cs ++ trimRight after) := by
  rw [trim, trimLeft_append hcs, trimRight_append hcs]

/-- Blanks around a dense text are trimmed, and nothing else. -/
theorem trim_append {before cs after : List Char} (hb : IsBlank before) (hcs : Dense cs)
    (ha : IsBlank after) : trim (before ++ (cs ++ after)) = cs := by
  have hleft : trimLeft before = [] := List.dropWhile_eq_nil_iff.2 hb
  have hright : trimRight after = [] := by
    rw [trimRight_eq_rdropWhile]
    exact List.rdropWhile_eq_nil_iff.2 ha
  rw [trim_append_dense hcs, hleft, hright, List.nil_append, List.append_nil]

theorem trim_of_dense {cs : List Char} (hcs : Dense cs) : trim cs = cs := by
  have hblank : IsBlank [] := by simp [IsBlank]
  simpa using trim_append hblank hcs hblank

theorem firstWord_append {before w rest : List Char} (hb : IsBlank before) (hne : w ≠ [])
    (hw : ∀ c ∈ w, isBlank c = false) (hrest : ∀ c, rest.head? = some c → isBlank c = true) :
    firstWord (before ++ (w ++ rest)) = w := by
  obtain ⟨c, w, rfl⟩ := List.exists_cons_of_ne_nil hne
  have hleft : trimLeft (before ++ (c :: w ++ rest)) = c :: w ++ rest := by
    rw [trimLeft, List.dropWhile_append_of_pos hb]
    simp [hw c (by simp)]
  rw [firstWord, hleft, List.takeWhile_append_of_pos (fun d hd => by simp [hw d hd])]
  cases rest with
  | nil => simp
  | cons d rest => simp [hrest d rfl]

end Text
end TimedAutomata
