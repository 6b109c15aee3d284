/-!
# Sequences

Lists in the order in which things were first seen, and texts one after another. The first
occurrences of a list are `List.eraseDups`.

- `addTo`: adding a member to the group with its key
- `joinWith`: texts with a separator between them
- `nodup_eraseDups`, `eraseDups_concat`: what first occurrences are, and how they grow
- `mem_eraseReps`, `ascending_eraseReps`: lists of which equal neighbours are dropped
-/

namespace TimedAutomata
namespace Sequence

/-- Adds `a` to the first group with the key `k`, or a new group behind all others. -/
def addTo {κ α : Type} [DecidableEq κ] (k : κ) (a : α) : List (κ × List α) → List (κ × List α)
  | [] => [(k, [a])]
  | (l, members) :: groups =>
    if l = k then (l, members ++ [a]) :: groups else (l, members) :: addTo k a groups

/-- The texts one after another with `sep` between neighbours. -/
def joinWith (sep : String) (parts : List String) : String :=
  sep.intercalate parts

/-! ## First occurrences -/

section

variable {α : Type} [BEq α] [LawfulBEq α]

/-- A new element goes to the end, a known one changes nothing. -/
theorem eraseDups_concat (as : List α) (b : α) :
    (as ++ [b]).eraseDups = if b ∈ as then as.eraseDups else as.eraseDups ++ [b] := by
  rw [List.eraseDups_append]
  by_cases h : b ∈ as <;> simp [List.removeAll, List.eraseDups_cons, h]

theorem nodup_eraseDups (as : List α) : as.eraseDups.Nodup := by
  induction h : as.length using Nat.strongRecOn generalizing as with
  | ind n ih =>
    cases as with
    | nil => simp
    | cons a as =>
      rw [List.eraseDups_cons, List.nodup_cons]
      refine ⟨by simp [List.mem_eraseDups], ih _ ?_ _ rfl⟩
      subst h
      exact Nat.lt_succ_of_le (List.length_filter_le ..)

end

/-! ## Equal neighbours -/

variable {α : Type} [DecidableEq α]

/-- Of equal neighbours, the first is kept. -/
theorem eraseReps_cons_cons (a b : α) (as : List α) :
    (a :: b :: as).eraseReps =
      if a = b then (a :: as).eraseReps else a :: (b :: as).eraseReps := by
  have hloop : ∀ (as kept : List α) (a : α),
      List.eraseRepsBy.loop (· == ·) a as kept =
        kept.reverse ++ List.eraseRepsBy.loop (· == ·) a as [] := by
    intro as
    induction as with
    | nil => simp [List.eraseRepsBy.loop]
    | cons b as ih =>
      intro kept a
      by_cases h : a = b
      · simpa [List.eraseRepsBy.loop, h] using ih kept b
      · have hne : (a == b) = false := beq_false_of_ne h
        have hkept := ih (a :: kept) b
        have hone := ih [a] b
        simp [List.eraseRepsBy.loop, hne, hkept, hone]
  by_cases h : a = b
  · simp [List.eraseReps, List.eraseRepsBy, List.eraseRepsBy.loop, h]
  · have hne : (a == b) = false := beq_false_of_ne h
    have hone := hloop as [a] b
    simp [List.eraseReps, List.eraseRepsBy, List.eraseRepsBy.loop, h, hne, hone]

theorem mem_eraseReps {a : α} {as : List α} : a ∈ as.eraseReps ↔ a ∈ as := by
  induction as with
  | nil => simp [List.eraseReps, List.eraseRepsBy]
  | cons b as ih =>
    cases as with
    | nil => simp [List.eraseReps, List.eraseRepsBy, List.eraseRepsBy.loop]
    | cons c as =>
      rw [eraseReps_cons_cons]
      by_cases h : b = c
      · subst h
        simpa using ih
      · rw [if_neg h, List.mem_cons, ih]
        exact List.mem_cons.symm

/-- Without equal neighbours, an ascending list ascends strictly. -/
theorem ascending_eraseReps {as : List Nat} (h : as.Pairwise (· ≤ ·)) :
    as.eraseReps.Pairwise (· < ·) := by
  induction as with
  | nil => simp [List.eraseReps, List.eraseRepsBy]
  | cons a as ih =>
    cases as with
    | nil => simp [List.eraseReps, List.eraseRepsBy, List.eraseRepsBy.loop]
    | cons b as =>
      rw [eraseReps_cons_cons]
      by_cases hab : a = b
      · subst hab
        simpa using ih h.of_cons
      · rw [if_neg hab, List.pairwise_cons]
        rw [List.pairwise_cons] at h
        refine ⟨fun c hc => ?_, ih h.2⟩
        have hac := h.1 c (mem_eraseReps.1 hc)
        have hbc : b ≤ c := by
          rcases List.mem_cons.1 (mem_eraseReps.1 hc) with rfl | hc
          · exact Nat.le_refl _
          · exact (List.pairwise_cons.1 h.2).1 c hc
        have hlt : a < b := Nat.lt_of_le_of_ne (h.1 b List.mem_cons_self) hab
        exact Nat.lt_of_lt_of_le hlt hbc

end Sequence
end TimedAutomata
