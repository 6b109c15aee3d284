import Mathlib.Data.List.Nodup
import Mathlib.Data.List.Perm.Basic

/-!
# Lists of keys and values

A list of pairs serves as a map from the first components to the second ones.

* `lookup_isSome_iff`, `lookup_eq_none_iff`: which keys have a value
* `lookup_eq_some_iff_mem`: which value, if no key occurs twice
* `lookup_zipIdx`: a list as the map from its elements to their first positions
-/

namespace TimedAutomata

variable {κ ν : Type} [BEq κ] [LawfulBEq κ]

theorem lookup_isSome_iff {k : κ} {xs : List (κ × ν)} :
    (xs.lookup k).isSome = true ↔ k ∈ xs.map Prod.fst := by
  induction xs with
  | nil => simp
  | cons x xs ih =>
    rcases x with ⟨l, v⟩
    by_cases h : k = l
    · simp [h]
    · have hne : (k == l) = false := by simpa using h
      simp only [List.lookup_cons, hne, ih, List.map_cons, List.mem_cons, h, false_or]

theorem lookup_eq_none_iff {k : κ} {xs : List (κ × ν)} :
    xs.lookup k = none ↔ k ∉ xs.map Prod.fst := by
  rw [← lookup_isSome_iff, Bool.not_eq_true, Option.isSome_eq_false_iff, Option.isNone_iff_eq_none]

theorem mem_of_lookup {k : κ} {v : ν} {xs : List (κ × ν)} (h : xs.lookup k = some v) :
    (k, v) ∈ xs := by
  rcases List.lookup_eq_some_iff.1 h with ⟨front, rest, hsplit, -⟩
  simp [hsplit]

/-- If no key occurs twice, a lookup finds what the list has for it. -/
theorem lookup_eq_some_iff_mem {k : κ} {v : ν} {xs : List (κ × ν)}
    (hkeys : (xs.map Prod.fst).Nodup) : xs.lookup k = some v ↔ (k, v) ∈ xs := by
  induction xs with
  | nil => simp
  | cons x xs ih =>
    rcases x with ⟨l, w⟩
    rw [List.map_cons, List.nodup_cons] at hkeys
    by_cases h : k = l
    · subst h
      have habsent : (k, v) ∉ xs := by
        intro hmem
        exact hkeys.1 (List.mem_map.2 ⟨(k, v), hmem, rfl⟩)
      simp [habsent, eq_comm]
    · have hne : (k == l) = false := by simpa using h
      simp [List.lookup_cons, hne, ih hkeys.2, h]

theorem lookup_perm {k : κ} {xs ys : List (κ × ν)} (h : xs.Perm ys)
    (hkeys : (xs.map Prod.fst).Nodup) : xs.lookup k = ys.lookup k := by
  have hkeys' : (ys.map Prod.fst).Nodup := (h.map Prod.fst).nodup_iff.1 hkeys
  apply Option.ext
  intro v
  rw [lookup_eq_some_iff_mem hkeys, lookup_eq_some_iff_mem hkeys', h.mem_iff]

theorem lookup_map_key {f : κ → κ} (hf : f.Injective) (xs : List (κ × ν)) (k : κ) :
    (xs.map fun x => (f x.1, x.2)).lookup (f k) = xs.lookup k := by
  induction xs with
  | nil => rfl
  | cons x xs ih =>
    have hkey : (f k == f x.1) = (k == x.1) := by
      rw [Bool.eq_iff_iff, beq_iff_eq, beq_iff_eq, hf.eq_iff]
    rw [List.map_cons, List.lookup_cons, List.lookup_cons, hkey, ih]

/-- The position of an element is the first one. -/
theorem lookup_zipIdx (ks : List κ) (k : κ) (n : Nat) :
    (ks.zipIdx n).lookup k = (ks.idxOf? k).map (· + n) := by
  induction ks generalizing n with
  | nil => rfl
  | cons l ks ih =>
    rw [List.zipIdx_cons, List.lookup_cons, List.idxOf?_cons, ih]
    by_cases h : l = k
    · simp [h]
    · have hkl : (k == l) = false := by simpa using fun heq => h heq.symm
      have hlk : (l == k) = false := by simpa using h
      rw [hkl, hlk]
      simp only [Bool.false_eq_true, if_false, Option.map_map]
      congr 1
      funext i
      simp only [Function.comp_apply]
      omega

end TimedAutomata
