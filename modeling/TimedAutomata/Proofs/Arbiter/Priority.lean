import Mathlib.Data.List.Permutation
import TimedAutomata.Proofs.Arbiter.Decision

/-!
# Selection by priority

The tiers of an arbiter sort the transitions of a state by their classes: no transition is lost,
none appears twice, and the classes come in order of priority. The arbiter selects from the best
class that has an enabled member. Random words are drawn only where chance breaks a tie.

* `PriorityClass.Precedes`: the order of the classes
* `Arbiter.Layered`: what the tiers of a list of classes have to be
* `Arbiter.layered_tiers`: the tiers of an arbiter are that
* `Arbiter.Best`: the best class with an enabled member
* `Arbiter.select_of_best`: the tier of this class decides
* `Arbiter.Selects`: what a decision has to be
* `Arbiter.Settles`: chance decides where it has to
* `Arbiter.selects_by_priority`: there is a decision exactly then, and every decision is that
-/

namespace TimedAutomata

/-! ## The order of classes -/

namespace PriorityClass

/-- Transitions of class `c` are considered before those of class `d`. -/
def Precedes : (c d : PriorityClass) → Prop
  | .exclusive, .ranked _ | .exclusive, .default | .ranked _, .default => True
  | .ranked r, .ranked s => r < s
  | _, _ => False

instance : DecidableRel Precedes := fun c d =>
  match c, d with
  | .exclusive, .ranked _ | .exclusive, .default | .ranked _, .default => .isTrue trivial
  | .ranked r, .ranked s => inferInstanceAs (Decidable (r < s))
  | .exclusive, .exclusive | .ranked _, .exclusive | .default, .exclusive
  | .default, .ranked _ | .default, .default => .isFalse id

theorem Precedes.not_symm {c d : PriorityClass} (h : c.Precedes d) : ¬ d.Precedes c := by
  cases c <;> cases d <;> simp_all [Precedes, Nat.le_of_lt]

theorem Precedes.ne {c d : PriorityClass} (h : c.Precedes d) : c ≠ d := by
  rintro rfl
  exact h.not_symm h

theorem eq_or_precedes (c d : PriorityClass) : c = d ∨ c.Precedes d ∨ d.Precedes c := by
  cases c <;> cases d <;> simp [Precedes]
  omega

end PriorityClass

namespace Random

/-- At least one word is drawn. -/
theorem drawn_lt_of_below? {s rest : Source} {n k : Nat} (h : s.below? n = some (k, rest)) :
    s.drawn < rest.drawn := by
  have hnext : ∀ s : Source, s.drawn < s.next.2.drawn := fun s => Nat.lt_succ_self s.drawn
  refine below?_induction (motive := fun s r => s.drawn < r.2.drawn) ?_ ?_ h
  · exact fun s _ _ => hnext s
  · exact fun s _ _ hr => Nat.lt_trans (hnext s) hr

end Random

namespace Arbiter

/-! ## Tiers -/

/-- The tier of a class. -/
def tierOf (classes : List PriorityClass) (c : PriorityClass) : Tier :=
  ⟨tieBreakOf c, ordinalsOf classes c⟩

/-- Tiers that sort the ordinals of `classes` by priority. -/
structure Layered (classes : List PriorityClass) (ts : List Tier) : Prop where
  /-- Every ordinal is in one place of one tier. -/
  perm : (ts.flatMap Tier.ordinals).Perm (List.range classes.length)
  nonempty : ∀ t ∈ ts, t.ordinals ≠ []
  ascending : ∀ t ∈ ts, t.ordinals.Pairwise (· < ·)
  /-- Two ordinals share a tier exactly if they have the same class. -/
  shared : ∀ {i j c d}, classes[i]? = some c → classes[j]? = some d →
    ((∃ t ∈ ts, i ∈ t.ordinals ∧ j ∈ t.ordinals) ↔ c = d)
  /-- Tiers stand in the order of their classes. -/
  ordered : ts.Pairwise fun t u => ∀ i ∈ t.ordinals, ∀ j ∈ u.ordinals, ∀ c d,
    classes[i]? = some c → classes[j]? = some d → c.Precedes d

variable {classes : List PriorityClass}

theorem ascending_ordinalsOf (classes : List PriorityClass) (c : PriorityClass) :
    (ordinalsOf classes c).Pairwise (· < ·) := by
  have hall : (classes.zipIdx.map Prod.snd).Pairwise (· < ·) := by
    rw [List.zipIdx_map_snd]
    exact List.pairwise_lt_range'
  exact hall.sublist (List.filter_sublist.map Prod.snd)

theorem ascending_ranks (classes : List PriorityClass) : (ranks classes).Pairwise (· < ·) := by
  apply Sequence.ascending_eraseReps
  have hsorted : ((classes.filterMap PriorityClass.rank?).mergeSort).Pairwise
      fun a b => decide (a ≤ b) = true := by
    apply List.pairwise_mergeSort
    · simpa using fun _ _ _ => Nat.le_trans
    · simpa using Nat.le_total
  simpa using hsorted

/-- The classes that can occur come in order of priority. -/
theorem pairwise_priorities (classes : List PriorityClass) :
    (priorities classes).Pairwise PriorityClass.Precedes := by
  have hranks : ((ranks classes).map PriorityClass.ranked).Pairwise PriorityClass.Precedes :=
    List.pairwise_map.2 (ascending_ranks classes)
  have hdefault : ∀ c ∈ (ranks classes).map PriorityClass.ranked, c.Precedes .default := by
    simp [PriorityClass.Precedes]
  have hexclusive : ∀ c ∈ (ranks classes).map PriorityClass.ranked ++ [.default],
      PriorityClass.exclusive.Precedes c := by
    simp [or_imp, forall_and, PriorityClass.Precedes]
  refine List.pairwise_cons.2 ⟨hexclusive, List.pairwise_append.2 ⟨hranks, by simp, ?_⟩⟩
  simpa using hdefault

theorem tiers_eq (classes : List PriorityClass) :
    tiers ⟨classes⟩ =
      ((priorities classes).map (tierOf classes)).filter fun t => !t.ordinals.isEmpty :=
  rfl

/-- A class with members has a tier. -/
theorem tierOf_mem_tiers {i : Nat} {c : PriorityClass} (h : classes[i]? = some c) :
    tierOf classes c ∈ tiers ⟨classes⟩ := by
  have hclass := mem_priorities (List.mem_of_getElem? h)
  have hne : ordinalsOf classes c ≠ [] := List.ne_nil_of_mem (mem_ordinalsOf.2 h)
  refine List.mem_filter.2 ⟨List.mem_map_of_mem hclass, ?_⟩
  simpa [tierOf] using hne

theorem nodup_ordinals (classes : List PriorityClass) :
    ((tiers ⟨classes⟩).flatMap Tier.ordinals).Nodup := by
  refine List.nodup_flatMap.2 ⟨?_, ?_⟩
  · intro t ht
    rcases exists_class_of_mem_tiers ht with ⟨c, rfl⟩
    exact (ascending_ordinalsOf classes c).imp Nat.ne_of_lt
  · -- an ordinal has one class, so it is in the tier of that class only
    rw [tiers_eq]
    refine ((pairwise_priorities classes).map (tierOf classes) ?_).filter _
    intro c d hcd i hc hd
    have hc := mem_ordinalsOf.1 hc
    have hd := mem_ordinalsOf.1 hd
    exact hcd.ne (Option.some.inj (hc.symm.trans hd))

/-- The tiers of an arbiter sort the ordinals by priority. -/
theorem layered_tiers (classes : List PriorityClass) : Layered classes (tiers ⟨classes⟩) where
  perm := by
    refine (List.perm_ext_iff_of_nodup (nodup_ordinals classes) List.nodup_range).2 ?_
    intro i
    rw [List.mem_flatMap, List.mem_range]
    constructor
    · rintro ⟨t, ht, hi⟩
      exact lt_of_mem_ordinals ht hi
    · exact fun hi => exists_tier (a := ⟨classes⟩) hi
  nonempty t ht := by simpa using (List.mem_filter.1 ht).2
  ascending t ht := by
    rcases exists_class_of_mem_tiers ht with ⟨c, rfl⟩
    exact ascending_ordinalsOf classes c
  shared {i j c d} hc hd := by
    constructor
    · rintro ⟨t, ht, hi, hj⟩
      rcases exists_class_of_mem_tiers ht with ⟨e, rfl⟩
      have hi := mem_ordinalsOf.1 hi
      have hj := mem_ordinalsOf.1 hj
      calc c = e := Option.some.inj (hc.symm.trans hi)
        _ = d := Option.some.inj (hj.symm.trans hd)
    · rintro rfl
      exact ⟨_, tierOf_mem_tiers hc, mem_ordinalsOf.2 hc, mem_ordinalsOf.2 hd⟩
  ordered := by
    rw [tiers_eq]
    refine ((pairwise_priorities classes).map (tierOf classes) ?_).filter _
    intro c d hcd i hi j hj c' d' hc' hd'
    obtain rfl : c = c' := Option.some.inj ((mem_ordinalsOf.1 hi).symm.trans hc')
    obtain rfl : d = d' := Option.some.inj ((mem_ordinalsOf.1 hj).symm.trans hd')
    exact hcd

/-! ## The best class -/

variable {enabled : List Bool} {c : PriorityClass} {s : Random.Source}

/-- The class `c` has an enabled member, and no class before it has one. -/
structure Best (classes : List PriorityClass) (enabled : List Bool) (c : PriorityClass) :
    Prop where
  member : ∃ i : Nat, classes[i]? = some c ∧ enabled[i]? = some true
  first : ∀ (j : Nat) (d : PriorityClass), classes[j]? = some d → enabled[j]? = some true →
    ¬ d.Precedes c

theorem Best.unique {d : PriorityClass} (hc : Best classes enabled c)
    (hd : Best classes enabled d) : c = d := by
  rcases hc.member with ⟨i, hi, hienabled⟩
  rcases hd.member with ⟨j, hj, hjenabled⟩
  rcases c.eq_or_precedes d with heq | hcd | hdc
  · exact heq
  · exact absurd hcd (hd.first i c hi hienabled)
  · exact absurd hdc (hc.first j d hj hjenabled)

theorem mem_candidates_tierOf {i : Nat} :
    i ∈ candidates enabled (tierOf classes c) ↔
      classes[i]? = some c ∧ enabled[i]? = some true := by
  simp only [candidates, tierOf, List.mem_filter, mem_ordinalsOf, List.getD_eq_getElem?_getD]
  cases enabled[i]? <;> simp

/-- Tiers without enabled members are passed over. -/
theorem selectFrom_append {before : List Tier} (h : ∀ u ∈ before, candidates enabled u = [])
    (ts : List Tier) : selectFrom enabled s (before ++ ts) = selectFrom enabled s ts := by
  induction before with
  | nil => rfl
  | cons u before ih =>
    simp only [List.forall_mem_cons] at h
    rw [List.cons_append, selectFrom, h.1]
    exact ih h.2

/-- Behind a tier with enabled members nothing matters. -/
theorem selectFrom_cons {t : Tier} (h : candidates enabled t ≠ []) (ts : List Tier) :
    selectFrom enabled s (t :: ts) = selectFrom enabled s [t] := by
  unfold selectFrom
  cases hcand : candidates enabled t with
  | nil => exact absurd hcand h
  | cons i is => cases is <;> cases t.tieBreak <;> rfl

/-- The tier of the best class decides. -/
theorem select_of_best (h : Best classes enabled c) (s : Random.Source) :
    select ⟨classes⟩ enabled s = selectFrom enabled s [tierOf classes c] := by
  rcases h.member with ⟨i, hi, hienabled⟩
  have hcand : candidates enabled (tierOf classes c) ≠ [] :=
    List.ne_nil_of_mem (mem_candidates_tierOf.2 ⟨hi, hienabled⟩)
  rcases List.append_of_mem (tierOf_mem_tiers hi) with ⟨before, after, hsplit⟩
  have hlayered := layered_tiers classes
  have hordered := hlayered.ordered
  rw [hsplit, List.pairwise_append] at hordered
  -- the tiers before belong to better classes, none of which has an enabled member
  have hbefore : ∀ u ∈ before, candidates enabled u = [] := by
    intro u hu
    rcases exists_class_of_mem_tiers (a := ⟨classes⟩) (t := u) (by simp [hsplit, hu]) with
      ⟨d, rfl⟩
    refine List.eq_nil_iff_forall_not_mem.2 fun j hj => ?_
    rcases mem_candidates_tierOf.1 hj with ⟨hd, hjenabled⟩
    apply h.first j d hd hjenabled
    exact hordered.2.2 _ hu _ List.mem_cons_self j (mem_ordinalsOf.2 hd) i (mem_ordinalsOf.2 hi)
      d c hd hi
  rw [select, hsplit, selectFrom_append hbefore, selectFrom_cons hcand]

/-- If something is enabled, some class is the best. -/
theorem exists_best (hlength : enabled.length = classes.length) {i : Nat}
    (hi : enabled[i]? = some true) : ∃ c, Best classes enabled c := by
  have hlt : i < classes.length := hlength ▸ (List.getElem?_eq_some_iff.1 hi).1
  have hclass := List.getElem?_eq_getElem hlt
  have hsome : ((priorities classes).find? fun c =>
      !(candidates enabled (tierOf classes c)).isEmpty).isSome = true := by
    rw [List.find?_isSome]
    refine ⟨classes[i], mem_priorities (List.getElem_mem hlt), ?_⟩
    simpa using List.ne_nil_of_mem (mem_candidates_tierOf.2 ⟨hclass, hi⟩)
  rcases Option.isSome_iff_exists.1 hsome with ⟨c, hc⟩
  rcases List.find?_eq_some_iff_append.1 hc with ⟨hmember, before, after, hsplit, hbefore⟩
  have hordered := pairwise_priorities classes
  rw [hsplit, List.pairwise_append, List.pairwise_cons] at hordered
  refine ⟨c, ?_, ?_⟩
  · rcases List.exists_mem_of_ne_nil _ (by simpa using hmember) with ⟨j, hj⟩
    exact ⟨j, mem_candidates_tierOf.1 hj⟩
  · intro j d hd hj hprecedes
    have hmem := mem_priorities (List.mem_of_getElem? hd)
    rw [hsplit, List.mem_append, List.mem_cons] at hmem
    rcases hmem with hmem | rfl | hmem
    · -- a class before `c` has no enabled member
      have hnone := hbefore d hmem
      simp only [Bool.not_not, List.isEmpty_iff] at hnone
      have hjmem := mem_candidates_tierOf.2 ⟨hd, hj⟩
      simp [hnone] at hjmem
    · exact hprecedes.ne rfl
    · exact hprecedes.not_symm (hordered.2.1.1 d hmem)

/-! ## Decisions -/

/-- Chance has to decide: the best class breaks ties at random and has two enabled members. -/
def Contested (classes : List PriorityClass) (enabled : List Bool) : Prop :=
  ∃ (c : PriorityClass) (i j : Nat), Best classes enabled c ∧ c ≠ .exclusive ∧ i < j ∧
    classes[i]? = some c ∧ enabled[i]? = some true ∧
    classes[j]? = some c ∧ enabled[j]? = some true

/-- What a decision has to be, together with what it leaves of the random words. -/
structure Selects (classes : List PriorityClass) (enabled : List Bool) (s : Random.Source)
    (choice : Option Nat) (rest : Random.Source) : Prop where
  /-- Nothing is selected exactly if nothing is enabled. -/
  none_iff : choice = none ↔ ∀ i : Nat, enabled[i]? ≠ some true
  /-- Otherwise an enabled member of the best class is selected. -/
  best : ∀ i, choice = some i → enabled[i]? = some true ∧
    ∃ c, classes[i]? = some c ∧ Best classes enabled c
  /-- Of exclusive transitions it is the first. -/
  earliest : ∀ i, choice = some i → classes[i]? = some .exclusive →
    ∀ j, classes[j]? = some .exclusive → enabled[j]? = some true → i ≤ j
  /-- Words are drawn exactly if chance has to decide. -/
  draws : s.drawn < rest.drawn ↔ Contested classes enabled
  keeps : ¬ Contested classes enabled → rest = s

/-- The decision of a tier with one enabled member, or where the first goes. -/
theorem selectFrom_first {t : Tier} {i : Nat} {is : List Nat}
    (hcand : candidates enabled t = i :: is) (h : is = [] ∨ t.tieBreak = .first) :
    selectFrom enabled s [t] = some (some i, s) := by
  unfold selectFrom
  rw [hcand]
  rcases h with rfl | hfirst
  · rfl
  · rw [hfirst]
    cases is <;> rfl

/-- The decision of a tier where chance breaks a tie. -/
theorem selectFrom_random {t : Tier} {i j : Nat} {is : List Nat}
    (hcand : candidates enabled t = i :: j :: is) (h : t.tieBreak = .random) :
    selectFrom enabled s [t] =
      (s.below? (i :: j :: is).length).map fun r => ((i :: j :: is)[r.1]?, r.2) := by
  unfold selectFrom
  simp only [hcand, h]
  cases s.below? (i :: j :: is).length <;> rfl

theorem ascending_candidates (enabled : List Bool) (classes : List PriorityClass)
    (c : PriorityClass) : (candidates enabled (tierOf classes c)).Pairwise (· < ·) :=
  (ascending_ordinalsOf classes c).filter _

/-- Two enabled members of the best class are two candidates. -/
theorem contested_iff (h : Best classes enabled c) :
    Contested classes enabled ↔
      c ≠ .exclusive ∧ ∃ i j is, candidates enabled (tierOf classes c) = i :: j :: is := by
  constructor
  · rintro ⟨d, i, j, hd, hne, hlt, hi, hienabled, hj, hjenabled⟩
    obtain rfl := h.unique hd
    have himem := mem_candidates_tierOf.2 ⟨hi, hienabled⟩
    have hjmem := mem_candidates_tierOf.2 ⟨hj, hjenabled⟩
    refine ⟨hne, ?_⟩
    match hcand : candidates enabled (tierOf classes c) with
    | [] => simp [hcand] at himem
    | [k] =>
      have hik : i = k := by simpa [hcand] using himem
      have hjk : j = k := by simpa [hcand] using hjmem
      omega
    | k :: l :: ks => exact ⟨k, l, ks, rfl⟩
  · rintro ⟨hne, i, j, is, hcand⟩
    have hascending := ascending_candidates enabled classes c
    rw [hcand] at hascending
    have hi := mem_candidates_tierOf.1 (hcand ▸ List.mem_cons_self)
    have hj := mem_candidates_tierOf.1
      (hcand ▸ List.mem_cons_of_mem i List.mem_cons_self : j ∈ candidates enabled _)
    have hlt : i < j := List.rel_of_pairwise_cons hascending List.mem_cons_self
    exact ⟨c, i, j, h, hne, hlt, hi.1, hi.2, hj.1, hj.2⟩

/-- Where nothing is enabled, nothing happens. -/
theorem selects_none (classes : List PriorityClass) (s : Random.Source)
    (hnone : ∀ i : Nat, enabled[i]? ≠ some true) :
    select ⟨classes⟩ enabled s = some (none, s) ∧ Selects classes enabled s none s := by
  have hcand : ∀ t ∈ tiers ⟨classes⟩, candidates enabled t = [] := by
    intro t ht
    rcases exists_class_of_mem_tiers ht with ⟨c, rfl⟩
    refine List.eq_nil_iff_forall_not_mem.2 fun i hi => ?_
    exact hnone i (mem_candidates_tierOf.1 hi).2
  have hpeace : ¬ Contested classes enabled := by
    rintro ⟨c, i, j, -, -, -, -, hi, -⟩
    exact hnone i hi
  refine ⟨selectFrom_of_disabled hcand s,
    ⟨by simpa using hnone, by simp, by simp, ?_, fun _ => rfl⟩⟩
  exact iff_of_false (Nat.lt_irrefl _) hpeace

/-- Where chance does not have to decide, the first enabled member of the best class is taken. -/
theorem Best.select_of_not_contested (h : Best classes enabled c)
    (hpeace : ¬ Contested classes enabled) {i : Nat} {is : List Nat}
    (hcand : candidates enabled (tierOf classes c) = i :: is) (s : Random.Source) :
    select ⟨classes⟩ enabled s = some (some i, s) := by
  have hfirst : is = [] ∨ (tierOf classes c).tieBreak = .first := by
    cases is with
    | nil => exact .inl rfl
    | cons j is =>
      by_cases hc : c = .exclusive
      · exact .inr (hc ▸ rfl)
      · exact absurd ((contested_iff h).2 ⟨hc, i, j, is, hcand⟩) hpeace
  rw [select_of_best h, selectFrom_first hcand hfirst]

/-- Where it has to, the position that it gives is that of the transition to take. -/
theorem Best.select_of_contested (h : Best classes enabled c)
    (hcontested : Contested classes enabled) (s : Random.Source) :
    select ⟨classes⟩ enabled s =
      (s.below? (candidates enabled (tierOf classes c)).length).map fun r =>
        ((candidates enabled (tierOf classes c))[r.1]?, r.2) := by
  rcases (contested_iff h).1 hcontested with ⟨hne, i, j, is, hcand⟩
  have hbreak : (tierOf classes c).tieBreak = .random := by
    cases c <;> first | rfl | exact absurd rfl hne
  rw [select_of_best h, selectFrom_random hcand hbreak, hcand]

theorem Best.candidates_ne_nil (h : Best classes enabled c) :
    candidates enabled (tierOf classes c) ≠ [] := by
  rcases h.member with ⟨i, hi⟩
  exact List.ne_nil_of_mem (mem_candidates_tierOf.2 hi)

/-- The decision of the best class. -/
theorem Best.selects (h : Best classes enabled c) {choice : Option Nat} {rest : Random.Source}
    (hselect : select ⟨classes⟩ enabled s = some (choice, rest)) :
    Selects classes enabled s choice rest := by
  rcases h.member with ⟨m, hm, hmenabled⟩
  have hsome : ¬ ∀ i : Nat, enabled[i]? ≠ some true := fun hnone => hnone m hmenabled
  have hbest : ∀ i ∈ candidates enabled (tierOf classes c), enabled[i]? = some true ∧
      ∃ c, classes[i]? = some c ∧ Best classes enabled c := by
    intro i hi
    rcases mem_candidates_tierOf.1 hi with ⟨hic, hienabled⟩
    exact ⟨hienabled, c, hic, h⟩
  by_cases hcontested : Contested classes enabled
  · -- chance decides among all candidates
    rw [h.select_of_contested hcontested, Option.map_eq_some_iff] at hselect
    rcases hselect with ⟨⟨k, after⟩, hbelow, hpick⟩
    obtain ⟨rfl, rfl⟩ := Prod.mk.inj hpick
    have hlt := Random.below?_lt (List.length_pos_of_ne_nil h.candidates_ne_nil) hbelow
    have hmem := List.getElem_mem hlt
    rw [List.getElem?_eq_getElem hlt]
    refine ⟨by simpa using hsome, ?_, ?_, ?_, fun hpeace => absurd hcontested hpeace⟩
    · intro i hi
      exact hbest i (Option.some.inj hi ▸ hmem)
    · intro i hi hexclusive
      have hic := (mem_candidates_tierOf.1 (Option.some.inj hi ▸ hmem)).1
      exact absurd (Option.some.inj (hic.symm.trans hexclusive))
        ((contested_iff h).1 hcontested).1
    · exact iff_of_true (Random.drawn_lt_of_below? hbelow) hcontested
  · -- one candidate, or the first of the exclusive ones
    rcases List.exists_cons_of_ne_nil h.candidates_ne_nil with ⟨i, is, hcand⟩
    have himem : i ∈ candidates enabled (tierOf classes c) := by simp [hcand]
    rw [h.select_of_not_contested hcontested hcand, Option.some.injEq, Prod.mk.injEq] at hselect
    obtain ⟨rfl, rfl⟩ := hselect
    refine ⟨by simpa using hsome, ?_, ?_, iff_of_false (Nat.lt_irrefl _) hcontested,
      fun _ => rfl⟩
    · rintro k hk
      exact hbest k (Option.some.inj hk ▸ himem)
    · intro k hk hexclusive j hj hjenabled
      obtain rfl := Option.some.inj hk
      obtain rfl : c = .exclusive :=
        Option.some.inj ((mem_candidates_tierOf.1 himem).1.symm.trans hexclusive)
      have hascending := ascending_candidates enabled classes .exclusive
      have hjmem := mem_candidates_tierOf.2 ⟨hj, hjenabled⟩
      rw [hcand] at hascending hjmem
      rcases List.mem_cons.1 hjmem with rfl | hlater
      · exact Nat.le_refl _
      · exact Nat.le_of_lt (List.rel_of_pairwise_cons hascending hlater)

/-- Some word leads to each enabled member of the best class, if chance breaks its ties. -/
theorem Best.exists_word (h : Best classes enabled c) (hne : c ≠ .exclusive)
    (hsize : classes.length ≤ UInt64.size) {i : Nat} (hi : classes[i]? = some c)
    (hienabled : enabled[i]? = some true) :
    ∃ word, ∀ s : Random.Source, s.next.1 = word →
      ∃ rest, select ⟨classes⟩ enabled s = some (some i, rest) := by
  have himem := mem_candidates_tierOf.2 ⟨hi, hienabled⟩
  by_cases hcontested : Contested classes enabled
  · have hlength : (candidates enabled (tierOf classes c)).length ≤ UInt64.size :=
      calc (candidates enabled (tierOf classes c)).length
        _ ≤ (ordinalsOf classes c).length := List.length_filter_le ..
        _ ≤ classes.length := length_ordinalsOf_le classes c
        _ ≤ UInt64.size := hsize
    rcases List.mem_iff_getElem?.1 himem with ⟨position, hposition⟩
    have hlt := (List.getElem?_eq_some_iff.1 hposition).1
    -- the word that decides on the position of `i`
    rcases Random.exists_accept? hlength hlt with ⟨word, hword⟩
    refine ⟨word, fun s hs => ⟨s.next.2, ?_⟩⟩
    rw [← hs] at hword
    rw [h.select_of_contested hcontested, Random.below?_of_accept? hword, Option.map_some,
      hposition]
  · -- two candidates would be a contest
    rcases List.exists_cons_of_ne_nil h.candidates_ne_nil with ⟨k, is, hcand⟩
    have hone : is = [] := by
      cases is with
      | nil => rfl
      | cons j is => exact absurd ((contested_iff h).2 ⟨hne, k, j, is, hcand⟩) hcontested
    obtain rfl : i = k := by simpa [hcand, hone] using himem
    exact ⟨0, fun s _ => ⟨s, h.select_of_not_contested hcontested hcand s⟩⟩

/-- If chance has to decide, the draw among the enabled members of the best class ends. -/
def Settles (classes : List PriorityClass) (enabled : List Bool) (s : Random.Source) : Prop :=
  ∀ c, Best classes enabled c → Contested classes enabled →
    s.Decisive (candidates enabled (tierOf classes c)).length

theorem Best.isSome_select_iff (h : Best classes enabled c) :
    (select ⟨classes⟩ enabled s).isSome = true ↔ Settles classes enabled s := by
  by_cases hcontested : Contested classes enabled
  · rw [h.select_of_contested hcontested, Option.isSome_map, Random.isSome_below?_iff]
    constructor
    · intro hdecisive d hd _
      rwa [hd.unique h]
    · intro hsettles
      exact hsettles c h hcontested
  · rcases List.exists_cons_of_ne_nil h.candidates_ne_nil with ⟨i, is, hcand⟩
    rw [h.select_of_not_contested hcontested hcand]
    exact iff_of_true rfl fun _ _ hcontest => absurd hcontest hcontested

/-- Nothing is enabled, or some class is the best. -/
theorem idle_or_best (hlength : enabled.length = classes.length) :
    (∀ i : Nat, enabled[i]? ≠ some true) ∨ ∃ c, Best classes enabled c := by
  by_cases hnone : ∀ i : Nat, enabled[i]? ≠ some true
  · exact .inl hnone
  · simp only [not_forall, not_not] at hnone
    rcases hnone with ⟨i, hi⟩
    exact .inr (exists_best hlength hi)

/-- There is a decision exactly if chance decides where it has to. -/
theorem isSome_select_iff (hlength : enabled.length = classes.length) :
    (select ⟨classes⟩ enabled s).isSome = true ↔ Settles classes enabled s := by
  rcases idle_or_best hlength with hnone | ⟨c, hc⟩
  · rw [(selects_none classes s hnone).1]
    refine iff_of_true rfl fun c hc => ?_
    rcases hc.member with ⟨i, -, hi⟩
    exact absurd hi (hnone i)
  · exact hc.isSome_select_iff

theorem selects_of_select (hlength : enabled.length = classes.length) {choice : Option Nat}
    {rest : Random.Source} (h : select ⟨classes⟩ enabled s = some (choice, rest)) :
    Selects classes enabled s choice rest := by
  rcases idle_or_best hlength with hnone | ⟨c, hc⟩
  · rcases selects_none classes s hnone with ⟨hidle, hselects⟩
    obtain ⟨rfl, rfl⟩ : none = choice ∧ s = rest := by simpa [hidle] using h
    exact hselects
  · exact hc.selects h

/-- An arbiter selects by priority. Its tiers sort the ordinals by class. Take a mask that has one
entry for each transition, and any random words to come. If chance does not have to decide, or some
word to come decides, there is a decision, from the best class with an enabled member; otherwise
the draw has no end. Each enabled member of that class can be the one, by the right word, unless the
class is exclusive. A list is never longer than there are words of 64 bits. -/
theorem selects_by_priority (classes : List PriorityClass) :
    Layered classes (tiers ⟨classes⟩) ∧
    ∀ enabled : List Bool, enabled.length = classes.length →
      (∀ s, Settles classes enabled s →
        ∃ choice rest, select? ⟨classes⟩ enabled s = some (some (choice, rest)) ∧
          Selects classes enabled s choice rest) ∧
      (∀ s, ¬ Settles classes enabled s → select? ⟨classes⟩ enabled s = some none) ∧
      (classes.length ≤ UInt64.size → ∀ (c : PriorityClass) (i : Nat), Best classes enabled c →
        c ≠ .exclusive → classes[i]? = some c → enabled[i]? = some true →
        ∃ word, ∀ s : Random.Source, s.next.1 = word →
          ∃ rest, select ⟨classes⟩ enabled s = some (some i, rest)) := by
  refine ⟨layered_tiers classes, fun enabled hlength => ?_⟩
  have hselect? : ∀ s, select? ⟨classes⟩ enabled s = some (select ⟨classes⟩ enabled s) :=
    fun s => if_pos hlength
  refine ⟨?_, ?_, ?_⟩
  · intro s hsettles
    rcases Option.isSome_iff_exists.1 ((isSome_select_iff hlength).2 hsettles) with
      ⟨⟨choice, rest⟩, hselect⟩
    exact ⟨choice, rest, hselect ▸ hselect? s, selects_of_select hlength hselect⟩
  · intro s hsettles
    have hnone : select ⟨classes⟩ enabled s = none := by
      rwa [← isSome_select_iff hlength, Option.not_isSome_iff_eq_none] at hsettles
    rw [hselect?, hnone]
  · intro hsize c i hc hne hi hienabled
    exact hc.exists_word hne hsize hi hienabled

/-- Neither the exclusive transitions nor the one of the lowest rank is enabled, so that chance
decides between the two of rank seven; a source that repeats one word for ever may never decide. -/
theorem selects_by_priority_tied_ranks :
    let classes : List PriorityClass :=
      [.ranked 7, .default, .exclusive, .ranked 2, .ranked 7, .exclusive]
    let enabled := [true, true, false, false, true, false]
    (tiers ⟨classes⟩).map Tier.ordinals = [[2, 5], [3], [0, 4], [1]] ∧
      Layered classes (tiers ⟨classes⟩) ∧ Best classes enabled (.ranked 7) ∧
      (∃ choice rest, select? ⟨classes⟩ enabled (.ofWords [5]) = some (some (choice, rest)) ∧
        0 < rest.drawn) ∧
      select? ⟨classes⟩ enabled (.start fun _ => 0x4000000000000000) = some none ∧
      ∃ word, ∀ s : Random.Source, s.next.1 = word →
        ∃ rest, select ⟨classes⟩ enabled s = some (some 4, rest) := by
  intro classes enabled
  have htiers : (tiers ⟨classes⟩).map Tier.ordinals = [[2, 5], [3], [0, 4], [1]] := by cbv
  have hbest : Best classes enabled (.ranked 7) := by
    refine ⟨⟨0, rfl, rfl⟩, fun j d hd hj => ?_⟩
    have hlt : j < 6 := (List.getElem?_eq_some_iff.1 hd).1
    have hall : ∀ j < 6, ∀ d ∈ classes[j]?, enabled[j]? = some true → ¬ d.Precedes (.ranked 7) := by
      decide
    exact hall j hlt d hd hj
  have hcontested : Contested classes enabled :=
    ⟨.ranked 7, 0, 4, hbest, by decide, by decide, rfl, rfl, rfl, rfl⟩
  have hunsettled : ¬ Settles classes enabled (.start fun _ => 0x4000000000000000) := by
    intro hsettles
    rcases hsettles _ hbest hcontested with ⟨m, -, hword⟩
    have hpasses : Random.accept? 2 0x4000000000000000 = none := by decide
    exact hword hpasses
  rcases selects_by_priority classes with ⟨hlayered, hselect⟩
  rcases hselect enabled rfl with ⟨hdecides, hnever, hword⟩
  rcases hdecides (.ofWords [5]) fun _ _ _ => Random.Source.decisive_ofWords _ _ with
    ⟨choice, rest, hchoice, hselects⟩
  exact ⟨htiers, hlayered, hbest, ⟨choice, rest, hchoice, hselects.draws.2 hcontested⟩,
    hnever _ hunsettled, hword (by decide) _ 4 hbest (by decide) rfl rfl⟩

end Arbiter
end TimedAutomata
