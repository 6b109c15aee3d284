import Mathlib.Tactic.Ring
import Mathlib.Tactic.Set
import TimedAutomata.Arbiter.Basic
import TimedAutomata.Sequence

/-!
# Decisions of arbiters

An arbiter decides by the enabled transitions and, among equals, by chance. Over all sources of
random words, the decisions of an arbiter are those that its tiers allow.

* `Random.accept?_lt`, `Random.exists_accept?`: words decide on every number below the bound and
  on no other
* `Random.below?_induction`: a search for a word that decides goes from word to word
* `Random.Source.Decisive`: a word that decides is still to come
* `Random.isSome_below?_iff`: it is then that the search ends
* `Arbiter.choices`: what the tiers allow
* `Arbiter.mem_choices_iff`: that is what can be selected
* `Arbiter.select_cases`: an arbiter stays idle only if nothing is enabled
-/

namespace TimedAutomata

/-! ## Numbers below a bound -/

namespace Random

theorem accept?_lt {n k : Nat} {v : UInt64} (hn : 0 < n) (h : accept? n v = some k) : k < n := by
  simp only [accept?, Option.ite_none_right_eq_some, Option.some.injEq] at h
  rcases h with ⟨-, rfl⟩
  refine Nat.div_lt_of_lt_mul ?_
  exact Nat.mul_lt_mul_of_pos_right v.toNat_lt_size hn

theorem le_zone {n : Nat} : n - 1 ≤ zone n := by
  have hshift : n ≤ n <<< leadingZeros n := by
    rw [Nat.shiftLeft_eq]
    exact Nat.le_mul_of_pos_right n (Nat.two_pow_pos _)
  exact Nat.sub_le_sub_right hshift 1

/-- The least word whose product with the bound reaches `k` full turns decides on `k`. -/
theorem exists_accept? {n k : Nat} (hn : n ≤ UInt64.size) (hk : k < n) :
    ∃ v, accept? n v = some k := by
  set m := k * UInt64.size + (n - 1) with hm
  -- `r` is by how much the product goes over
  obtain ⟨r, hr, hproduct⟩ : ∃ r < n, m / n * n = k * UInt64.size + r := by
    refine ⟨n - 1 - m % n, by omega, ?_⟩
    have hdiv := Nat.div_add_mod m n
    have hmod := Nat.mod_lt m (Nat.zero_lt_of_lt hk)
    rw [Nat.mul_comm] at hdiv
    omega
  have hword : m / n < UInt64.size := by
    refine Nat.lt_of_mul_lt_mul_right (a := n) ?_
    calc m / n * n = k * UInt64.size + r := hproduct
      _ < k * UInt64.size + UInt64.size := by omega
      _ = (k + 1) * UInt64.size := by ring
      _ ≤ n * UInt64.size := Nat.mul_le_mul_right _ hk
      _ = UInt64.size * n := Nat.mul_comm ..
  refine ⟨UInt64.ofNat (m / n), ?_⟩
  have htoNat : (UInt64.ofNat (m / n)).toNat = m / n := UInt64.toNat_ofNat_of_lt' hword
  have hlow : (k * UInt64.size + r) % UInt64.size = r := by
    rw [Nat.add_comm, Nat.add_mul_mod_self_right]
    exact Nat.mod_eq_of_lt (by omega)
  have hhigh : (k * UInt64.size + r) / UInt64.size = k := by
    rw [Nat.mul_comm, Nat.mul_add_div (by decide), Nat.div_eq_of_lt (by omega), Nat.add_zero]
  have hzone : r ≤ zone n := Nat.le_trans (by omega) le_zone
  simp only [accept?, htoNat, hproduct, hlow, hhigh, hzone, if_true]

/-- A word that decides is the only one drawn. -/
theorem below?_of_accept? {n k : Nat} {s : Source} (h : accept? n s.next.1 = some k) :
    s.below? n = some (k, s.next.2) := by
  rw [Source.below?]
  simp [h]

/-- A word that does not decide is passed over. -/
theorem below?_of_pass {n : Nat} {s : Source} (h : accept? n s.next.1 = none) :
    s.below? n = s.next.2.below? n := by
  rw [Source.below?]
  simp [h]

/-- What holds of every word that decides, and is not lost by passing over words, holds of what is
drawn. -/
theorem below?_induction {n : Nat} {motive : Source → Nat × Source → Prop}
    (decides : ∀ s k, accept? n s.next.1 = some k → motive s (k, s.next.2))
    (passes : ∀ s r, accept? n s.next.1 = none → motive s.next.2 r → motive s r)
    {s : Source} {r : Nat × Source} (h : s.below? n = some r) : motive s r := by
  refine Source.below?.partial_correctness n motive (fun below? ih s r hr => ?_) s r h
  cases hword : accept? n s.next.1 with
  | some k =>
    obtain rfl : (k, s.next.2) = r := by simpa [hword] using hr
    exact decides s k hword
  | none => exact passes s r hword (ih _ r (by simpa [hword] using hr))

theorem below?_lt {s rest : Source} {n k : Nat} (hn : 0 < n) (h : s.below? n = some (k, rest)) :
    k < n := by
  refine below?_induction (motive := fun _ r => r.1 < n) ?_ ?_ h
  · exact fun s k hk => accept?_lt hn hk
  · exact fun s r _ hr => hr

/-- A word that decides is still to come. -/
def Source.Decisive (s : Source) (n : Nat) : Prop :=
  ∃ m, s.drawn ≤ m ∧ accept? n (s.word m) ≠ none

/-- Zeros come behind words that are written out, and a zero decides. -/
theorem Source.decisive_ofWords (words : List UInt64) (n : Nat) : (ofWords words).Decisive n := by
  refine ⟨words.length, Nat.zero_le _, ?_⟩
  simp [ofWords, start, accept?]

/-- The search ends exactly if it can. -/
theorem isSome_below?_iff {s : Source} {n : Nat} :
    (s.below? n).isSome = true ↔ s.Decisive n := by
  constructor
  · intro hsome
    rcases Option.isSome_iff_exists.1 hsome with ⟨r, hr⟩
    refine below?_induction (motive := fun s _ => s.Decisive n) ?_ ?_ hr
    · intro s k hk
      refine ⟨s.drawn, Nat.le_refl _, ?_⟩
      rw [Option.ne_none_iff_exists']
      exact ⟨k, hk⟩
    · rintro s r - ⟨m, hm, hword⟩
      exact ⟨m, Nat.le_of_succ_le hm, hword⟩
  · rintro ⟨m, hm, hword⟩
    -- the induction is on how far ahead the word is
    obtain ⟨ahead, rfl⟩ := Nat.exists_eq_add_of_le hm
    induction ahead generalizing s with
    | zero =>
      rcases Option.ne_none_iff_exists'.1 hword with ⟨k, hk⟩
      rw [below?_of_accept? hk, Option.isSome_some]
    | succ ahead ih =>
      cases hnext : accept? n s.next.1 with
      | some k => rw [below?_of_accept? hnext, Option.isSome_some]
      | none =>
        rw [below?_of_pass hnext]
        refine ih (s := s.next.2) (Nat.le_add_right ..) ?_
        rwa [← Nat.add_assoc, Nat.add_right_comm] at hword

theorem exists_below? {n k : Nat} (hn : n ≤ UInt64.size) (hk : k < n) :
    ∃ s rest : Source, s.below? n = some (k, rest) := by
  rcases exists_accept? hn hk with ⟨v, hv⟩
  refine ⟨.ofWords [v], (Source.ofWords [v]).next.2, ?_⟩
  have hnext : (Source.ofWords [v]).next.1 = v := rfl
  exact below?_of_accept? (hnext.symm ▸ hv)

end Random

/-! ## Decisions -/

namespace Arbiter

/-- The decisions that the first tier with an enabled member allows. -/
def choices (enabled : List Bool) : List Tier → List (Option Nat)
  | [] => [none]
  | t :: ts =>
    match candidates enabled t, t.tieBreak with
    | [], _ => choices enabled ts
    | i :: _, .first => [some i]
    | is, .random => is.map some

/-- Nothing is selected that the tiers do not allow. -/
theorem mem_choices_of_selectFrom {enabled : List Bool} {s rest : Random.Source} {ts : List Tier}
    {o : Option Nat} (h : selectFrom enabled s ts = some (o, rest)) : o ∈ choices enabled ts := by
  induction ts with
  | nil =>
    obtain ⟨rfl, rfl⟩ : none = o ∧ s = rest := by simpa [selectFrom] using h
    simp [choices]
  | cons t ts ih =>
    unfold selectFrom at h
    unfold choices
    cases hcand : candidates enabled t with
    | nil => exact ih (by simpa [hcand] using h)
    | cons i is =>
      cases hbreak : t.tieBreak with
      | first =>
        obtain rfl : some i = o := by
          cases is <;> simp only [hcand, hbreak, Option.some.injEq, Prod.mk.injEq] at h <;>
            exact h.1
        simp
      | random =>
        cases is with
        | nil =>
          obtain rfl : some i = o := by
            simp only [hcand, Option.some.injEq, Prod.mk.injEq] at h
            exact h.1
          simp
        | cons j is =>
          simp only [hcand, hbreak, Option.bind_eq_bind, Option.bind_eq_some_iff] at h
          rcases h with ⟨⟨k, after⟩, hbelow, hpick⟩
          obtain ⟨rfl, rfl⟩ : (i :: j :: is)[k]? = o ∧ after = rest := by simpa using hpick
          have hlt := Random.below?_lt (by simp) hbelow
          simp only [List.mem_map]
          exact ⟨_, List.getElem_mem hlt, (List.getElem?_eq_getElem hlt).symm⟩

/-- Everything that the tiers allow can be selected. -/
theorem exists_selectFrom {enabled : List Bool} {ts : List Tier} {o : Option Nat}
    (hsize : ∀ t ∈ ts, t.ordinals.length ≤ UInt64.size) (ho : o ∈ choices enabled ts) :
    ∃ s rest, selectFrom enabled s ts = some (o, rest) := by
  induction ts with
  | nil =>
    obtain rfl : o = none := by simpa [choices] using ho
    exact ⟨.ofWords [], _, rfl⟩
  | cons t ts ih =>
    simp only [List.forall_mem_cons] at hsize
    unfold choices at ho
    unfold selectFrom
    cases hcand : candidates enabled t with
    | nil =>
      simp only [hcand] at ho ⊢
      exact ih hsize.2 ho
    | cons i is =>
      cases hbreak : t.tieBreak with
      | first =>
        obtain rfl : o = some i := by simpa [hcand, hbreak] using ho
        exact ⟨.ofWords [], .ofWords [], by cases is <;> simp only⟩
      | random =>
        simp only [hcand, hbreak] at ho
        cases is with
        | nil =>
          obtain rfl : o = some i := by simpa using ho
          exact ⟨.ofWords [], .ofWords [], by simp only⟩
        | cons j is =>
          -- some word decides on the position of the chosen candidate
          rcases List.mem_map.1 ho with ⟨k, hk, rfl⟩
          rcases List.mem_iff_getElem?.1 hk with ⟨position, hposition⟩
          have hlt := (List.getElem?_eq_some_iff.1 hposition).1
          have hlength : (i :: j :: is).length ≤ UInt64.size := by
            rw [← hcand]
            exact Nat.le_trans (List.length_filter_le ..) hsize.1
          rcases Random.exists_below? hlength hlt with ⟨s, rest, hs⟩
          refine ⟨s, rest, ?_⟩
          simp only [hs, Option.bind_eq_bind, Option.bind_some, hposition]
          rfl

/-- Over all sources, exactly what the tiers allow can be selected. -/
theorem mem_choices_iff {enabled : List Bool} {ts : List Tier} {o : Option Nat}
    (hsize : ∀ t ∈ ts, t.ordinals.length ≤ UInt64.size) :
    o ∈ choices enabled ts ↔ ∃ s rest, selectFrom enabled s ts = some (o, rest) := by
  constructor
  · exact exists_selectFrom hsize
  · rintro ⟨s, rest, h⟩
    exact mem_choices_of_selectFrom h

/-- There is a decision wherever the draw among any of the candidates ends. -/
theorem isSome_selectFrom {s : Random.Source} {bound : Nat} (h : ∀ n ≤ bound, s.Decisive n)
    (enabled : List Bool) {ts : List Tier} (hts : ∀ t ∈ ts, t.ordinals.length ≤ bound) :
    (selectFrom enabled s ts).isSome = true := by
  induction ts with
  | nil => rfl
  | cons t ts ih =>
    rw [List.forall_mem_cons] at hts
    unfold selectFrom
    cases hcand : candidates enabled t with
    | nil => exact ih hts.2
    | cons i is =>
      cases is with
      | nil => rfl
      | cons j is =>
        cases t.tieBreak with
        | first => rfl
        | random =>
          have hfew : (i :: j :: is).length ≤ bound := by
            rw [← hcand]
            exact Nat.le_trans (List.length_filter_le ..) hts.1
          rcases Option.isSome_iff_exists.1 (Random.isSome_below?_iff.2 (h _ hfew)) with ⟨r, hr⟩
          simp only [hr, Option.bind_eq_bind, Option.bind_some]
          rfl

/-! ## Tiers -/

theorem lt_of_mem_ordinalsOf {classes : List PriorityClass} {c : PriorityClass} {i : Nat}
    (h : i ∈ ordinalsOf classes c) : i < classes.length := by
  simp only [ordinalsOf, List.mem_map, List.mem_filter, Prod.exists] at h
  rcases h with ⟨d, j, ⟨hmem, -⟩, rfl⟩
  exact (List.getElem?_eq_some_iff.1 (List.mk_mem_zipIdx_iff_getElem?.1 hmem)).1

theorem length_ordinalsOf_le (classes : List PriorityClass) (c : PriorityClass) :
    (ordinalsOf classes c).length ≤ classes.length := by
  rw [ordinalsOf, List.length_map]
  exact Nat.le_trans (List.length_filter_le ..) (by simp)

theorem exists_class_of_mem_tiers {a : Arbiter} {t : Tier} (h : t ∈ a.tiers) :
    ∃ c, t = ⟨tieBreakOf c, ordinalsOf a.classes c⟩ := by
  rcases List.mem_map.1 (List.mem_filter.1 h).1 with ⟨c, -, rfl⟩
  exact ⟨c, rfl⟩

theorem lt_of_mem_ordinals {a : Arbiter} {t : Tier} (h : t ∈ a.tiers) {i : Nat}
    (hi : i ∈ t.ordinals) : i < a.classes.length := by
  rcases exists_class_of_mem_tiers h with ⟨c, rfl⟩
  exact lt_of_mem_ordinalsOf hi

theorem length_ordinals_le {a : Arbiter} {t : Tier} (h : t ∈ a.tiers) :
    t.ordinals.length ≤ a.classes.length := by
  rcases exists_class_of_mem_tiers h with ⟨c, rfl⟩
  exact length_ordinalsOf_le a.classes c

theorem isSome_select (a : Arbiter) {s : Random.Source}
    (h : ∀ n ≤ a.classes.length, s.Decisive n) (enabled : List Bool) :
    (a.select enabled s).isSome = true :=
  isSome_selectFrom h enabled fun _ ht => length_ordinals_le ht

/-- A selected transition is enabled. -/
theorem enabled_of_mem_choices {enabled : List Bool} {ts : List Tier} {i : Nat}
    (h : some i ∈ choices enabled ts) : enabled.getD i false = true := by
  induction ts with
  | nil => simp [choices] at h
  | cons t ts ih =>
    have hall : ∀ j ∈ candidates enabled t, enabled.getD j false = true := by
      intro j hj
      exact (List.mem_filter.1 hj).2
    unfold choices at h
    cases hcand : candidates enabled t with
    | nil => exact ih (by simpa [hcand] using h)
    | cons j js =>
      rw [hcand] at hall
      cases hbreak : t.tieBreak with
      | first =>
        obtain rfl : i = j := by simpa [hcand, hbreak] using h
        exact hall i (by simp)
      | random =>
        have hmem : i ∈ j :: js := by simpa [hcand, hbreak, eq_comm] using h
        exact hall i hmem

/-! ## Nothing to decide -/

theorem mem_ordinalsOf {classes : List PriorityClass} {c : PriorityClass} {i : Nat} :
    i ∈ ordinalsOf classes c ↔ classes[i]? = some c := by
  simp only [ordinalsOf, List.mem_map, List.mem_filter, decide_eq_true_eq, Prod.exists]
  constructor
  · rintro ⟨d, j, ⟨hmem, rfl⟩, rfl⟩
    exact List.mk_mem_zipIdx_iff_getElem?.1 hmem
  · intro h
    exact ⟨c, i, ⟨List.mk_mem_zipIdx_iff_getElem?.2 h, rfl⟩, rfl⟩

theorem mem_priorities {classes : List PriorityClass} {c : PriorityClass} (h : c ∈ classes) :
    c ∈ priorities classes := by
  cases c with
  | exclusive => simp [priorities]
  | default => simp [priorities]
  | ranked r =>
    have hrank : r ∈ classes.filterMap PriorityClass.rank? := List.mem_filterMap.2 ⟨_, h, rfl⟩
    simpa [priorities, ranks, Sequence.mem_eraseReps] using hrank

/-- Every transition is a member of a tier. -/
theorem exists_tier {a : Arbiter} {i : Nat} (hi : i < a.classes.length) :
    ∃ t ∈ a.tiers, i ∈ t.ordinals := by
  have hclass := List.getElem?_eq_getElem hi
  have hmem := mem_ordinalsOf.2 hclass
  refine ⟨⟨tieBreakOf a.classes[i], ordinalsOf a.classes a.classes[i]⟩, ?_, hmem⟩
  refine List.mem_filter.2 ⟨List.mem_map_of_mem (mem_priorities (List.getElem_mem hi)), ?_⟩
  simpa using List.ne_nil_of_mem hmem

/-- Where no tier has an enabled member, nothing is selected and nothing is drawn. -/
theorem selectFrom_of_disabled {enabled : List Bool} {ts : List Tier}
    (h : ∀ t ∈ ts, candidates enabled t = []) (s : Random.Source) :
    selectFrom enabled s ts = some (none, s) := by
  induction ts with
  | nil => rfl
  | cons t ts ih =>
    simp only [List.forall_mem_cons] at h
    rw [selectFrom, h.1]
    exact ih h.2

theorem candidates_eq_nil_of_none_mem_choices {enabled : List Bool} {ts : List Tier}
    (h : none ∈ choices enabled ts) : ∀ t ∈ ts, candidates enabled t = [] := by
  induction ts with
  | nil => simp
  | cons t ts ih =>
    unfold choices at h
    cases hcand : candidates enabled t with
    | nil => simpa [hcand] using ih (by simpa [hcand] using h)
    | cons i is => cases hbreak : t.tieBreak <;> simp [hcand, hbreak] at h

/-- Nothing is selected only if nothing is enabled, and then nothing is drawn. -/
theorem select_cases (a : Arbiter) {enabled : List Bool}
    (hlength : enabled.length = a.classes.length) {s rest : Random.Source} {choice : Option Nat}
    (h : a.select enabled s = some (choice, rest)) :
    ((∀ i, enabled.getD i false = false) ∧ choice = none ∧ rest = s) ∨
      ∃ i, choice = some i ∧ enabled.getD i false = true := by
  have hmem := mem_choices_of_selectFrom h
  cases choice with
  | some i => exact .inr ⟨i, rfl, enabled_of_mem_choices hmem⟩
  | none =>
    have hnone := candidates_eq_nil_of_none_mem_choices hmem
    refine .inl ⟨fun i => ?_, rfl, ?_⟩
    · rcases Nat.lt_or_ge i enabled.length with hi | hi
      · rcases exists_tier (hlength ▸ hi) with ⟨t, ht, hit⟩
        have hall := List.filter_eq_nil_iff.1 (hnone t ht) i hit
        simpa using hall
      · simp [hi]
    · rw [select, selectFrom_of_disabled hnone] at h
      simpa [eq_comm] using h

end Arbiter
end TimedAutomata
