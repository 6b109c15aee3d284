import Mathlib.Algebra.BigOperators.Option
import Mathlib.Algebra.Order.Floor.Div
import Mathlib.Data.Set.Card
import Mathlib.Order.Interval.Finset.Nat
import TimedAutomata.Proofs.Arbiter.Priority

/-!
# Fair ties

Where chance breaks a tie, no candidate is preferred. Of all words that can come first, each
candidate has the same number that decide on it; the words that are left over decide on nothing, and
the next word is drawn in their place.

* `Random.stretch`: the words that decide on a number follow one another
* `Random.ncard_deciding`, `Random.ncard_passing`: how many words decide on a number, and how many
  on none
* `Arbiter.Decides`, `Arbiter.Redraws`: what a first word can do to a selection
* `Arbiter.ties_broken_evenly`: every candidate of a tie has the same number of words
-/

namespace TimedAutomata

/-! ## Words that decide -/

namespace Random

variable {n : Nat}

/-- The shift moves the highest bit of the bound to the highest bit of a word. -/
theorem shift_bounds (hn : 0 < n) (hsize : n < UInt64.size) :
    2 ^ 63 ≤ n * 2 ^ leadingZeros n ∧ n * 2 ^ leadingZeros n < UInt64.size := by
  have hne : n ≠ 0 := Nat.ne_of_gt hn
  have hlog : n.log2 < 64 := (Nat.log2_lt hne).2 hsize
  have hzeros : leadingZeros n = 63 - n.log2 := if_neg hne
  have hlow : 2 ^ n.log2 ≤ n := Nat.log2_self_le hne
  have hhigh : n < 2 ^ (n.log2 + 1) := Nat.lt_log2_self
  rw [hzeros]
  constructor
  · calc 2 ^ 63 = 2 ^ (n.log2 + (63 - n.log2)) := by rw [Nat.add_sub_cancel' (by omega)]
      _ = 2 ^ n.log2 * 2 ^ (63 - n.log2) := Nat.pow_add ..
      _ ≤ n * 2 ^ (63 - n.log2) := Nat.mul_le_mul_right _ hlow
  · calc n * 2 ^ (63 - n.log2) < 2 ^ (n.log2 + 1) * 2 ^ (63 - n.log2) :=
          Nat.mul_lt_mul_of_pos_right hhigh (Nat.two_pow_pos _)
      _ = 2 ^ (n.log2 + 1 + (63 - n.log2)) := (Nat.pow_add ..).symm
      _ = UInt64.size := by rw [(by omega : n.log2 + 1 + (63 - n.log2) = 64)]; rfl

/-- A word decides on `k` if its product with the bound goes over `k` full turns by less than the
shifted bound. -/
theorem accept?_eq_some_iff (hn : 0 < n) (hsize : n < UInt64.size) {k : Nat} {v : UInt64} :
    accept? n v = some k ↔
      k * UInt64.size ≤ v.toNat * n ∧ v.toNat * n < k * UInt64.size + n * 2 ^ leadingZeros n := by
  rcases shift_bounds hn hsize with ⟨hlow, hhigh⟩
  have hdivmod := Nat.div_add_mod (v.toNat * n) UInt64.size
  have hmod : v.toNat * n % UInt64.size < UInt64.size := Nat.mod_lt _ (by decide)
  have hzone : zone n + 1 = n * 2 ^ leadingZeros n := by
    rw [zone, Nat.shiftLeft_eq]
    omega
  simp only [accept?, Option.ite_none_right_eq_some, Option.some.injEq]
  constructor
  · rintro ⟨hle, rfl⟩
    rw [Nat.mul_comm] at hdivmod
    omega
  · rintro ⟨hge, hlt⟩
    -- the shifted bound is less than a turn, so `k` is the number of full turns
    have hquotient : v.toNat * n / UInt64.size = k := by
      refine Nat.div_eq_of_lt_le hge ?_
      rw [Nat.succ_mul]
      omega
    rw [hquotient, Nat.mul_comm] at hdivmod
    exact ⟨by omega, hquotient⟩

/-- The stretch of numbers whose words decide on `k`. -/
def stretch (n k : Nat) : Finset Nat :=
  Finset.Ico ((k * UInt64.size) ⌈/⌉ n) ((k * UInt64.size) ⌈/⌉ n + 2 ^ leadingZeros n)

theorem mem_stretch_iff (hn : 0 < n) {k m : Nat} :
    m ∈ stretch n k ↔
      k * UInt64.size ≤ m * n ∧ m * n < k * UInt64.size + n * 2 ^ leadingZeros n := by
  have hceil : ∀ w, (k * UInt64.size) ⌈/⌉ n ≤ w ↔ k * UInt64.size ≤ w * n := by
    intro w
    rw [ceilDiv_le_iff_le_mul hn, Nat.mul_comm n]
  rw [stretch, Finset.mem_Ico, hceil]
  refine and_congr_right fun _ => ?_
  rcases Nat.lt_or_ge m (2 ^ leadingZeros n) with hlt | hge
  · have hproduct := Nat.mul_lt_mul_of_pos_right hlt hn
    rw [Nat.mul_comm (2 ^ _)] at hproduct
    omega
  · -- without the shifted bound, both sides say that the product stays below `k` turns
    rcases Nat.exists_eq_add_of_le hge with ⟨w, rfl⟩
    have hproduct : (2 ^ leadingZeros n + w) * n = n * 2 ^ leadingZeros n + w * n := by
      rw [Nat.add_mul, Nat.mul_comm n]
    have hbelow := not_congr (hceil w)
    rw [hproduct]
    omega

/-- The stretches of the numbers below the bound hold words only. -/
theorem lt_size_of_mem_stretch (hn : 0 < n) (hsize : n < UInt64.size) {k m : Nat} (hk : k < n)
    (hm : m ∈ stretch n k) : m < UInt64.size := by
  refine Nat.lt_of_mul_lt_mul_right (a := n) ?_
  calc m * n < k * UInt64.size + n * 2 ^ leadingZeros n := ((mem_stretch_iff hn).1 hm).2
    _ ≤ k * UInt64.size + UInt64.size :=
        Nat.add_le_add_left (Nat.le_of_lt (shift_bounds hn hsize).2) _
    _ = (k + 1) * UInt64.size := (Nat.succ_mul ..).symm
    _ ≤ n * UInt64.size := Nat.mul_le_mul_right _ hk
    _ = UInt64.size * n := Nat.mul_comm ..

/-! ## Counting words -/

/-- Words are counted like the numbers that they stand for. -/
theorem ncard_words (P : UInt64 → Prop) [DecidablePred P] :
    {v | P v}.ncard = ((Finset.range UInt64.size).filter fun m => P (.ofNat m)).card := by
  have hinjective : Function.Injective UInt64.toNat := fun _ _ => UInt64.toNat_inj.1
  rw [← Set.ncard_image_of_injective _ hinjective, ← Set.ncard_coe_finset]
  congr 1
  ext m
  simp only [Set.mem_image, Set.mem_ofPred_eq, Finset.coe_filter, Finset.mem_range]
  constructor
  · rintro ⟨v, hv, rfl⟩
    exact ⟨v.toNat_lt_size, by simpa using hv⟩
  · rintro ⟨hm, hP⟩
    exact ⟨.ofNat m, hP, UInt64.toNat_ofNat_of_lt' hm⟩

/-- Every number below the bound has the same number of words. -/
theorem ncard_deciding (hn : 0 < n) (hsize : n < UInt64.size) {k : Nat} (hk : k < n) :
    {v | accept? n v = some k}.ncard = 2 ^ leadingZeros n := by
  have hstretch : ((Finset.range UInt64.size).filter fun m => accept? n (.ofNat m) = some k) =
      stretch n k := by
    ext m
    rw [Finset.mem_filter, Finset.mem_range]
    constructor
    · rintro ⟨hm, haccept⟩
      rwa [accept?_eq_some_iff hn hsize, UInt64.toNat_ofNat_of_lt' hm, ← mem_stretch_iff hn]
        at haccept
    · intro hmem
      have hm := lt_size_of_mem_stretch hn hsize hk hmem
      rw [accept?_eq_some_iff hn hsize, UInt64.toNat_ofNat_of_lt' hm, ← mem_stretch_iff hn]
      exact ⟨hm, hmem⟩
  rw [ncard_words, hstretch, stretch, Nat.card_Ico, Nat.add_sub_cancel_left]

/-- The words that are left over decide on nothing. -/
theorem ncard_passing (hn : 0 < n) (hsize : n < UInt64.size) :
    {v | accept? n v = none}.ncard = UInt64.size - n * 2 ^ leadingZeros n := by
  have hfibers : Set.MapsTo (fun m => accept? n (.ofNat m)) (Finset.range UInt64.size)
      (Finset.insertNone (Finset.range n)) := by
    intro m _
    simpa using fun k => accept?_lt (v := .ofNat m) hn
  have htotal := Finset.card_eq_sum_card_fiberwise hfibers
  have hdeciding : ∀ k ∈ Finset.range n,
      ((Finset.range UInt64.size).filter fun m => accept? n (.ofNat m) = some k).card =
        2 ^ leadingZeros n := by
    intro k hk
    rw [← ncard_words (fun v => accept? n v = some k)]
    exact ncard_deciding hn hsize (Finset.mem_range.1 hk)
  rw [Finset.card_range, Finset.sum_insertNone, Finset.sum_congr rfl hdeciding, Finset.sum_const,
    Finset.card_range, smul_eq_mul] at htotal
  rw [ncard_words]
  exact Nat.eq_sub_of_add_eq htotal.symm

end Random

/-! ## Ties -/

namespace Arbiter

variable {classes : List PriorityClass} {enabled : List Bool} {t : Tier} {i : Nat} {v : UInt64}

/-- The tier `t` is the first with an enabled member, has several, and leaves the choice among them
to chance. -/
structure Tied (classes : List PriorityClass) (enabled : List Bool) (t : Tier) : Prop where
  first : ∃ before after, tiers ⟨classes⟩ = before ++ t :: after ∧
    ∀ u ∈ before, candidates enabled u = []
  random : t.tieBreak = .random
  several : 2 ≤ (candidates enabled t).length

/-- With `v` as the next word, `i` is selected, and no further word is drawn. -/
def Decides (a : Arbiter) (enabled : List Bool) (v : UInt64) (i : Nat) : Prop :=
  ∀ s : Random.Source, s.next.1 = v → a.select enabled s = some (some i, s.next.2)

/-- With `v` as the next word, the selection is made by the words behind it, if they make one. -/
def Redraws (a : Arbiter) (enabled : List Bool) (v : UInt64) : Prop :=
  ∀ s : Random.Source, s.next.1 = v → a.select enabled s = a.select enabled s.next.2

theorem Tied.nodup (h : Tied classes enabled t) : (candidates enabled t).Nodup := by
  rcases h.first with ⟨before, after, hsplit, -⟩
  rcases exists_class_of_mem_tiers (a := ⟨classes⟩) (t := t) (by simp [hsplit]) with ⟨c, rfl⟩
  exact (ascending_candidates enabled classes c).imp Nat.ne_of_lt

/-- A tie is broken by the position that chance gives. -/
theorem Tied.select_eq (h : Tied classes enabled t) (s : Random.Source) :
    select ⟨classes⟩ enabled s =
      (s.below? (candidates enabled t).length).map fun r =>
        ((candidates enabled t)[r.1]?, r.2) := by
  rcases h.first with ⟨before, after, hsplit, hbefore⟩
  have hseveral := h.several
  match hcand : candidates enabled t with
  | [] => simp [hcand] at hseveral
  | [i] => simp [hcand] at hseveral
  | i :: j :: is =>
    rw [select, hsplit, selectFrom_append hbefore, selectFrom_cons (by simp [hcand]),
      selectFrom_random hcand h.random]

/-- A selection draws a word. -/
theorem Tied.drawn_lt (h : Tied classes enabled t) {s rest : Random.Source} {choice : Option Nat}
    (hselect : select ⟨classes⟩ enabled s = some (choice, rest)) : s.drawn < rest.drawn := by
  rw [h.select_eq, Option.map_eq_some_iff] at hselect
  rcases hselect with ⟨⟨k, after⟩, hbelow, hpick⟩
  obtain ⟨-, rfl⟩ := Prod.mk.inj hpick
  exact Random.drawn_lt_of_below? hbelow

/-- A word that decides on a position selects the candidate there, and is the only one drawn. -/
theorem Tied.select_of_accept? (h : Tied classes enabled t) {s : Random.Source} {k : Nat}
    (hword : Random.accept? (candidates enabled t).length s.next.1 = some k) :
    select ⟨classes⟩ enabled s = some ((candidates enabled t)[k]?, s.next.2) := by
  rw [h.select_eq, Random.below?_of_accept? hword, Option.map_some]

theorem Tied.select_of_pass (h : Tied classes enabled t) {s : Random.Source}
    (hword : Random.accept? (candidates enabled t).length s.next.1 = none) :
    select ⟨classes⟩ enabled s = select ⟨classes⟩ enabled s.next.2 := by
  rw [h.select_eq, h.select_eq, Random.below?_of_pass hword]

/-- The words that select a candidate at once are those that decide on its position. -/
theorem Tied.decides_iff (h : Tied classes enabled t) {k : Nat}
    (hk : (candidates enabled t)[k]? = some i) :
    Decides ⟨classes⟩ enabled v i ↔
      Random.accept? (candidates enabled t).length v = some k := by
  constructor
  · intro hdecides
    have hselect := hdecides (.ofWords [v]) rfl
    cases hv : Random.accept? (candidates enabled t).length v with
    | none =>
      -- a second word would be drawn
      rw [h.select_of_pass (s := .ofWords [v]) hv] at hselect
      exact absurd (h.drawn_lt hselect) (Nat.lt_irrefl _)
    | some j =>
      rw [h.select_of_accept? (s := .ofWords [v]) hv, Option.some.injEq, Prod.mk.injEq] at hselect
      have hlt := (List.getElem?_eq_some_iff.1 hselect.1).1
      have hposition : j = k := (List.getElem?_inj hlt h.nodup).1 (hselect.1.trans hk.symm)
      rw [hposition]
  · rintro haccept s rfl
    rw [h.select_of_accept? haccept, hk]

/-- The words that lead to a redraw are those that decide on nothing. -/
theorem Tied.redraws_iff (h : Tied classes enabled t) :
    Redraws ⟨classes⟩ enabled v ↔ Random.accept? (candidates enabled t).length v = none := by
  constructor
  · intro hredraws
    cases hv : Random.accept? (candidates enabled t).length v with
    | none => rfl
    | some k =>
      -- a word that decides is the only one drawn, and a redraw draws one more
      have hselect := hredraws (.ofWords [v]) rfl
      rw [h.select_of_accept? (s := .ofWords [v]) hv] at hselect
      exact absurd (h.drawn_lt hselect.symm) (Nat.lt_irrefl _)
  · rintro hpass s rfl
    exact h.select_of_pass hpass

/-- Ties are broken evenly. If the first tier with an enabled member has `n` of them and leaves the
choice to chance, each is selected by the same number of words that can come first. Exactly the
other words lead to a redraw; they are at most half of all, and the shift by which they are told
apart stays within a word. If no word to come decides, nothing is ever selected; otherwise the words
lead to a position below `n`, and the enabled member there is selected. -/
theorem ties_broken_evenly (h : Tied classes enabled t)
    (hsize : (candidates enabled t).length < UInt64.size) :
    let n := (candidates enabled t).length
    (∀ i ∈ candidates enabled t,
      {v | Decides ⟨classes⟩ enabled v i}.ncard = 2 ^ Random.leadingZeros n) ∧
    (∀ v, Redraws ⟨classes⟩ enabled v ↔
      ∀ i ∈ candidates enabled t, ¬ Decides ⟨classes⟩ enabled v i) ∧
    {v | Redraws ⟨classes⟩ enabled v}.ncard = UInt64.size - n * 2 ^ Random.leadingZeros n ∧
    2 ^ 63 ≤ n <<< Random.leadingZeros n ∧ n <<< Random.leadingZeros n < UInt64.size ∧
    (∀ s : Random.Source, ¬ s.Decisive n → select ⟨classes⟩ enabled s = none) ∧
    ∀ s : Random.Source, s.Decisive n → ∃ k rest, s.below? n = some (k, rest) ∧ k < n ∧
      ∃ i ∈ candidates enabled t, (candidates enabled t)[k]? = some i ∧
        select ⟨classes⟩ enabled s = some (some i, rest) := by
  intro n
  have hn : 0 < n := Nat.lt_of_lt_of_le (by decide) h.several
  have hshift := Random.shift_bounds hn hsize
  rw [← Nat.shiftLeft_eq] at hshift
  have hredraws : ∀ v, Redraws ⟨classes⟩ enabled v ↔ Random.accept? n v = none :=
    fun _ => h.redraws_iff
  refine ⟨?_, ?_, ?_, hshift.1, hshift.2, ?_, ?_⟩
  · intro i hi
    rcases List.mem_iff_getElem?.1 hi with ⟨k, hk⟩
    simp only [h.decides_iff hk]
    exact Random.ncard_deciding hn hsize (List.getElem?_eq_some_iff.1 hk).1
  · intro v
    rw [hredraws]
    constructor
    · intro hpass i hi hdecides
      rcases List.mem_iff_getElem?.1 hi with ⟨k, hk⟩
      rw [h.decides_iff hk, hpass] at hdecides
      exact Option.some_ne_none k hdecides.symm
    · intro hnone
      cases hv : Random.accept? n v with
      | none => rfl
      | some k =>
        have hk := List.getElem?_eq_getElem (Random.accept?_lt hn hv)
        exact absurd ((h.decides_iff hk).2 hv) (hnone _ (List.mem_of_getElem? hk))
  · simp only [hredraws]
    exact Random.ncard_passing hn hsize
  · intro s hnever
    rw [← Random.isSome_below?_iff, Option.not_isSome_iff_eq_none] at hnever
    rw [h.select_eq, hnever, Option.map_none]
  · intro s hdecisive
    rcases Option.isSome_iff_exists.1 (Random.isSome_below?_iff.2 hdecisive) with
      ⟨⟨k, rest⟩, hbelow⟩
    have hlt := Random.below?_lt hn hbelow
    have hget := List.getElem?_eq_getElem hlt
    refine ⟨k, rest, hbelow, hlt, _, List.mem_of_getElem? hget, hget, ?_⟩
    rw [h.select_eq, hbelow, Option.map_some, hget]

/-- Three candidates share three quarters of all words, and the last quarter leads to a redraw. -/
theorem ties_broken_evenly_among_three :
    let classes : List PriorityClass := [.ranked 7, .default, .exclusive, .ranked 7, .ranked 7]
    let enabled := [true, true, false, true, true]
    Tied classes enabled ⟨.random, [0, 3, 4]⟩ ∧
      (∀ i ∈ [0, 3, 4], {v | Decides ⟨classes⟩ enabled v i}.ncard = 2 ^ 62) ∧
      {v | Redraws ⟨classes⟩ enabled v}.ncard = 2 ^ 62 ∧
      ∀ words : List UInt64, ∃ i ∈ [0, 3, 4], ∃ rest,
        select ⟨classes⟩ enabled (.ofWords words) = some (some i, rest) := by
  intro classes enabled
  have htiers : tiers ⟨classes⟩ = [⟨.first, [2]⟩, ⟨.random, [0, 3, 4]⟩, ⟨.random, [1]⟩] := by cbv
  have hcand : candidates enabled ⟨.random, [0, 3, 4]⟩ = [0, 3, 4] := by decide
  have hzeros : Random.leadingZeros 3 = 62 := by decide
  have htied : Tied classes enabled ⟨.random, [0, 3, 4]⟩ :=
    ⟨⟨[⟨.first, [2]⟩], [⟨.random, [1]⟩], htiers, by decide⟩, rfl, by decide⟩
  rcases ties_broken_evenly htied (by decide) with ⟨hdecide, -, hredraw, -, -, -, hselect⟩
  simp only [hcand, List.length_cons, List.length_nil, hzeros] at hdecide hredraw hselect
  refine ⟨htied, hdecide, hredraw, fun words => ?_⟩
  rcases hselect (.ofWords words) (Random.Source.decisive_ofWords _ _) with
    ⟨k, rest, -, -, i, hi, -, hs⟩
  exact ⟨i, hi, rest, hs⟩

end Arbiter
end TimedAutomata
