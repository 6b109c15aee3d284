import TimedAutomata.Guard.Precedence

/-!
# Climbing by precedence

Climbing through a flat sequence gives the expression of the layered grammar: negations first, then
runs of `&&`, then these joined by `||`, each from left to right.

* `Factor.value`, `Group.value`: an operand under its negations, and a run of `&&`
* `extend_ands`, `climb_group`, `extend_groups`: what climbing takes at each power of the table
* `grouped_eq`, `exists_grouped_eq`: the expression of a sequence, by its runs
-/

namespace TimedAutomata
namespace Guard

variable {ε : Type}

/-! ## Layers -/

/-- An operand under `n` negations. -/
def negated : Nat → Except ε Expr → Except ε Expr
  | 0, operand => operand
  | n + 1, operand => (negated n operand).map .not

def Factor.value (factor : Factor ε) : Except ε Expr :=
  negated factor.nots factor.operand

/-- `left` and further factors, joined by `&&` from the left. -/
def conjoined (left : Except ε Expr) (factors : List (Factor ε)) : Except ε Expr :=
  factors.foldl (fun e factor => both .and e factor.value) left

/-- Factors with `&&` between them. -/
structure Group (ε : Type) where
  first : Factor ε
  more : List (Factor ε)

namespace Group

def value (g : Group ε) : Except ε Expr :=
  conjoined g.first.value g.more

/-- The part of a sequence that stands behind the first factor. -/
def tail (g : Group ε) : Further ε :=
  g.more.map fun factor => (.and, factor)

/-- The part of a sequence that a group behind `||` is. -/
def further (g : Group ε) : Further ε :=
  (.or, g.first) :: g.tail

end Group

/-- `left` and further groups, joined by `||` from the left. -/
def disjoined (left : Except ε Expr) (groups : List (Group ε)) : Except ε Expr :=
  groups.foldl (fun e g => both .or e g.value) left

/-! ## Climbing -/

theorem or_power_lt_and_power : (Connective.join .or).power < (Connective.join .and).power := by
  decide

theorem join_power_le (join : Join) :
    (Connective.join join).power ≤ (Connective.join .and).power := by
  cases join <;> decide

@[simp] theorem weight_nil : weight ([] : Further ε) = 0 := rfl

@[simp] theorem weight_cons (join : Join) (factor : Factor ε) (rest : Further ε) :
    weight ((join, factor) :: rest) = factor.nots + 2 + weight rest := rfl

@[simp] theorem weight_append (rest more : Further ε) :
    weight (rest ++ more) = weight rest + weight more := by
  induction rest with
  | nil => simp
  | cons item rest ih =>
    obtain ⟨join, factor⟩ := item
    simp [ih, Nat.add_assoc]

/-- No join is taken above the power of `&&`. -/
theorem extend_of_power_le {least : Nat} (h : (Connective.join .and).power ≤ least) (fuel : Nat)
    (left : Except ε Expr) (rest : Further ε) : extend fuel least left rest = (left, rest) := by
  cases fuel with
  | zero => rfl
  | succ fuel =>
    cases rest with
    | nil => rfl
    | cons item rest =>
      have hpower := join_power_le item.1
      have hstop : ¬ least < (Connective.join item.1).power := by omega
      simp only [extend, hstop, if_false]

/-- Negations are taken before anything else. -/
theorem climb_succ {fuel : Nat} (least : Nat) {factor : Factor ε} (h : factor.nots ≤ fuel)
    (rest : Further ε) :
    climb (fuel + 1) least factor rest = extend fuel least factor.value rest := by
  obtain ⟨nots, operand⟩ := factor
  induction nots generalizing fuel least with
  | zero => rfl
  | succ nots ih =>
    obtain ⟨fuel, rfl⟩ := Nat.exists_eq_add_one.2 (Nat.zero_lt_of_lt h)
    have hinner : climb (fuel + 1) (Connective.not.power - 1) ⟨nots, operand⟩ rest =
        (negated nots operand, rest) := by
      rw [ih _ (Nat.le_of_succ_le_succ h)]
      exact extend_of_power_le (by decide) fuel _ rest
    rw [climb, hinner]
    rfl

/-- Where `&&` is taken, a whole run of it is. The run leaves the depth that the rest needs. -/
theorem extend_ands {least : Nat} (hleast : least < (Connective.join .and).power)
    (factors : List (Factor ε)) (rest : Further ε) (need : Nat) {fuel : Nat}
    (left : Except ε Expr)
    (hfuel : weight (factors.map fun factor => (.and, factor)) + need ≤ fuel) :
    ∃ fuel', need ≤ fuel' ∧
      extend fuel least left (factors.map (fun factor => (.and, factor)) ++ rest) =
        extend fuel' least (conjoined left factors) rest := by
  induction factors generalizing fuel left with
  | nil => exact ⟨fuel, by simpa using hfuel, rfl⟩
  | cons factor factors ih =>
    simp only [List.map_cons, weight_cons] at hfuel
    obtain ⟨fuel, rfl⟩ : ∃ k, fuel = k + 2 := ⟨fuel - 2, by omega⟩
    have hmoreFuel : weight (factors.map fun factor => (.and, factor)) + need ≤ fuel + 1 := by
      omega
    obtain ⟨fuel', hneed, hmore⟩ := ih (both .and left factor.value) hmoreFuel
    refine ⟨fuel', hneed, ?_⟩
    -- the right side of the first `&&` is one factor, since it takes no further join
    have hright : climb (fuel + 1) (Connective.join .and).power factor
        (factors.map (fun factor => (.and, factor)) ++ rest) =
        (factor.value, factors.map (fun factor => (.and, factor)) ++ rest) := by
      rw [climb_succ _ (by omega)]
      exact extend_of_power_le (Nat.le_refl _) fuel _ _
    simp only [List.map_cons, List.cons_append, extend, hleast, if_true, hright]
    exact hmore

/-- The rest of a sequence in which no `&&` comes first. -/
def EndsGroup (rest : Further ε) : Prop :=
  ∀ item ∈ rest.head?, item.1 = .or

theorem extend_or_power_of_endsGroup {rest : Further ε} (h : EndsGroup rest) (fuel : Nat)
    (left : Except ε Expr) : extend fuel (Connective.join .or).power left rest = (left, rest) := by
  cases fuel with
  | zero => rfl
  | succ fuel =>
    cases rest with
    | nil => rfl
    | cons item rest =>
      have hor : item.1 = .or := h item rfl
      simp only [extend, hor, Nat.lt_irrefl, if_false]
      rw [← hor]

/-- The right side of `||` is a group. -/
theorem climb_group (g : Group ε) {rest : Further ε} (hrest : EndsGroup rest) {fuel : Nat}
    (hfuel : g.first.nots + 1 + weight g.tail ≤ fuel) :
    climb fuel (Connective.join .or).power g.first (g.tail ++ rest) = (g.value, rest) := by
  obtain ⟨fuel, rfl⟩ : ∃ k, fuel = k + 1 := ⟨fuel - 1, by omega⟩
  have hrunFuel : weight g.tail + 0 ≤ fuel := by omega
  obtain ⟨fuel', -, hrun⟩ :=
    extend_ands or_power_lt_and_power g.more rest 0 g.first.value hrunFuel
  calc climb (fuel + 1) (Connective.join .or).power g.first (g.tail ++ rest)
      = extend fuel (Connective.join .or).power g.first.value (g.tail ++ rest) :=
        climb_succ _ (by omega) _
    _ = extend fuel' (Connective.join .or).power g.value rest := hrun
    _ = (g.value, rest) := extend_or_power_of_endsGroup hrest fuel' _

theorem endsGroup_groups (groups : List (Group ε)) : EndsGroup (groups.flatMap Group.further) := by
  cases groups with
  | nil => simp [EndsGroup]
  | cons g groups => simp [EndsGroup, Group.further]

/-- Below every power, all groups are taken. -/
theorem extend_groups (groups : List (Group ε)) {fuel : Nat} {left : Except ε Expr}
    (hfuel : weight (groups.flatMap Group.further) ≤ fuel) :
    extend fuel 0 left (groups.flatMap Group.further) = (disjoined left groups, []) := by
  induction groups generalizing fuel left with
  | nil => cases fuel <;> rfl
  | cons g groups ih =>
    simp only [List.flatMap_cons, Group.further, List.cons_append, weight_cons,
      weight_append] at hfuel
    obtain ⟨fuel, rfl⟩ : ∃ k, fuel = k + 1 := ⟨fuel - 1, by omega⟩
    have hright : climb fuel (Connective.join .or).power g.first
        (g.tail ++ groups.flatMap Group.further) = (g.value, groups.flatMap Group.further) :=
      climb_group g (endsGroup_groups groups) (by omega)
    have hpower : 0 < (Connective.join .or).power := by decide
    simp only [List.flatMap_cons, Group.further, List.cons_append, extend, hpower, if_true, hright]
    exact ih (by omega)

/-- The expression of a sequence: `&&` joins the factors of a group, and `||` the groups. -/
theorem grouped_eq (g : Group ε) (groups : List (Group ε)) :
    grouped g.first (g.tail ++ groups.flatMap Group.further) = disjoined g.value groups := by
  have hrunFuel : weight g.tail + weight (groups.flatMap Group.further) ≤
      g.first.nots + weight (g.tail ++ groups.flatMap Group.further) + 1 := by
    simp only [weight_append]
    omega
  have hnots : g.first.nots ≤
      g.first.nots + weight (g.tail ++ groups.flatMap Group.further) + 1 := by
    omega
  obtain ⟨fuel', hneed, hrun⟩ := extend_ands (Nat.zero_lt_succ _) g.more
    (groups.flatMap Group.further) (weight (groups.flatMap Group.further)) g.first.value hrunFuel
  calc grouped g.first (g.tail ++ groups.flatMap Group.further)
      = (extend (g.first.nots + weight (g.tail ++ groups.flatMap Group.further) + 1) 0
          g.first.value (g.tail ++ groups.flatMap Group.further)).1 :=
        congrArg Prod.fst (climb_succ 0 hnots _)
    _ = (extend fuel' 0 g.value (groups.flatMap Group.further)).1 := congrArg Prod.fst hrun
    _ = disjoined g.value groups := by rw [extend_groups groups hneed]

/-- Every sequence is a group and further groups. -/
theorem exists_groups (first : Factor ε) (rest : Further ε) :
    ∃ (g : Group ε) (groups : List (Group ε)),
      g.first = first ∧ rest = g.tail ++ groups.flatMap Group.further := by
  induction rest generalizing first with
  | nil => exact ⟨⟨first, []⟩, [], rfl, rfl⟩
  | cons item rest ih =>
    obtain ⟨join, factor⟩ := item
    obtain ⟨g, groups, rfl, rfl⟩ := ih factor
    cases join with
    | or => exact ⟨⟨first, []⟩, g :: groups, rfl, by simp [Group.further, Group.tail]⟩
    | and => exact ⟨⟨first, g.first :: g.more⟩, groups, rfl, by simp [Group.tail]⟩

/-- Whatever the sequence, negations bind tightest, then `&&`, then `||`. -/
theorem exists_grouped_eq (first : Factor ε) (rest : Further ε) :
    ∃ (g : Group ε) (groups : List (Group ε)),
      g.first = first ∧ rest = g.tail ++ groups.flatMap Group.further ∧
        grouped first rest = disjoined g.value groups := by
  obtain ⟨g, groups, rfl, rfl⟩ := exists_groups first rest
  exact ⟨g, groups, rfl, rfl, grouped_eq g groups⟩

end Guard
end TimedAutomata
