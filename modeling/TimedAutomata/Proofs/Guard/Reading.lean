import TimedAutomata.Proofs.Blank
import TimedAutomata.Proofs.Guard.Soundness
import TimedAutomata.Proofs.Guard.Unambiguity

/-!
# Reading accepts exactly the grammar of guards

The reader of guards accepts a text exactly if the trimmed text has a derivation that is typed and
whose numbers are bounded. The guard that is read is the elaboration of that derivation, and it
holds at a clock value exactly if the derivation does.

* `Derivation.typed_iff`: the typed derivations are those that elaborate
* `Derivation.means`: elaboration keeps the meaning
* `read_accepts_exactly`: the reader against the grammar
-/

namespace TimedAutomata
namespace Guard

open Grammar

namespace Derivation

/-! ## Typing and elaboration -/

theorem exists_chained (first : Term) (link : Relation × Term) (links : List (Relation × Term)) :
    ∃ e, chained first (link :: links) = some e := by
  simp [chained]

section Chain

variable (first operand : Derivation .operand) (before after : Spaces) (r : Relation)
  (more : Derivation .links)

theorem typed_chain :
    (comparison first (link before r after operand more)).Typed ↔
      first.term?.isSome ∧ (link before r after operand more).Typed :=
  Iff.rfl

theorem elaborate_chain :
    (comparison first (link before r after operand more)).elaborate =
      first.term?.bind fun t => (link before r after operand more).elaborate.bind (chained t) :=
  rfl

theorem holds_chain (x : Nat) :
    (comparison first (link before r after operand more)).Holds x ↔
      (link before r after operand more).Chained x (first.value x) :=
  Iff.rfl

end Chain

/-- The typed derivations are those that stand for something. -/
theorem typed_iff {k : Category} (d : Derivation k) : d.Typed ↔ ∃ v, d.elaborate = some v := by
  induction d with
  | clock | number | const | noLink | noConjunct | noDisjunct => simp [Typed, elaborate]
  | paren before inner after ih => simp [Typed, elaborate, ih]
  | link before r after operand more iho ihm =>
    simp only [Typed, ihm, elaborate, Option.bind_eq_some_iff, Option.map_eq_some_iff,
      Option.isSome_iff_exists]
    grind
  | comparison first more ihf ihm =>
    cases more with
    | noLink =>
      simp only [Typed, ihf, elaborate, Option.bind_eq_some_iff]
      constructor
      · rintro ⟨hnone, v, hv⟩
        cases v with
        | term t => simp [(first.elaborate_eq_term_iff t).1 hv] at hnone
        | condition e => exact ⟨e, _, hv, rfl⟩
      · rintro ⟨e, v, hv, hcond⟩
        refine ⟨?_, v, hv⟩
        cases hterm : first.term? with
        | none => rfl
        | some t =>
          rw [(first.elaborate_eq_term_iff t).2 hterm] at hv
          obtain rfl : Operand.term t = v := by simpa using hv
          simp at hcond
    | link before r after operand links =>
      rw [typed_chain, ihm, elaborate_chain]
      simp only [elaborate, Option.bind_eq_some_iff, Option.map_eq_some_iff,
        Option.isSome_iff_exists]
      constructor
      · rintro ⟨⟨t, ht⟩, v, u, hu, us, hus, rfl⟩
        obtain ⟨e, he⟩ := exists_chained t (r, u) us
        exact ⟨e, t, ht, _, ⟨u, hu, us, hus, rfl⟩, he⟩
      · rintro ⟨e, t, ht, links', hlinks, -⟩
        exact ⟨⟨t, ht⟩, links', hlinks⟩
  | plain inner ih => exact ih
  | not after inner ih => simp [Typed, elaborate, ih]
  | conjunct before after right more ihr ihm | disjunct before after right more ihr ihm =>
    simp only [Typed, ihr, ihm, elaborate, Option.bind_eq_some_iff, Option.map_eq_some_iff]
    grind
  | conjunction first more ihf ihm | disjunction first more ihf ihm =>
    simp only [Typed, ihf, ihm, elaborate, Option.bind_eq_some_iff, Option.map_eq_some_iff]
    grind

/-! ## Meaning -/

theorem holds_foldl_and (x : Nat) (e : Expr) (es : List Expr) :
    (es.foldl .and e).holds x = true ↔ e.holds x = true ∧ ∀ e' ∈ es, e'.holds x = true := by
  induction es generalizing e with
  | nil => simp
  | cons e' es ih => simp [ih, Expr.holds, and_assoc]

theorem holds_foldl_or (x : Nat) (e : Expr) (es : List Expr) :
    (es.foldl .or e).holds x = true ↔ e.holds x = true ∨ ∃ e' ∈ es, e'.holds x = true := by
  induction es generalizing e with
  | nil => simp
  | cons e' es ih => simp [ih, Expr.holds, or_assoc]

/-- What a derivation stands for has the meaning of the derivation. -/
def Means (x : Nat) : {k : Category} → Derivation k → k.Result → Prop
  | .operand, d, .term t => d.term? = some t
  | .operand, d, .condition e => e.holds x = true ↔ d.Holds x
  | .links, d, links => ∀ left : Term,
      (∀ e ∈ neighbours left links, e.holds x = true) ↔ d.Chained x (left.value x)
  | .conjuncts, d, es => (∀ e ∈ es, e.holds x = true) ↔ d.Holds x
  | .disjuncts, d, es => (∃ e ∈ es, e.holds x = true) ↔ d.Holds x
  | .comparison, d, e => e.holds x = true ↔ d.Holds x
  | .negation, d, e => e.holds x = true ↔ d.Holds x
  | .conjunction, d, e => e.holds x = true ↔ d.Holds x
  | .disjunction, d, e => e.holds x = true ↔ d.Holds x

theorem value_of_term? {x : Nat} {d : Derivation .operand} {t : Term} (h : d.term? = some t) :
    d.value x = t.value x := by
  simp [value, h]

theorem means_comparison {x : Nat} {first : Derivation .operand} {more : Derivation .links}
    (ihf : ∀ v, first.elaborate = some v → Means x first v)
    (ihm : ∀ v, more.elaborate = some v → Means x more v) {e : Expr}
    (h : (comparison first more).elaborate = some e) : Means x (comparison first more) e := by
  cases more with
  | noLink =>
    simp only [elaborate, Option.bind_eq_some_iff] at h
    obtain ⟨v, hv, hcond⟩ := h
    cases v with
    | term t => simp at hcond
    | condition e' =>
      obtain rfl : e' = e := by simpa using hcond
      exact ihf _ hv
  | link before r after operand more =>
    rw [elaborate_chain] at h
    simp only [Option.bind_eq_some_iff] at h
    obtain ⟨t, ht, links, hlinks, hchained⟩ := h
    have hmeans := ihm links hlinks t
    show e.holds x = true ↔ _
    rw [holds_chain, value_of_term? ht, ← hmeans]
    cases links with
    | nil => simp [chained] at hchained
    | cons link links =>
      obtain ⟨r', second⟩ := link
      obtain rfl := Option.some.inj hchained
      simp [holds_foldl_and, neighbours]

theorem means_link {x : Nat} {before after : Spaces} {r : Relation} {operand : Derivation .operand}
    {more : Derivation .links} (ihm : ∀ v, more.elaborate = some v → Means x more v)
    {links : List (Relation × Term)}
    (h : (link before r after operand more).elaborate = some links) :
    Means x (link before r after operand more) links := by
  simp only [elaborate, Option.bind_eq_some_iff, Option.map_eq_some_iff] at h
  obtain ⟨t, ht, ts, hts, rfl⟩ := h
  intro left
  have hmore := ihm ts hts t
  rw [Chained, value_of_term? ht, ← hmore]
  simp [neighbours, Expr.holds]

/-- Elaboration keeps the meaning. -/
theorem means (x : Nat) {k : Category} (d : Derivation k) {v : k.Result}
    (h : d.elaborate = some v) : Means x d v := by
  induction d with
  | clock | number =>
    obtain rfl := Option.some.inj h
    rfl
  | const b =>
    obtain rfl := Option.some.inj h
    exact Iff.rfl
  | paren before inner after ih =>
    simp only [elaborate, Option.map_eq_some_iff] at h
    obtain ⟨e, he, rfl⟩ := h
    exact ih he
  | noLink =>
    obtain rfl := Option.some.inj h
    intro left
    simp [neighbours, Chained]
  | link before r after operand more _ ihm => exact means_link (fun _ => ihm) h
  | comparison first more ihf ihm => exact means_comparison (fun _ => ihf) (fun _ => ihm) h
  | plain inner ih => exact ih h
  | not after inner ih =>
    simp only [elaborate, Option.map_eq_some_iff] at h
    obtain ⟨e, he, rfl⟩ := h
    have hmeans : e.holds x = true ↔ inner.Holds x := ih he
    simp [Means, Holds, Expr.holds, ← hmeans]
  | noConjunct =>
    obtain rfl := Option.some.inj h
    simp [Means, Holds]
  | conjunct before after right more ihr ihm =>
    simp only [elaborate, Option.bind_eq_some_iff, Option.map_eq_some_iff] at h
    obtain ⟨e, he, es, hes, rfl⟩ := h
    have hright : e.holds x = true ↔ right.Holds x := ihr he
    have hmore : (∀ e ∈ es, e.holds x = true) ↔ more.Holds x := ihm hes
    simp [Means, Holds, hright, hmore]
  | conjunction first more ihf ihm =>
    simp only [elaborate, Option.bind_eq_some_iff, Option.map_eq_some_iff] at h
    obtain ⟨e, he, es, hes, rfl⟩ := h
    have hfirst : e.holds x = true ↔ first.Holds x := ihf he
    have hmore : (∀ e ∈ es, e.holds x = true) ↔ more.Holds x := ihm hes
    simp only [Means, Holds, holds_foldl_and, hfirst, hmore]
  | noDisjunct =>
    obtain rfl := Option.some.inj h
    simp [Means, Holds]
  | disjunct before after right more ihr ihm =>
    simp only [elaborate, Option.bind_eq_some_iff, Option.map_eq_some_iff] at h
    obtain ⟨e, he, es, hes, rfl⟩ := h
    have hright : e.holds x = true ↔ right.Holds x := ihr he
    have hmore : (∃ e ∈ es, e.holds x = true) ↔ more.Holds x := ihm hes
    simp only [Means, Holds, List.mem_cons, exists_eq_or_imp, hright, hmore]
  | disjunction first more ihf ihm =>
    simp only [elaborate, Option.bind_eq_some_iff, Option.map_eq_some_iff] at h
    obtain ⟨e, he, es, hes, rfl⟩ := h
    have hfirst : e.holds x = true ↔ first.Holds x := ihf he
    have hmore : (∃ e ∈ es, e.holds x = true) ↔ more.Holds x := ihm hes
    simp only [Means, Holds, holds_foldl_or, hfirst, hmore]

end Derivation

/-! ## Reading -/

theorem read_of_isBlank {cs : List Char} (h : Text.IsBlank cs) : read cs = .ok always := by
  simp [read, Text.trim_eq_nil_iff.2 h]

/-- A text that is not blank is accepted exactly if the trimmed text is that of a typed and bounded
derivation; what is read is its elaboration. -/
theorem read_eq_ok_iff {cs : List Char} (hcs : ¬ Text.IsBlank cs) (g : Guard) :
    read cs = .ok g ↔
      ∃ d : Derivation .disjunction, d.text = Text.trim cs ∧ d.Bounded ∧
        d.elaborate = some g.expr ∧ g.text = String.ofList (Text.trim cs) := by
  have hne : Text.trim cs ≠ [] := fun h => hcs (Text.trim_eq_nil_iff.1 h)
  have hread : read cs = .ok g ↔
      ∃ e, meaning? (Text.trim cs) = some (.ok e) ∧
        (⟨String.ofList (Text.trim cs), e⟩ : Guard) = g := by
    simp only [read, List.isEmpty_iff, hne, if_false]
    cases meaning? (Text.trim cs) with
    | none => simp
    | some r => cases r <;> simp
  rw [hread]
  constructor
  · rintro ⟨e, he, rfl⟩
    obtain ⟨d, hd⟩ := exists_text_eq_of_meaning? he
    obtain ⟨r, hr, hagrees⟩ := exists_meaning?_text d
    rw [hd, he] at hr
    obtain ⟨hsense, hbound⟩ := (hagrees e).1 (Option.some.inj hr).symm
    exact ⟨d, hd, hbound, hsense, rfl⟩
  · rintro ⟨d, hd, hbound, hsense, htext⟩
    obtain ⟨r, hr, hagrees⟩ := exists_meaning?_text d
    refine ⟨g.expr, ?_, by rw [← htext]⟩
    rw [← hd, hr, (hagrees g.expr).2 ⟨hsense, hbound⟩]

/-- The reader accepts exactly the grammar. A blank text is the guard that always holds. Any other
text is accepted if and only if the trimmed text has a derivation whose operands have the right
kinds and whose numbers fit the clock. There is at most one derivation, and the guard that is read
has the trimmed text, the elaboration of the derivation, and its meaning. -/
theorem read_accepts_exactly (cs : List Char) :
    (Text.IsBlank cs → read cs = .ok ⟨"", .const true⟩) ∧
    (¬ Text.IsBlank cs →
      ((∃ g, read cs = .ok g) ↔
        ∃ d : Derivation .disjunction, d.text = Text.trim cs ∧ d.Typed ∧ d.Bounded) ∧
      (∀ d e : Derivation .disjunction,
        d.text = Text.trim cs → e.text = Text.trim cs → d = e) ∧
      ∀ (d : Derivation .disjunction) (g : Guard), d.text = Text.trim cs → read cs = .ok g →
        g.text = String.ofList (Text.trim cs) ∧ d.elaborate = some g.expr ∧
          ∀ x, g.holds x = true ↔ d.Holds x) := by
  refine ⟨?_, ?_⟩
  · intro hblank
    exact read_of_isBlank hblank
  · intro hcs
    refine ⟨?_, ?_, ?_⟩
    · constructor
      · rintro ⟨g, hg⟩
        obtain ⟨d, hd, hbound, hsense, -⟩ := (read_eq_ok_iff hcs g).1 hg
        exact ⟨d, hd, d.typed_iff.2 ⟨g.expr, hsense⟩, hbound⟩
      · rintro ⟨d, hd, htyped, hbound⟩
        obtain ⟨e, hsense⟩ := d.typed_iff.1 htyped
        exact ⟨_, (read_eq_ok_iff hcs ⟨_, e⟩).2 ⟨d, hd, hbound, hsense, rfl⟩⟩
    · intro d e hd he
      exact Derivation.text_injective d e (hd.trans he.symm)
    · intro d g hd hg
      obtain ⟨d', hd', -, hsense, htext⟩ := (read_eq_ok_iff hcs g).1 hg
      obtain rfl := Derivation.text_injective d' d (hd'.trans hd.symm)
      exact ⟨htext, hsense, fun x => d'.means x hsense⟩

example : (read " 9 <= x < 15 ".toList).toOption =
    some ⟨"9 <= x < 15",
      .and (.compare .le (.number 9) .clock) (.compare .lt .clock (.number 15))⟩ := by
  decide +kernel

end Guard
end TimedAutomata
