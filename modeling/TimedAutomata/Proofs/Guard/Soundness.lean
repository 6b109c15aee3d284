import TimedAutomata.Proofs.Guard.Grammar

/-!
# Whatever is read as a guard is derived by the grammar

The readers follow an ordered choice with greedy repetition. None of them leaves the grammar: the
text that a reader takes from the front of its input has a derivation from the reader's category.
A flat sequence of comparisons is a disjunction of conjunctions, cut at every `||`.

* `Derives k cs rest`: some derivation from `k` has the text that `cs` has in front of `rest`
* `DerivesFurther cs rest`: the same for what stands behind the first comparison of a sequence
* `Sound n`: all readers take derived texts, at depth `n`
* `sound`: they do at every depth
-/

namespace TimedAutomata
namespace Guard

open Grammar

-- a derived text is computed from the shape of the derivation
attribute [local simp] Derivation.text

/-- The text of some derivation from `k` stands in `cs` before `rest`. -/
def Derives (k : Category) (cs rest : List Char) : Prop :=
  ∃ d : Derivation k, cs = d.text ++ rest

/-! ## Tokens -/

theorem eq_symbol_append_of_relation? {cs rest : List Char} {r : Relation}
    (h : relation? cs = some (r, rest)) : cs = r.symbol ++ rest := by
  unfold relation? at h
  split at h <;>
    first
    | (simp only [Option.some.injEq, Prod.mk.injEq] at h
       obtain ⟨rfl, rfl⟩ := h
       rfl)
    | simp at h

/-- Whatever a word stands for as an operand, it is the text of an operand. -/
theorem exists_text_of_wordOperand? {w : List Char} {r : Except Fault Operand} (hw : w ≠ [])
    (h : wordOperand? w = some r) : ∃ d : Derivation .operand, d.text = w := by
  unfold wordOperand? at h
  split at h
  · next hx => exact ⟨.clock, hx.symm⟩
  split at h
  · next hall => exact ⟨.number ⟨w, hw, by simpa using hall⟩, rfl⟩
  split at h
  · next htrue => exact ⟨.const true, htrue.symm⟩
  split at h
  · next hfalse => exact ⟨.const false, hfalse.symm⟩
  · simp at h

/-! ## Composing derivations -/

theorem Derives.paren {cs mid rest : List Char}
    (h : Derives .disjunction (skipSpaces cs) mid) (hclose : skipSpaces mid = ')' :: rest) :
    Derives .operand ('(' :: cs) rest := by
  obtain ⟨d, hd⟩ := h
  obtain ⟨before, hbefore⟩ := exists_spaces cs
  obtain ⟨after, hafter⟩ := exists_spaces mid
  refine ⟨.paren before d after, ?_⟩
  rw [hbefore, hd, hafter, hclose]
  simp

theorem Derives.link {cs after mid rest : List Char} {r : Relation}
    (hr : relation? (skipSpaces cs) = some (r, after))
    (ho : Derives .operand (skipSpaces after) mid) (hmore : Derives .links mid rest) :
    Derives .links cs rest := by
  obtain ⟨o, ho⟩ := ho
  obtain ⟨more, rfl⟩ := hmore
  obtain ⟨s, hs⟩ := exists_spaces cs
  obtain ⟨t, ht⟩ := exists_spaces after
  refine ⟨.link s r t o more, ?_⟩
  rw [hs, eq_symbol_append_of_relation? hr, ht, ho]
  simp

theorem Derives.comparison {cs mid rest : List Char} (hfirst : Derives .operand cs mid)
    (hmore : Derives .links mid rest) : Derives .comparison cs rest := by
  obtain ⟨first, rfl⟩ := hfirst
  obtain ⟨more, rfl⟩ := hmore
  exact ⟨.comparison first more, by simp⟩

theorem Derives.not {cs rest : List Char} (h : Derives .negation (skipSpaces cs) rest) :
    Derives .negation ('!' :: cs) rest := by
  obtain ⟨d, hd⟩ := h
  obtain ⟨s, hs⟩ := exists_spaces cs
  refine ⟨.not s d, ?_⟩
  rw [hs, hd]
  simp

/-- Conjuncts and then disjuncts stand in `cs` before `rest`. -/
def DerivesFurther (cs rest : List Char) : Prop :=
  ∃ (conjuncts : Derivation .conjuncts) (disjuncts : Derivation .disjuncts),
    cs = conjuncts.text ++ (disjuncts.text ++ rest)

theorem derivesFurther_refl (cs : List Char) : DerivesFurther cs cs :=
  ⟨.noConjunct, .noDisjunct, by simp⟩

theorem eq_symbol_append_of_join? {cs rest : List Char} {join : Join}
    (h : join? cs = some (join, rest)) : cs = join.symbol ++ rest := by
  unfold join? at h
  cases hor : literal? Join.or.symbol cs with
  | some after =>
    obtain ⟨rfl, rfl⟩ : Join.or = join ∧ after = rest := by simpa [hor] using h
    exact literal?_eq_some_iff.1 hor
  | none =>
    obtain ⟨after, hand, rfl, rfl⟩ :
        ∃ after, literal? Join.and.symbol cs = some after ∧ Join.and = join ∧ after = rest := by
      simpa [hor] using h
    exact literal?_eq_some_iff.1 hand

/-- One more comparison: behind `&&` it is one conjunct more, and behind `||` it starts a disjunct
with the conjuncts behind it. -/
theorem Derives.further {cs after mid rest : List Char} {join : Join}
    (hjoin : join? (skipSpaces cs) = some (join, after))
    (hright : Derives .negation (skipSpaces after) mid) (hmore : DerivesFurther mid rest) :
    DerivesFurther cs rest := by
  obtain ⟨right, hright⟩ := hright
  obtain ⟨conjuncts, disjuncts, rfl⟩ := hmore
  obtain ⟨s, hs⟩ := exists_spaces cs
  obtain ⟨t, ht⟩ := exists_spaces after
  have hcs : cs = s.chars ++ (join.symbol ++ (t.chars ++
      (right.text ++ (conjuncts.text ++ (disjuncts.text ++ rest))))) := by
    rw [← hright, ← ht, ← eq_symbol_append_of_join? hjoin]
    exact hs
  cases join with
  | and => exact ⟨.conjunct s t right conjuncts, disjuncts, by simpa [Join.symbol] using hcs⟩
  | or =>
    exact ⟨.noConjunct, .disjunct s t (.conjunction right conjuncts) disjuncts,
      by simpa [Join.symbol] using hcs⟩

theorem Derives.disjunction {cs mid rest : List Char} (hfirst : Derives .negation cs mid)
    (hmore : DerivesFurther mid rest) : Derives .disjunction cs rest := by
  obtain ⟨first, rfl⟩ := hfirst
  obtain ⟨conjuncts, disjuncts, rfl⟩ := hmore
  exact ⟨.disjunction (.conjunction first conjuncts) disjuncts, by simp⟩

/-! ## The readers -/

/-- What reading one more item behind an operator keeps holds of the text that is left in the
end. -/
theorem behind_induction {σ τ : Type} {operator? : List Char → Option (σ × List Char)}
    {item? : List Char → Option (τ × List Char)} {P : List Char → List Char → Prop}
    (stop : ∀ cs, P cs cs)
    (step : ∀ {cs after mid rest operator item},
      operator? (skipSpaces cs) = some (operator, after) →
        item? (skipSpaces after) = some (item, mid) → P mid rest → P cs rest)
    (limit : Nat) (cs : List Char) : P cs (behind operator? item? limit cs).2 := by
  induction limit generalizing cs with
  | zero => exact stop cs
  | succ limit ih =>
    rw [behind]
    cases hop : operator? (skipSpaces cs) with
    | none => exact stop cs
    | some found =>
      obtain ⟨operator, after⟩ := found
      cases hitem : item? (skipSpaces after) with
      | none => simpa [hitem] using stop cs
      | some found =>
        obtain ⟨item, mid⟩ := found
        simpa [hitem] using step hop hitem (ih mid)

/-- At depth `n`, every reader takes a text of its category. -/
structure Sound (n : Nat) : Prop where
  operand : ∀ {cs r rest}, operand? n cs = some (r, rest) → Derives .operand cs rest
  comparison : ∀ {cs r rest}, comparison? n cs = some (r, rest) → Derives .comparison cs rest
  factor : ∀ {cs r rest}, factor? n cs = some (r, rest) → Derives .negation cs rest
  expression : ∀ {cs r rest}, expression? n cs = some (r, rest) → Derives .disjunction cs rest

namespace Sound

theorem zero : Sound 0 where
  operand h := by simp [operand?] at h
  comparison h := by simp [comparison?] at h
  factor h := by simp [factor?] at h
  expression h := by simp [expression?] at h

variable {n : Nat} (ih : Sound n)
include ih

theorem links (limit : Nat) (cs : List Char) :
    Derives .links cs (behind relation? (operand? n) limit cs).2 :=
  behind_induction (P := Derives .links) (fun cs => ⟨.noLink, by simp⟩)
    (fun hr ho hmore => (ih.operand ho).link hr hmore) limit cs

theorem further (limit : Nat) (cs : List Char) :
    DerivesFurther cs (behind join? (factor? n) limit cs).2 :=
  behind_induction (P := DerivesFurther) derivesFurther_refl
    (fun hjoin hfactor hmore => (ih.factor hfactor).further hjoin hmore) limit cs

theorem operand_succ {cs rest : List Char} {r : Except Fault Operand}
    (h : operand? (n + 1) cs = some (r, rest)) : Derives .operand cs rest := by
  by_cases hparen : ∃ ds, cs = '(' :: ds
  · obtain ⟨ds, rfl⟩ := hparen
    simp only [operand?, Option.bind_eq_bind, Option.bind_eq_some_iff, Prod.exists] at h
    obtain ⟨inner, mid, hinner, close, hclose, hpure⟩ := h
    obtain ⟨-, rfl⟩ : _ ∧ close = rest := by simpa using hpure
    exact (ih.expression hinner).paren (by simpa using literal?_eq_some_iff.1 hclose)
  · rw [operand?.eq_3 _ _ fun ds hds => hparen ⟨ds, hds⟩] at h
    simp only [Option.bind_eq_bind, Option.bind_eq_some_iff, Prod.exists] at h
    obtain ⟨w, tail, hword, o, ho, hpure⟩ := h
    obtain ⟨-, rfl⟩ : _ ∧ tail = rest := by simpa using hpure
    obtain ⟨rfl, hw, -⟩ := word?_eq_some_iff.1 hword
    obtain ⟨d, rfl⟩ := exists_text_of_wordOperand? hw.1 ho
    exact ⟨d, rfl⟩

theorem comparison_succ {cs rest : List Char} {r : Except Fault Expr}
    (h : comparison? (n + 1) cs = some (r, rest)) : Derives .comparison cs rest := by
  simp only [comparison?, Option.bind_eq_bind, Option.bind_eq_some_iff, Prod.exists] at h
  obtain ⟨first, mid, hfirst, hpure⟩ := h
  obtain ⟨-, rfl⟩ : _ ∧ (behind relation? (operand? n) mid.length mid).2 = rest := by
    simpa using hpure
  exact (ih.operand hfirst).comparison (ih.links _ mid)

theorem factor_succ {cs rest : List Char} {r : Factor Fault}
    (h : factor? (n + 1) cs = some (r, rest)) : Derives .negation cs rest := by
  unfold factor? at h
  split at h
  · simp at h
  · simp only [Option.bind_eq_bind, Option.bind_eq_some_iff, Prod.exists] at h
    obtain ⟨inner, tail, hinner, hpure⟩ := h
    obtain ⟨-, rfl⟩ : _ ∧ tail = rest := by simpa using hpure
    exact (ih.factor hinner).not
  · simp only [Option.bind_eq_bind, Option.bind_eq_some_iff, Prod.exists] at h
    obtain ⟨operand, tail, hoperand, hpure⟩ := h
    obtain ⟨-, rfl⟩ : _ ∧ tail = rest := by simpa using hpure
    obtain ⟨d, rfl⟩ := ih.comparison hoperand
    exact ⟨.plain d, rfl⟩

theorem expression_succ {cs rest : List Char} {r : Except Fault Expr}
    (h : expression? (n + 1) cs = some (r, rest)) : Derives .disjunction cs rest := by
  simp only [expression?, Option.bind_eq_bind, Option.bind_eq_some_iff, Prod.exists] at h
  obtain ⟨first, mid, hfirst, hpure⟩ := h
  obtain ⟨-, rfl⟩ : _ ∧ (behind join? (factor? n) mid.length mid).2 = rest := by
    simpa using hpure
  exact (ih.factor hfirst).disjunction (ih.further _ mid)

end Sound

theorem sound (n : Nat) : Sound n := by
  induction n with
  | zero => exact Sound.zero
  | succ n ih =>
    exact {
      operand := ih.operand_succ
      comparison := ih.comparison_succ
      factor := ih.factor_succ
      expression := ih.expression_succ }

/-- A text that has the shape of a guard is derived by the grammar. -/
theorem exists_text_eq_of_meaning? {cs : List Char} {r : Except Fault Expr}
    (h : meaning? cs = some r) : ∃ d : Derivation .disjunction, d.text = cs := by
  unfold meaning? at h
  split at h
  · next e hread =>
    obtain ⟨d, hd⟩ := (sound _).expression hread
    exact ⟨d, by simpa using hd.symm⟩
  · simp at h

end Guard
end TimedAutomata
