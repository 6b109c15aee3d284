import TimedAutomata.Proofs.Guard.Completeness

/-!
# Guards have one derivation

No text has two derivations. The statement that carries the induction is about texts in front of a
rest that ends them: `d.text ++ rest` determines `d` and `rest`.

* `Derivation.text_append_inj`: the statement with a rest
* `Derivation.text_injective`: a derivation is determined by its text
-/

namespace TimedAutomata
namespace Guard

open Grammar

/-! ## Operators -/

theorem symbol_append_inj {k : Category} {r r' : Relation} {s s' : Spaces} {d d' : Derivation k}
    {rest rest' : List Char} (hk : k.starred = false)
    (h : r.symbol ++ (s.chars ++ (d.text ++ rest)) =
      r'.symbol ++ (s'.chars ++ (d'.text ++ rest'))) :
    r = r' ∧ s = s' ∧ d.text ++ rest = d'.text ++ rest' := by
  have hread := relation?_symbol_text r s d hk rest
  rw [h, relation?_symbol_text r' s' d' hk rest'] at hread
  simp only [Option.some.injEq, Prod.mk.injEq] at hread
  obtain ⟨rfl, hspaces⟩ := hread
  obtain ⟨hs, htext⟩ := spaces_append_inj (d'.startsDense_text hk rest')
    (d.startsDense_text hk rest) hspaces
  exact ⟨rfl, hs.symm, htext.symm⟩

/-- Separators around an operator that is the same in both texts. -/
theorem operator_append_inj {k : Category} {c : Char} {before before' s s' : Spaces}
    {d d' : Derivation k} {rest rest' : List Char} (hk : k.starred = false)
    (hc : isSpace c = false)
    (h : before.chars ++ c :: c :: (s.chars ++ (d.text ++ rest)) =
      before'.chars ++ c :: c :: (s'.chars ++ (d'.text ++ rest'))) :
    before = before' ∧ s = s' ∧ d.text ++ rest = d'.text ++ rest' := by
  obtain ⟨hbefore, hop⟩ := spaces_append_inj (by simpa using hc) (by simpa using hc) h
  simp only [List.cons.injEq, true_and] at hop
  obtain ⟨hs, htext⟩ := spaces_append_inj (d.startsDense_text hk rest)
    (d'.startsDense_text hk rest') hop
  exact ⟨hbefore, hs, htext⟩

/-! ## Operands -/

/-- A word is not an operand in parentheses. -/
theorem word_append_ne_paren {w rest cs : List Char} (hw : IsWord w) : w ++ rest ≠ '(' :: cs := by
  intro h
  obtain ⟨c, w', rfl⟩ := List.exists_cons_of_ne_nil hw.1
  obtain rfl : c = '(' := by simpa using congrArg List.head? h
  exact absurd (hw.2 '(' (by simp)) (by decide)

theorem digits_ne {digits : Digits} {c : Char} {w : List Char} (hc : c.isDigit = false) :
    digits.chars ≠ c :: w := by
  intro h
  have hdigit := digits.decimal c (by simp [h])
  simp [hc] at hdigit

namespace Derivation

/-- An operand is a word, or it stands in parentheses. -/
theorem isWord_or_paren (d : Derivation .operand) :
    IsWord d.text ∨ ∃ before inner after, d = paren before inner after := by
  cases d with
  | clock => exact .inl isWord_clock
  | number digits => exact .inl (isWord_digits digits)
  | const b => exact .inl (isWord_constText b)
  | paren before inner after => exact .inr ⟨before, inner, after, rfl⟩

theorem not_isWord_paren {before after : Spaces} {inner : Derivation .disjunction} :
    ¬ IsWord (paren before inner after).text := by
  intro h
  exact absurd (h.2 '(' (by simp [text])) (by decide)

theorem word_operand_text_inj {d e : Derivation .operand} (hd : IsWord d.text)
    (he : IsWord e.text) (h : d.text = e.text) : d = e := by
  cases d with
  | clock =>
    cases e with
    | clock => rfl
    | number digits => exact absurd h.symm (digits_ne (by decide))
    | const b => cases b <;> simp [text, constText] at h
    | paren => exact absurd he not_isWord_paren
  | number digits =>
    cases e with
    | clock => exact absurd h (digits_ne (by decide))
    | number digits' => exact congrArg number (Digits.ext h)
    | const b =>
      cases b with
      | true => exact absurd h (digits_ne (by decide))
      | false => exact absurd h (digits_ne (by decide))
    | paren => exact absurd he not_isWord_paren
  | const b =>
    cases e with
    | clock => cases b <;> simp [text, constText] at h
    | number digits =>
      cases b with
      | true => exact absurd h.symm (digits_ne (by decide))
      | false => exact absurd h.symm (digits_ne (by decide))
    | const b' => cases b <;> cases b' <;> simp [text, constText] at h ⊢
    | paren => exact absurd he not_isWord_paren
  | paren => exact absurd hd not_isWord_paren

theorem word_operand_append_inj (d e : Derivation .operand) (hd : IsWord d.text)
    {rest rest' : List Char} (hrest : EndsWord rest) (hrest' : EndsWord rest')
    (h : d.text ++ rest = e.text ++ rest') : d = e ∧ rest = rest' := by
  rcases isWord_or_paren e with he | ⟨before, inner, after, rfl⟩
  · obtain ⟨htext, hr⟩ := word_append_inj hd he hrest hrest' h
    exact ⟨word_operand_text_inj hd he htext, hr⟩
  · exact absurd h (word_append_ne_paren hd)

/-! ## Starred groups -/

/-- A rest that ends a chain does not start with a link. -/
theorem ne_link_append {before after : Spaces} {r : Relation} {operand : Derivation .operand}
    {more : Derivation .links} {rest rest' : List Char} (h : EndsChain rest) :
    rest ≠ (link before r after operand more).text ++ rest' := by
  rintro rfl
  have hskip : skipSpaces (before.chars ++
      (r.symbol ++ (after.chars ++ (operand.text ++ (more.text ++ rest'))))) =
      r.symbol ++ (after.chars ++ (operand.text ++ (more.text ++ rest'))) := by
    refine skipSpaces_append_dense before ?_
    cases r <;> simp [Relation.symbol] <;> decide
  have hnone := h.2
  simp only [text, List.append_assoc, hskip,
    relation?_symbol_text r after operand rfl (more.text ++ rest')] at hnone
  simp at hnone

/-- A rest that does not continue with an operator does not start with it. -/
theorem ne_operator_append {c : Char} {before : Spaces} {rest cs : List Char}
    (hc : isSpace c = false) (h : literal? [c, c] (skipSpaces rest) = none) :
    rest ≠ before.chars ++ c :: c :: cs := by
  rintro rfl
  rw [skipSpaces_append_dense before (by simpa using hc)] at h
  simp [literal?] at h

/-! ## All derivations -/

/-- What a derived text in front of a rest that ends it was derived from. -/
theorem text_append_inj {k : Category} (d e : Derivation k) {rest rest' : List Char}
    (hrest : Follow k rest) (hrest' : Follow k rest') (h : d.text ++ rest = e.text ++ rest') :
    d = e ∧ rest = rest' := by
  induction d generalizing rest rest' with
  | clock => exact word_operand_append_inj .clock e isWord_clock hrest hrest' h
  | number digits =>
    exact word_operand_append_inj (.number digits) e (isWord_digits digits) hrest hrest' h
  | const b => exact word_operand_append_inj (.const b) e (isWord_constText b) hrest hrest' h
  | paren before inner after ih =>
    rcases isWord_or_paren e with he | ⟨before', inner', after', rfl⟩
    · exact absurd h.symm (word_append_ne_paren he)
    · simp only [text, List.cons_append, List.append_assoc, List.cons.injEq, true_and] at h
      obtain ⟨rfl, hinner⟩ := spaces_append_inj (inner.startsDense_text rfl _)
        (inner'.startsDense_text rfl _) h
      obtain ⟨rfl, hafter⟩ := ih inner' (follow_close after rest) (follow_close after' rest')
        hinner
      obtain ⟨rfl, hclose⟩ := spaces_append_inj (by simp; decide) (by simp; decide) hafter
      exact ⟨rfl, by simpa using hclose⟩
  | noLink =>
    cases e with
    | noLink => exact ⟨rfl, h⟩
    | link before r after operand more => exact absurd h (ne_link_append hrest)
  | link before r after operand more iho ihm =>
    cases e with
    | noLink => exact absurd h.symm (ne_link_append hrest')
    | link before' r' after' operand' more' =>
      simp only [text, List.append_assoc] at h
      have hdense : ∀ (r : Relation) cs, StartsDense (r.symbol ++ cs) := by
        intro r cs
        cases r <;> simp [Relation.symbol] <;> decide
      obtain ⟨rfl, hsymbol⟩ := spaces_append_inj (hdense r _) (hdense r' _) h
      obtain ⟨rfl, rfl, htext⟩ := symbol_append_inj rfl hsymbol
      obtain ⟨rfl, hmore⟩ := iho operand' (follow_operand_of_links more hrest)
        (follow_operand_of_links more' hrest') htext
      obtain ⟨rfl, hr⟩ := ihm more' hrest hrest' hmore
      exact ⟨rfl, hr⟩
  | comparison first more ihf ihm =>
    cases e with
    | comparison first' more' =>
      simp only [text, List.append_assoc] at h
      obtain ⟨rfl, hmore⟩ := ihf first' (follow_operand_of_links more hrest)
        (follow_operand_of_links more' hrest') h
      obtain ⟨rfl, hr⟩ := ihm more' hrest hrest' hmore
      exact ⟨rfl, hr⟩
  | plain inner ih =>
    cases e with
    | plain inner' =>
      obtain ⟨rfl, hr⟩ := ih inner' hrest hrest' h
      exact ⟨rfl, hr⟩
    | not after inner' =>
      obtain ⟨c, cs, hcs, hc⟩ := inner.exists_opener rfl
      obtain rfl : c = '!' := by simpa [text, hcs] using congrArg List.head? h
      exact absurd hc (by decide)
  | not after inner ih =>
    cases e with
    | plain inner' =>
      obtain ⟨c, cs, hcs, hc⟩ := inner'.exists_opener rfl
      obtain rfl : '!' = c := by simpa [text, hcs] using congrArg List.head? h
      exact absurd hc (by decide)
    | not after' inner' =>
      simp only [text, List.cons_append, List.append_assoc, List.cons.injEq, true_and] at h
      obtain ⟨rfl, hinner⟩ := spaces_append_inj (inner.startsDense_text rfl rest)
        (inner'.startsDense_text rfl rest') h
      obtain ⟨rfl, hr⟩ := ih inner' hrest hrest' hinner
      exact ⟨rfl, hr⟩
  | noConjunct =>
    cases e with
    | noConjunct => exact ⟨rfl, h⟩
    | conjunct before after right more =>
      simp only [text, List.nil_append, List.append_assoc, List.cons_append] at h
      exact absurd h (ne_operator_append (by decide) hrest.2)
  | conjunct before after right more ihr ihm =>
    cases e with
    | noConjunct =>
      simp only [text, List.nil_append, List.append_assoc, List.cons_append] at h
      exact absurd h.symm (ne_operator_append (by decide) hrest'.2)
    | conjunct before' after' right' more' =>
      simp only [text, List.append_assoc, List.cons_append] at h
      obtain ⟨rfl, rfl, htext⟩ := operator_append_inj rfl (by decide) h
      obtain ⟨rfl, hmore⟩ := ihr right' (follow_negation_of_conjuncts more hrest.1)
        (follow_negation_of_conjuncts more' hrest'.1) htext
      obtain ⟨rfl, hr⟩ := ihm more' hrest hrest' hmore
      exact ⟨rfl, hr⟩
  | conjunction first more ihf ihm =>
    cases e with
    | conjunction first' more' =>
      simp only [text, List.append_assoc] at h
      obtain ⟨rfl, hmore⟩ := ihf first' (follow_negation_of_conjuncts more hrest.1)
        (follow_negation_of_conjuncts more' hrest'.1) h
      obtain ⟨rfl, hr⟩ := ihm more' hrest hrest' hmore
      exact ⟨rfl, hr⟩
  | noDisjunct =>
    cases e with
    | noDisjunct => exact ⟨rfl, h⟩
    | disjunct before after right more =>
      simp only [text, List.nil_append, List.append_assoc, List.cons_append] at h
      exact absurd h (ne_operator_append (by decide) hrest.2.2)
  | disjunct before after right more ihr ihm =>
    cases e with
    | noDisjunct =>
      simp only [text, List.nil_append, List.append_assoc, List.cons_append] at h
      exact absurd h.symm (ne_operator_append (by decide) hrest'.2.2)
    | disjunct before' after' right' more' =>
      simp only [text, List.append_assoc, List.cons_append] at h
      obtain ⟨rfl, rfl, htext⟩ := operator_append_inj rfl (by decide) h
      obtain ⟨rfl, hmore⟩ := ihr right'
        (follow_conjunction_of_disjuncts more ⟨hrest.1, hrest.2.1⟩)
        (follow_conjunction_of_disjuncts more' ⟨hrest'.1, hrest'.2.1⟩) htext
      obtain ⟨rfl, hr⟩ := ihm more' hrest hrest' hmore
      exact ⟨rfl, hr⟩
  | disjunction first more ihf ihm =>
    cases e with
    | disjunction first' more' =>
      simp only [text, List.append_assoc] at h
      obtain ⟨rfl, hmore⟩ := ihf first'
        (follow_conjunction_of_disjuncts more ⟨hrest.1, hrest.2.1⟩)
        (follow_conjunction_of_disjuncts more' ⟨hrest'.1, hrest'.2.1⟩) h
      obtain ⟨rfl, hr⟩ := ihm more' hrest hrest' hmore
      exact ⟨rfl, hr⟩

/-- A derivation is determined by its text. -/
theorem text_injective {k : Category} (d e : Derivation k) (h : d.text = e.text) : d = e :=
  (text_append_inj d e (follow_nil k) (follow_nil k) (by simp [h])).1

end Derivation
end Guard
end TimedAutomata
