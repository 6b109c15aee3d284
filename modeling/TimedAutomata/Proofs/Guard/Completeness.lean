import TimedAutomata.Proofs.Guard.Verdict

/-!
# Whatever the grammar derives is read

A derived text is read to its end, whatever stands behind it, provided that this cannot be taken
for a continuation. What the reader makes of the text is what the derivation stands for.

* `Follow k rest`: a text of category `k` in front of `rest` ends there
* `Derivation.height_le_depthBound`: the depth that `meaning?` provides is enough
* `Reads n d rest`: at depth `n`, the text of `d` is read in front of `rest`, with a verdict that
  agrees with `d`
* `reads`: every derivation is read
-/

namespace TimedAutomata
namespace Guard

open Grammar

/-! ## First characters -/

/-- The categories of starred groups, which derive the empty text. -/
def Category.starred : Category → Bool
  | .links | .conjuncts | .disjuncts => true
  | _ => false

/-- The characters that a text of a category can start with. -/
def Category.opens : Category → Char → Bool
  | .operand, c | .comparison, c => isWordChar c || c == '('
  | .negation, c | .conjunction, c | .disjunction, c => isWordChar c || c == '(' || c == '!'
  | .links, _ | .conjuncts, _ | .disjuncts, _ => false

namespace Derivation

theorem isWord_clock : IsWord ['x'] := by
  decide

theorem isWord_constText (b : Bool) : IsWord (constText b) := by
  cases b <;> decide

theorem isWord_digits (digits : Digits) : IsWord digits.chars := by
  refine ⟨digits.nonempty, ?_⟩
  intro c hc
  simp [isWordChar, Char.isAlphanum, digits.decimal c hc]

/-- A text that is no starred group starts with a character that opens its category. -/
theorem exists_opener {k : Category} (d : Derivation k) (hk : k.starred = false) :
    ∃ c cs, d.text = c :: cs ∧ k.opens c = true := by
  induction d with
  | clock => exact ⟨'x', [], rfl, by decide⟩
  | number digits =>
    obtain ⟨hne, hall⟩ := isWord_digits digits
    obtain ⟨c, cs, hcs⟩ := List.exists_cons_of_ne_nil hne
    exact ⟨c, cs, hcs, by simp [Category.opens, hall c (by simp [hcs])]⟩
  | const b =>
    obtain ⟨hne, hall⟩ := isWord_constText b
    obtain ⟨c, cs, hcs⟩ := List.exists_cons_of_ne_nil hne
    exact ⟨c, cs, hcs, by simp [Category.opens, hall c (by simp [hcs])]⟩
  | paren before inner after _ => exact ⟨'(', _, rfl, by decide⟩
  | not after inner _ => exact ⟨'!', _, rfl, by decide⟩
  | noLink | link | noConjunct | conjunct | noDisjunct | disjunct =>
    simp [Category.starred] at hk
  | comparison first more ih _ =>
    obtain ⟨c, cs, hcs, hc⟩ := ih rfl
    exact ⟨c, cs ++ more.text, by simp [text, hcs], hc⟩
  | plain inner ih =>
    obtain ⟨c, cs, hcs, hc⟩ := ih rfl
    refine ⟨c, cs, by simp [text, hcs], ?_⟩
    simp only [Category.opens] at hc ⊢
    simp [hc]
  | conjunction first more ih _ =>
    obtain ⟨c, cs, hcs, hc⟩ := ih rfl
    exact ⟨c, cs ++ more.text, by simp [text, hcs], hc⟩
  | disjunction first more ih _ =>
    obtain ⟨c, cs, hcs, hc⟩ := ih rfl
    exact ⟨c, cs ++ more.text, by simp [text, hcs], hc⟩

theorem opener_cases {k : Category} {c : Char} (h : k.opens c = true) :
    isWordChar c = true ∨ c = '(' ∨ c = '!' := by
  cases k <;> simp only [Category.opens, Bool.or_eq_true, beq_iff_eq, reduceCtorEq] at h <;> grind

theorem isBlank_of_opens {k : Category} {c : Char} (h : k.opens c = true) :
    Text.isBlank c = false := by
  rcases opener_cases h with hword | rfl | rfl
  · exact isBlank_of_isWordChar hword
  · decide
  · decide

theorem isSpace_of_opens {k : Category} {c : Char} (h : k.opens c = true) : isSpace c = false := by
  cases hc : isSpace c with
  | false => rfl
  | true =>
    have hblank := isBlank_of_opens h
    simp [isBlank_of_isSpace hc] at hblank

theorem ne_equals_of_opens {k : Category} {c : Char} (h : k.opens c = true) : c ≠ '=' := by
  rintro rfl
  cases k <;> revert h <;> decide

theorem startsDense_text {k : Category} (d : Derivation k) (hk : k.starred = false)
    (rest : List Char) : StartsDense (d.text ++ rest) := by
  obtain ⟨c, cs, hcs, hc⟩ := d.exists_opener hk
  simpa [hcs] using isSpace_of_opens hc

/-- The separators of a derivation end where its next piece starts. -/
theorem skipSpaces_text {k : Category} (s : Spaces) (d : Derivation k) (hk : k.starred = false)
    (rest : List Char) : skipSpaces (s.chars ++ (d.text ++ rest)) = d.text ++ rest :=
  skipSpaces_append_dense s (d.startsDense_text hk rest)

theorem endsWord_symbol (r : Relation) (rest : List Char) : EndsWord (r.symbol ++ rest) := by
  cases r <;> simp [Relation.symbol] <;> decide

/-- A starred group does not continue the word before it. -/
theorem endsWord_text {k : Category} (d : Derivation k) (hk : k.starred = true)
    {rest : List Char} (h : EndsWord rest) : EndsWord (d.text ++ rest) := by
  cases d with
  | noLink | noConjunct | noDisjunct => simpa [text] using h
  | link before r after operand more =>
    simpa [text] using endsWord_spaces_append before
      (endsWord_symbol r (after.chars ++ (operand.text ++ (more.text ++ rest))))
  | conjunct before after right more =>
    have hop : EndsWord ('&' :: '&' :: (after.chars ++ (right.text ++ (more.text ++ rest)))) := by
      simp only [endsWord_cons]
      decide
    simpa [text] using endsWord_spaces_append before hop
  | disjunct before after right more =>
    have hop : EndsWord ('|' :: '|' :: (after.chars ++ (right.text ++ (more.text ++ rest)))) := by
      simp only [endsWord_cons]
      decide
    simpa [text] using endsWord_spaces_append before hop
  | clock | number | const | paren | comparison | plain | not | conjunction | disjunction =>
    simp [Category.starred] at hk

end Derivation

/-! ## What can follow -/

/-- No relation, and no word, continues the text in front of `rest`. -/
def EndsChain (rest : List Char) : Prop :=
  EndsWord rest ∧ relation? (skipSpaces rest) = none

/-- A text of the category in front of `rest` ends there. -/
def Follow : Category → List Char → Prop
  | .operand, rest => EndsWord rest
  | .links, rest | .comparison, rest | .negation, rest => EndsChain rest
  | .conjuncts, rest | .conjunction, rest =>
    EndsChain rest ∧ literal? ['&', '&'] (skipSpaces rest) = none
  | .disjuncts, rest | .disjunction, rest =>
    EndsChain rest ∧ literal? ['&', '&'] (skipSpaces rest) = none ∧
      literal? ['|', '|'] (skipSpaces rest) = none

theorem follow_nil (k : Category) : Follow k [] := by
  cases k <;> simp [Follow, EndsChain, relation?, literal?]

/-- Behind the separators before `c`, nothing continues if `c` itself does not. -/
theorem endsChain_spaces_cons (s : Spaces) (c : Char) (rest : List Char)
    (hs : isSpace c = false) (hw : isWordChar c = false) (hr : relation? (c :: rest) = none) :
    EndsChain (s.chars ++ c :: rest) := by
  refine ⟨endsWord_spaces_append s (by simpa using hw), ?_⟩
  rw [skipSpaces_append_dense s (by simpa using hs)]
  exact hr

theorem follow_close (s : Spaces) (rest : List Char) :
    Follow .disjunction (s.chars ++ ')' :: rest) := by
  have hskip : skipSpaces (s.chars ++ ')' :: rest) = ')' :: rest :=
    skipSpaces_append_dense s (by simp; decide)
  refine ⟨endsChain_spaces_cons s ')' rest (by decide) (by decide) rfl, ?_, ?_⟩ <;>
    · rw [hskip]
      simp [literal?]

theorem follow_negation_of_conjuncts (d : Derivation .conjuncts) {rest : List Char}
    (h : EndsChain rest) : Follow .negation (d.text ++ rest) := by
  cases d with
  | noConjunct => exact h
  | conjunct before after right more =>
    have hends := endsChain_spaces_cons before '&'
      ('&' :: (after.chars ++ (right.text ++ (more.text ++ rest)))) (by decide) (by decide) rfl
    simpa [Derivation.text, Follow] using hends

theorem follow_conjunction_of_disjuncts (d : Derivation .disjuncts) {rest : List Char}
    (h : Follow .conjunction rest) : Follow .conjunction (d.text ++ rest) := by
  cases d with
  | noDisjunct => exact h
  | disjunct before after right more =>
    have hop : skipSpaces (before.chars ++
        '|' :: '|' :: (after.chars ++ (right.text ++ (more.text ++ rest)))) =
        '|' :: '|' :: (after.chars ++ (right.text ++ (more.text ++ rest))) :=
      skipSpaces_append_dense before (by simp; decide)
    have hends := endsChain_spaces_cons before '|'
      ('|' :: (after.chars ++ (right.text ++ (more.text ++ rest)))) (by decide) (by decide) rfl
    refine ⟨by simpa [Derivation.text] using hends, ?_⟩
    simp [Derivation.text, hop, literal?]

/-! ## Depth -/

namespace Derivation

/-- How deep the readers nest on a derived text. -/
def height : {k : Category} → Derivation k → Nat
  | _, .clock => 1
  | _, .number _ => 1
  | _, .const _ => 1
  | _, .paren _ inner _ => inner.height + 1
  | _, .noLink => 0
  | _, .link _ _ _ operand more => max operand.height more.height
  | _, .comparison first more => max first.height more.height + 1
  | _, .plain inner => inner.height + 1
  | _, .not _ inner => inner.height + 1
  | _, .noConjunct => 0
  | _, .conjunct _ _ right more => max right.height more.height
  | _, .conjunction first more => max first.height more.height
  | _, .noDisjunct => 0
  | _, .disjunct _ _ right more => max right.height more.height
  | _, .disjunction first more => max first.height more.height + 1

end Derivation

/-- The number of readers that a text passes through from `expression?` down to the category
without growing shorter. -/
def Category.slack : Category → Nat
  | .operand => 3
  | .comparison => 2
  | .negation | .conjunction => 1
  | .links | .conjuncts | .disjuncts | .disjunction => 0

namespace Derivation

theorem length_pos {k : Category} (d : Derivation k) (hk : k.starred = false) :
    0 < d.text.length := by
  obtain ⟨c, cs, hcs, -⟩ := d.exists_opener hk
  simp [hcs]

theorem height_add_slack_le {k : Category} (d : Derivation k) :
    d.height + k.slack ≤ 4 * d.text.length := by
  induction d with
  | clock => simp [height, text, Category.slack]
  | number digits =>
    have hpos : 0 < (Derivation.number digits).text.length := length_pos _ rfl
    simp only [height, text, Category.slack] at hpos ⊢
    omega
  | const b => cases b <;> simp [height, text, constText, Category.slack]
  | paren before inner after ih =>
    simp only [height, text, Category.slack, List.length_cons, List.length_append] at ih ⊢
    omega
  | noLink | noConjunct | noDisjunct => simp [height, Category.slack]
  | link before r after operand more iho ihm =>
    have hr : 0 < r.symbol.length := by cases r <;> simp [Relation.symbol]
    simp only [height, text, Category.slack, List.length_append] at iho ihm ⊢
    omega
  | comparison first more ihf ihm =>
    have hpos := first.length_pos rfl
    simp only [height, text, Category.slack, List.length_append] at ihf ihm ⊢
    omega
  | plain inner ih =>
    simp only [height, text, Category.slack] at ih ⊢
    omega
  | not after inner ih =>
    simp only [height, text, Category.slack, List.length_cons, List.length_append] at ih ⊢
    omega
  | conjunct before after right more ihr ihm | disjunct before after right more ihr ihm =>
    simp only [height, text, Category.slack, List.length_cons, List.length_append] at ihr ihm ⊢
    omega
  | conjunction first more ihf ihm | disjunction first more ihf ihm =>
    have hpos := first.length_pos rfl
    simp only [height, text, Category.slack, List.length_append] at ihf ihm ⊢
    omega

theorem height_le_depthBound (d : Derivation .disjunction) : d.height ≤ depthBound d.text := by
  have h := d.height_add_slack_le
  simp only [Category.slack, depthBound] at h ⊢
  omega

end Derivation

/-! ## Reading derived texts -/

/-- With a limit of at least `need`, the further factors of a sequence are read from `rest` as
`tail`, up to `finish`. -/
def Continues (n need : Nat) (rest : List Char) (tail : Further Fault) (finish : List Char) :
    Prop :=
  ∀ limit, need ≤ limit → behind join? (factor? n) limit rest = (tail, finish)

/-- At depth `n`, the reader of a category takes the derived text in front of `rest`, and its
verdict agrees with the derivation. Conjuncts and conjunctions have no reader of their own: their
factors stand in a flat sequence, in front of those that are read from `rest`. -/
def Reads (n : Nat) : {k : Category} → Derivation k → (rest : List Char) → Prop
  | .operand, d, rest => ∃ r, operand? n (d.text ++ rest) = some (r, rest) ∧ Agrees d r
  | .links, d, rest => ∃ read,
      (∀ limit, d.text.length ≤ limit →
        behind relation? (operand? n) limit (d.text ++ rest) = (read, rest)) ∧ LinksAgree d read
  | .comparison, d, rest => ∃ r, comparison? n (d.text ++ rest) = some (r, rest) ∧ Agrees d r
  | .negation, d, rest => ∃ factor : Factor Fault,
      factor? n (d.text ++ rest) = some (factor, rest) ∧ Agrees d factor.value
  | .conjuncts, d, rest => ∃ factors : List (Factor Fault),
      (∀ {need tail finish}, Continues n need rest tail finish →
        Continues n (d.text.length + need) (d.text ++ rest)
          (factors.map (fun factor => (.and, factor)) ++ tail) finish) ∧
      ∀ left, JoinAgrees .and left d.elaborate d.Bounded (conjoined left factors)
  | .conjunction, d, rest => ∃ (g : Group Fault) (mid : List Char),
      factor? n (d.text ++ rest) = some (g.first, mid ++ rest) ∧ mid.length ≤ d.text.length ∧
      (∀ {need tail finish}, Continues n need rest tail finish →
        Continues n (mid.length + need) (mid ++ rest) (g.tail ++ tail) finish) ∧
      Agrees d g.value
  | .disjuncts, d, rest => ∃ groups : List (Group Fault),
      Continues n d.text.length (d.text ++ rest) (groups.flatMap Group.further) rest ∧
      ∀ left, JoinAgrees .or left d.elaborate d.Bounded (disjoined left groups)
  | .disjunction, d, rest => ∃ r, expression? n (d.text ++ rest) = some (r, rest) ∧ Agrees d r

/-! ### Items behind operators -/

section Behind

variable {σ τ : Type} {operator? : List Char → Option (σ × List Char)}
  {item? : List Char → Option (τ × List Char)} {cs after mid : List Char}

theorem behind_of_none (h : operator? (skipSpaces cs) = none) (limit : Nat) :
    behind operator? item? limit cs = ([], cs) := by
  cases limit with
  | zero => rfl
  | succ limit => simp [behind, h]

theorem behind_succ {operator : σ} {item : τ}
    (hop : operator? (skipSpaces cs) = some (operator, after))
    (hitem : item? (skipSpaces after) = some (item, mid)) (limit : Nat) :
    behind operator? item? (limit + 1) cs =
      ((operator, item) :: (behind operator? item? limit mid).1,
        (behind operator? item? limit mid).2) := by
  simp [behind, hop, hitem]

end Behind

/-! ### Operands -/

theorem operand?_word_append {w rest : List Char} {r : Except Fault Operand} (hw : IsWord w)
    (hrest : EndsWord rest) (hop : wordOperand? w = some r) (n : Nat) :
    operand? (n + 1) (w ++ rest) = some (r, rest) := by
  have hparen : ∀ cs, w ++ rest = '(' :: cs → False := by
    intro cs hcs
    obtain ⟨c, w', rfl⟩ := List.exists_cons_of_ne_nil hw.1
    have hc : c = '(' := by simpa using congrArg List.head? hcs
    have hword := hw.2 c (by simp)
    rw [hc] at hword
    exact absurd hword (by decide)
  rw [operand?.eq_3 _ _ hparen]
  simp [word?_append hw hrest, hop]

theorem wordOperand?_digits (digits : Digits) :
    wordOperand? digits.chars = some (numberOperand digits.chars) := by
  have hx : digits.chars ≠ ['x'] := by
    intro h
    exact absurd (digits.decimal 'x' (by simp [h])) (by decide)
  have hall : digits.chars.all Char.isDigit = true := by simpa using digits.decimal
  simp [wordOperand?, hx, hall]

theorem wordOperand?_const (b : Bool) :
    wordOperand? (Derivation.constText b) = some (.ok (.condition (.const b))) := by
  cases b <;> rfl

theorem reads_paren {before after : Spaces} {inner : Derivation .disjunction} {n : Nat}
    (rest : List Char) (ih : Reads n inner (after.chars ++ ')' :: rest)) :
    Reads (n + 1) (.paren before inner after) rest := by
  obtain ⟨r, hr, hagrees⟩ := ih
  refine ⟨r.map .condition, ?_, hagrees.paren before after⟩
  have hskip := Derivation.skipSpaces_text before inner rfl (after.chars ++ ')' :: rest)
  have hclose : skipSpaces (after.chars ++ ')' :: rest) = ')' :: rest :=
    skipSpaces_append_dense after (by simp; decide)
  simp [Derivation.text, operand?, hskip, hr, hclose, literal?]

/-! ### Chains -/

theorem relation?_symbol_append (r : Relation) {rest : List Char} (h : rest.head? ≠ some '=') :
    relation? (r.symbol ++ rest) = some (r, rest) := by
  cases r <;> cases rest <;> simp_all [Relation.symbol, relation?]

theorem relation?_symbol_text {k : Category} (r : Relation) (s : Spaces) (d : Derivation k)
    (hk : k.starred = false) (rest : List Char) :
    relation? (r.symbol ++ (s.chars ++ (d.text ++ rest))) =
      some (r, s.chars ++ (d.text ++ rest)) := by
  refine relation?_symbol_append r ?_
  cases hs : s.chars with
  | nil =>
    obtain ⟨c, cs, hcs, hc⟩ := d.exists_opener hk
    simpa [hcs] using Derivation.ne_equals_of_opens hc
  | cons c cs =>
    have hc : isSpace c = true := s.separate c (by simp [hs])
    rintro heq
    obtain rfl : c = '=' := by simpa using heq
    exact absurd hc (by decide)

theorem reads_noLink (n : Nat) {rest : List Char} (h : EndsChain rest) :
    Reads n .noLink rest :=
  ⟨[], fun limit _ => behind_of_none h.2 limit, by rw [LinksAgree]⟩

theorem reads_link {before after : Spaces} {r : Relation} {operand : Derivation .operand}
    {more : Derivation .links} {n : Nat} {rest : List Char}
    (iho : Reads n operand (more.text ++ rest)) (ihm : Reads n more rest) :
    Reads n (.link before r after operand more) rest := by
  obtain ⟨o, ho, hoperand⟩ := iho
  obtain ⟨read, hread, hmore⟩ := ihm
  refine ⟨(r, o) :: read, ?_, ?_⟩
  · intro limit hlimit
    simp only [Derivation.text, List.length_append] at hlimit
    have hpos := operand.length_pos rfl
    obtain ⟨limit, rfl⟩ : ∃ k, limit = k + 1 := ⟨limit - 1, by omega⟩
    have hrel : relation? (skipSpaces (before.chars ++
        (r.symbol ++ (after.chars ++ (operand.text ++ (more.text ++ rest)))))) =
        some (r, after.chars ++ (operand.text ++ (more.text ++ rest))) := by
      rw [skipSpaces_append_dense before (by cases r <;> simp [Relation.symbol] <;> decide)]
      exact relation?_symbol_text r after operand rfl (more.text ++ rest)
    have hitem : operand? n (skipSpaces (after.chars ++ (operand.text ++ (more.text ++ rest)))) =
        some (o, more.text ++ rest) := by
      rw [Derivation.skipSpaces_text after operand rfl]
      exact ho
    simp only [Derivation.text, List.append_assoc]
    rw [behind_succ hrel hitem, hread limit (by omega)]
  · rw [LinksAgree]
    exact ⟨o, read, rfl, hoperand, hmore⟩

theorem reads_comparison {first : Derivation .operand} {more : Derivation .links} {n : Nat}
    {rest : List Char} (ihf : Reads n first (more.text ++ rest)) (ihm : Reads n more rest) :
    Reads (n + 1) (.comparison first more) rest := by
  obtain ⟨o, ho, hfirst⟩ := ihf
  obtain ⟨read, hread, hmore⟩ := ihm
  refine ⟨comparison (first.text ++ more.text) o read, ?_, hfirst.comparison hmore _⟩
  have htext : (first.text ++ (more.text ++ rest)).take
      ((first.text ++ (more.text ++ rest)).length - rest.length) = first.text ++ more.text := by
    rw [← List.append_assoc, List.length_append, Nat.add_sub_cancel, List.take_left]
  have hlinks := hread (more.text ++ rest).length (by simp)
  simp only [Derivation.text, List.append_assoc, comparison?, ho, hlinks, htext,
    Option.bind_eq_bind, Option.bind_some]
  rfl

/-! ### Negations -/

theorem reads_plain {inner : Derivation .comparison} {n : Nat} {rest : List Char}
    (ih : Reads n inner rest) : Reads (n + 1) (.plain inner) rest := by
  obtain ⟨r, hr, hagrees⟩ := ih
  refine ⟨⟨0, r⟩, ?_, hagrees⟩
  have hhead : ∀ cs, inner.text ++ rest = '!' :: cs → False := by
    intro cs hcs
    obtain ⟨c, ds, hds, hc⟩ := inner.exists_opener rfl
    obtain rfl : c = '!' := by simpa [hds] using congrArg List.head? hcs
    exact absurd hc (by decide)
  simp only [Derivation.text]
  rw [factor?.eq_4 _ _ (fun tail htail => hhead _ htail) hhead, hr]
  rfl

theorem reads_not {after : Spaces} {inner : Derivation .negation} {n : Nat} {rest : List Char}
    (ih : Reads n inner rest) : Reads (n + 1) (.not after inner) rest := by
  obtain ⟨factor, hfactor, hagrees⟩ := ih
  refine ⟨⟨factor.nots + 1, factor.operand⟩, ?_, hagrees.not after⟩
  -- the `!` is not the start of `!=`
  have hequals : ∀ tail, after.chars ++ (inner.text ++ rest) = '=' :: tail → False := by
    intro tail htail
    have hword := Derivation.skipSpaces_text after inner rfl rest
    rw [htail, skipSpaces_of_startsDense (by simp; decide)] at hword
    obtain ⟨c, cs, hcs, hc⟩ := inner.exists_opener rfl
    obtain rfl : '=' = c := by simpa [hcs] using congrArg List.head? hword
    exact Derivation.ne_equals_of_opens hc rfl
  have hskip := Derivation.skipSpaces_text after inner rfl rest
  simp only [Derivation.text, List.cons_append, List.append_assoc]
  rw [factor?.eq_3 _ _ hequals, hskip, hfactor]
  rfl

/-! ### Conjunctions and disjunctions -/

theorem join?_symbol_append (join : Join) (cs : List Char) :
    join? (join.symbol ++ cs) = some (join, cs) := by
  cases join <;> simp [join?, Join.symbol, literal?]

theorem join?_eq_none {cs : List Char} (hand : literal? ['&', '&'] cs = none)
    (hor : literal? ['|', '|'] cs = none) : join? cs = none := by
  simp [join?, Join.symbol, hand, hor]

namespace Continues

variable {n need : Nat} {rest finish : List Char} {tail : Further Fault}

theorem mono (h : Continues n need rest tail finish) {need' : Nat} (hle : need ≤ need') :
    Continues n need' rest tail finish :=
  fun limit hlimit => h limit (Nat.le_trans hle hlimit)

theorem stop (n : Nat) (h : join? (skipSpaces rest) = none) : Continues n 0 rest [] rest :=
  fun limit _ => behind_of_none h limit

/-- One more factor, the first that is read from the text of `d`. -/
theorem cons {k : Category} {d : Derivation k} (hk : k.starred = false) {factor : Factor Fault}
    {cs : List Char} (h : Continues n need rest tail finish)
    (hfactor : factor? n (d.text ++ cs) = some (factor, rest)) (before after : Spaces)
    (join : Join) :
    Continues n (need + 1) (before.chars ++ (join.symbol ++ (after.chars ++ (d.text ++ cs))))
      ((join, factor) :: tail) finish := by
  intro limit hlimit
  obtain ⟨limit, rfl⟩ : ∃ k, limit = k + 1 := ⟨limit - 1, by omega⟩
  have hjoin : join? (skipSpaces (before.chars ++
      (join.symbol ++ (after.chars ++ (d.text ++ cs))))) =
      some (join, after.chars ++ (d.text ++ cs)) := by
    rw [skipSpaces_append_dense before (by cases join <;> simp [Join.symbol] <;> decide)]
    exact join?_symbol_append join _
  have hitem : factor? n (skipSpaces (after.chars ++ (d.text ++ cs))) = some (factor, rest) := by
    rw [Derivation.skipSpaces_text after d hk]
    exact hfactor
  rw [behind_succ hjoin hitem, h limit (by omega)]

end Continues

theorem reads_noConjunct (n : Nat) (rest : List Char) : Reads n .noConjunct rest := by
  refine ⟨[], ?_, fun left => joinAgrees_nil .and left⟩
  intro need tail finish h
  simpa [Derivation.text] using h

theorem reads_conjunct {before after : Spaces} {right : Derivation .negation}
    {more : Derivation .conjuncts} {n : Nat} {rest : List Char}
    (ihr : Reads n right (more.text ++ rest)) (ihm : Reads n more rest) :
    Reads n (.conjunct before after right more) rest := by
  obtain ⟨factor, hfactor, hright⟩ := ihr
  obtain ⟨factors, hfactors, hmore⟩ := ihm
  refine ⟨factor :: factors, ?_, fun left => (hmore (both .and left factor.value)).cons hright⟩
  intro need tail finish h
  have hlength : more.text.length + need + 1 ≤
      (Derivation.conjunct before after right more).text.length + need := by
    simp only [Derivation.text, List.length_append, List.length_cons]
    omega
  have hcons := ((hfactors h).cons rfl hfactor before after .and).mono hlength
  simpa [Derivation.text, Join.symbol] using hcons

theorem reads_conjunction {first : Derivation .negation} {more : Derivation .conjuncts} {n : Nat}
    {rest : List Char} (ihf : Reads n first (more.text ++ rest)) (ihm : Reads n more rest) :
    Reads n (.conjunction first more) rest := by
  obtain ⟨factor, hfactor, hfirst⟩ := ihf
  obtain ⟨factors, hfactors, hmore⟩ := ihm
  refine ⟨⟨factor, factors⟩, more.text, ?_, ?_, hfactors, (hmore factor.value).whole hfirst⟩
  · simpa [Derivation.text] using hfactor
  · simp [Derivation.text]

theorem reads_noDisjunct (n : Nat) {rest : List Char} (h : Follow .disjuncts rest) :
    Reads n .noDisjunct rest :=
  ⟨[], Continues.stop n (join?_eq_none h.2.1 h.2.2), fun left => joinAgrees_nil .or left⟩

theorem reads_disjunct {before after : Spaces} {right : Derivation .conjunction}
    {more : Derivation .disjuncts} {n : Nat} {rest : List Char}
    (ihr : Reads n right (more.text ++ rest)) (ihm : Reads n more rest) :
    Reads n (.disjunct before after right more) rest := by
  obtain ⟨g, mid, hfirst, hmid, hgroup, hright⟩ := ihr
  obtain ⟨groups, hgroups, hmore⟩ := ihm
  refine ⟨g :: groups, ?_, fun left => (hmore (both .or left g.value)).cons hright⟩
  have hlength : mid.length + more.text.length + 1 ≤
      (Derivation.disjunct before after right more).text.length := by
    simp only [Derivation.text, List.length_append, List.length_cons]
    omega
  have hcons := ((hgroup hgroups).cons rfl hfirst before after .or).mono hlength
  simpa [Derivation.text, Join.symbol, Group.further] using hcons

theorem reads_disjunction {first : Derivation .conjunction} {more : Derivation .disjuncts}
    {n : Nat} {rest : List Char} (ihf : Reads n first (more.text ++ rest))
    (ihm : Reads n more rest) : Reads (n + 1) (.disjunction first more) rest := by
  obtain ⟨g, mid, hfirst, -, hgroup, hagrees⟩ := ihf
  obtain ⟨groups, hgroups, hmore⟩ := ihm
  refine ⟨disjoined g.value groups, ?_, (hmore g.value).whole hagrees⟩
  -- what was read is the flat sequence of `g` and `groups`
  have hfurther := hgroup hgroups (mid ++ (more.text ++ rest)).length (by simp)
  simp only [Derivation.text, List.append_assoc, expression?, hfirst, hfurther, grouped_eq,
    Option.bind_eq_bind, Option.bind_some]
  rfl

/-! ### All derivations -/

theorem follow_operand_of_links (d : Derivation .links) {rest : List Char} (h : EndsChain rest) :
    Follow .operand (d.text ++ rest) :=
  d.endsWord_text rfl h.1

theorem exists_succ_of_succ_le {a n : Nat} (h : a + 1 ≤ n) : ∃ m, n = m + 1 ∧ a ≤ m :=
  ⟨n - 1, by omega, by omega⟩

/-- A derived text is read. Each reader hands the pieces of the text to the readers of the pieces,
and none of these can go on past its piece. -/
theorem reads {k : Category} (d : Derivation k) {n : Nat} {rest : List Char} (hn : d.height ≤ n)
    (hrest : Follow k rest) : Reads n d rest := by
  induction d generalizing n rest with
  | clock =>
    obtain ⟨m, rfl, -⟩ := exists_succ_of_succ_le hn
    exact ⟨_, operand?_word_append Derivation.isWord_clock hrest rfl m, agrees_clock⟩
  | number digits =>
    obtain ⟨m, rfl, -⟩ := exists_succ_of_succ_le hn
    exact ⟨_, operand?_word_append (Derivation.isWord_digits digits) hrest
      (wordOperand?_digits digits) m, agrees_number digits⟩
  | const b =>
    obtain ⟨m, rfl, -⟩ := exists_succ_of_succ_le hn
    exact ⟨_, operand?_word_append (Derivation.isWord_constText b) hrest (wordOperand?_const b) m,
      agrees_const b⟩
  | paren before inner after ih =>
    obtain ⟨m, rfl, hm⟩ := exists_succ_of_succ_le hn
    exact reads_paren rest (ih hm (follow_close after rest))
  | noLink => exact reads_noLink n hrest
  | link before r after operand more iho ihm =>
    obtain ⟨hoperand, hmore⟩ := Nat.max_le.1 hn
    exact reads_link (iho hoperand (follow_operand_of_links more hrest)) (ihm hmore hrest)
  | comparison first more ihf ihm =>
    obtain ⟨m, rfl, hm⟩ := exists_succ_of_succ_le hn
    obtain ⟨hfirst, hmore⟩ := Nat.max_le.1 hm
    exact reads_comparison (ihf hfirst (follow_operand_of_links more hrest)) (ihm hmore hrest)
  | plain inner ih =>
    obtain ⟨m, rfl, hm⟩ := exists_succ_of_succ_le hn
    exact reads_plain (ih hm hrest)
  | not after inner ih =>
    obtain ⟨m, rfl, hm⟩ := exists_succ_of_succ_le hn
    exact reads_not (ih hm hrest)
  | noConjunct => exact reads_noConjunct n rest
  | conjunct before after right more ihr ihm =>
    obtain ⟨hright, hmore⟩ := Nat.max_le.1 hn
    exact reads_conjunct (ihr hright (follow_negation_of_conjuncts more hrest.1))
      (ihm hmore hrest)
  | conjunction first more ihf ihm =>
    obtain ⟨hfirst, hmore⟩ := Nat.max_le.1 hn
    exact reads_conjunction (ihf hfirst (follow_negation_of_conjuncts more hrest.1))
      (ihm hmore hrest)
  | noDisjunct => exact reads_noDisjunct n hrest
  | disjunct before after right more ihr ihm =>
    obtain ⟨hright, hmore⟩ := Nat.max_le.1 hn
    exact reads_disjunct (ihr hright (follow_conjunction_of_disjuncts more ⟨hrest.1, hrest.2.1⟩))
      (ihm hmore hrest)
  | disjunction first more ihf ihm =>
    obtain ⟨m, rfl, hm⟩ := exists_succ_of_succ_le hn
    obtain ⟨hfirst, hmore⟩ := Nat.max_le.1 hm
    exact reads_disjunction
      (ihf hfirst (follow_conjunction_of_disjuncts more ⟨hrest.1, hrest.2.1⟩)) (ihm hmore hrest)

/-- A derived text has the shape of a guard, and its verdict agrees with the derivation. -/
theorem exists_meaning?_text (d : Derivation .disjunction) :
    ∃ r, meaning? d.text = some r ∧ Agrees d r := by
  obtain ⟨r, hr, hagrees⟩ := reads d d.height_le_depthBound (follow_nil .disjunction)
  refine ⟨r, ?_, hagrees⟩
  rw [List.append_nil] at hr
  simp [meaning?, hr]

end Guard
end TimedAutomata
