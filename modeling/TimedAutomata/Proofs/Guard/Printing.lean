import TimedAutomata.Proofs.Guard.Reading

/-!
# Printed guards are derived by the grammar

The printer writes parentheses by precedence and by the side of a binary operator. The text it
writes has a derivation that stands for the printed guard, whatever surrounds it.

* `Expr.Bounded`: all numbers fit the clock
* `Expr.forms`: the derivations of a guard as an operand of `!`, `&&` and `||`
* `Expr.derivation`: the derivation of the canonical text
* `read_chars`: the canonical text is read as the guard it was printed from
* `read_text_exactly`: it is, unless a number does not fit the clock
-/

namespace TimedAutomata

open Grammar

/-! ## Bounded guards -/

/-- The clock, or a number that fits it. -/
def Term.Bounded : Term → Prop
  | .clock => True
  | .number n => n ≤ 2 ^ 63 - 1

/-- The number that a term mentions. -/
def Term.numbers : Term → List Nat
  | .clock => []
  | .number n => [n]

theorem Term.bounded_iff_numbers (t : Term) : t.Bounded ↔ ∀ n ∈ t.numbers, n ≤ 2 ^ 63 - 1 := by
  cases t <;> simp [Bounded, numbers]

namespace Guard

/-- All numbers fit the clock. -/
def Expr.Bounded : Expr → Prop
  | .const _ => True
  | .compare _ left right => left.Bounded ∧ right.Bounded
  | .not inner => inner.Bounded
  | .and left right => left.Bounded ∧ right.Bounded
  | .or left right => left.Bounded ∧ right.Bounded

namespace Derivation

theorem bounded_term? {d : Derivation .operand} {t : Term} (h : d.term? = some t)
    (hd : d.Bounded) : t.Bounded := by
  cases d with
  | clock =>
    obtain rfl := Option.some.inj h
    trivial
  | number digits =>
    obtain rfl := Option.some.inj h
    exact hd
  | const | paren => simp [term?] at h

/-- What a bounded derivation stands for is bounded. -/
def Fits : {k : Category} → k.Result → Prop
  | .operand, .term t => t.Bounded
  | .operand, .condition e => e.Bounded
  | .links, links => ∀ x ∈ links, x.2.Bounded
  | .conjuncts, es => ∀ e ∈ es, e.Bounded
  | .disjuncts, es => ∀ e ∈ es, e.Bounded
  | .comparison, e => e.Bounded
  | .negation, e => e.Bounded
  | .conjunction, e => e.Bounded
  | .disjunction, e => e.Bounded

theorem bounded_foldl_and {e : Expr} {es : List Expr} (he : e.Bounded)
    (hes : ∀ e' ∈ es, e'.Bounded) : (es.foldl .and e).Bounded := by
  induction es generalizing e with
  | nil => exact he
  | cons e' es ih =>
    exact ih ⟨he, hes e' (by simp)⟩ fun x hx => hes x (List.mem_cons_of_mem e' hx)

theorem bounded_foldl_or {e : Expr} {es : List Expr} (he : e.Bounded)
    (hes : ∀ e' ∈ es, e'.Bounded) : (es.foldl .or e).Bounded := by
  induction es generalizing e with
  | nil => exact he
  | cons e' es ih =>
    exact ih ⟨he, hes e' (by simp)⟩ fun x hx => hes x (List.mem_cons_of_mem e' hx)

theorem bounded_neighbours {left : Term} {links : List (Relation × Term)} (hleft : left.Bounded)
    (hlinks : ∀ x ∈ links, x.2.Bounded) : ∀ e ∈ neighbours left links, e.Bounded := by
  induction links generalizing left with
  | nil => simp [neighbours]
  | cons link links ih =>
    obtain ⟨r, right⟩ := link
    have hright : right.Bounded := hlinks (r, right) (by simp)
    intro e he
    simp only [neighbours, List.mem_cons] at he
    rcases he with rfl | he
    · exact ⟨hleft, hright⟩
    · exact ih hright (fun x hx => hlinks x (List.mem_cons_of_mem _ hx)) e he

theorem fits_comparison {first : Derivation .operand} {more : Derivation .links}
    (ihf : ∀ v, first.elaborate = some v → first.Bounded → Fits v)
    (ihm : ∀ v, more.elaborate = some v → more.Bounded → Fits v) {e : Expr}
    (h : (comparison first more).elaborate = some e) (hb : (comparison first more).Bounded) :
    e.Bounded := by
  cases more with
  | noLink =>
    simp only [elaborate, Option.bind_eq_some_iff] at h
    obtain ⟨v, hv, hcond⟩ := h
    cases v with
    | term t => simp at hcond
    | condition e' =>
      obtain rfl : e' = e := by simpa using hcond
      exact ihf _ hv hb.1
  | link before r after operand more =>
    rw [elaborate_chain] at h
    simp only [Option.bind_eq_some_iff] at h
    obtain ⟨t, ht, links, hlinks, hchained⟩ := h
    have hfirst : t.Bounded := bounded_term? ht hb.1
    have hmore : ∀ x ∈ links, x.2.Bounded := ihm links hlinks hb.2
    cases links with
    | nil => simp [chained] at hchained
    | cons link links =>
      obtain ⟨r', second⟩ := link
      obtain rfl := Option.some.inj hchained
      have hsecond : second.Bounded := hmore (r', second) (by simp)
      exact bounded_foldl_and ⟨hfirst, hsecond⟩
        (bounded_neighbours hsecond fun x hx => hmore x (List.mem_cons_of_mem _ hx))

theorem fits {k : Category} (d : Derivation k) {v : k.Result} (h : d.elaborate = some v)
    (hb : d.Bounded) : Fits v := by
  induction d with
  | clock | const =>
    obtain rfl := Option.some.inj h
    trivial
  | number digits =>
    obtain rfl := Option.some.inj h
    exact hb
  | paren before inner after ih =>
    simp only [elaborate, Option.map_eq_some_iff] at h
    obtain ⟨e, he, rfl⟩ := h
    exact ih he hb
  | noLink | noConjunct | noDisjunct =>
    obtain rfl := Option.some.inj h
    simp [Fits]
  | link before r after operand more _ ihm =>
    simp only [elaborate, Option.bind_eq_some_iff, Option.map_eq_some_iff] at h
    obtain ⟨t, ht, ts, hts, rfl⟩ := h
    have hterm : t.Bounded := bounded_term? ht hb.1
    have hmore : ∀ x ∈ ts, x.2.Bounded := ihm hts hb.2
    simpa [Fits, hterm] using hmore
  | comparison first more ihf ihm => exact fits_comparison (fun _ => ihf) (fun _ => ihm) h hb
  | plain inner ih => exact ih h hb
  | not after inner ih =>
    simp only [elaborate, Option.map_eq_some_iff] at h
    obtain ⟨e, he, rfl⟩ := h
    have hinner : e.Bounded := ih he hb
    exact hinner
  | conjunct before after right more ihr ihm | disjunct before after right more ihr ihm =>
    simp only [elaborate, Option.bind_eq_some_iff, Option.map_eq_some_iff] at h
    obtain ⟨e, he, es, hes, rfl⟩ := h
    have hright : e.Bounded := ihr he hb.1
    have hmore : ∀ e ∈ es, e.Bounded := ihm hes hb.2
    simpa [Fits, hright] using hmore
  | conjunction first more ihf ihm =>
    simp only [elaborate, Option.bind_eq_some_iff, Option.map_eq_some_iff] at h
    obtain ⟨e, he, es, hes, rfl⟩ := h
    exact bounded_foldl_and (ihf he hb.1) (ihm hes hb.2)
  | disjunction first more ihf ihm =>
    simp only [elaborate, Option.bind_eq_some_iff, Option.map_eq_some_iff] at h
    obtain ⟨e, he, es, hes, rfl⟩ := h
    exact bounded_foldl_or (ihf he hb.1) (ihm hes hb.2)

end Derivation

/-- Every guard that is read is bounded. -/
theorem bounded_of_read {cs : List Char} {g : Guard} (h : read cs = .ok g) : g.expr.Bounded := by
  by_cases hcs : Text.IsBlank cs
  · rw [read_of_isBlank hcs] at h
    obtain rfl := Except.ok.inj h
    trivial
  · obtain ⟨d, -, hbound, hsense, -⟩ := (read_eq_ok_iff hcs g).1 h
    exact d.fits hsense hbound

/-! ## The derivation of a printed guard -/

/-- A number as it is printed. -/
def Digits.ofNat (n : Nat) : Digits :=
  ⟨Nat.toDigits 10 n, Nat.toDigits_ne_nil,
    fun _ hc => Nat.isDigit_of_mem_toDigits (by decide) (by decide) hc⟩

namespace Derivation

def ofTerm : Term → Derivation .operand
  | .clock => .clock
  | .number n => .number (.ofNat n)

/-- An operand that stands alone. -/
def alone (operand : Derivation .operand) : Derivation .negation :=
  .plain (.comparison operand .noLink)

def wrapped (inner : Derivation .disjunction) : Derivation .negation :=
  alone (.paren .none inner .none)

end Derivation

/-- The derivations of a guard: as an operand of `!` or on the right of `&&`, as the start of a
conjunction that goes on with `more`, and as the start of a disjunction that does. -/
structure Forms where
  negation : Derivation .negation
  conjunction : (more : Derivation .conjuncts) → Derivation .conjunction
  disjunction : (more : Derivation .disjuncts) → Derivation .disjunction

namespace Forms

/-- The forms of a guard that binds at least as closely as `!`. -/
def ofNegation (d : Derivation .negation) : Forms where
  negation := d
  conjunction more := .conjunction d more
  disjunction more := .disjunction (.conjunction d .noConjunct) more

/-- The forms of a conjunction. -/
def ofConjunction (d : Derivation .conjuncts → Derivation .conjunction) : Forms where
  negation := .wrapped (.disjunction (d .noConjunct) .noDisjunct)
  conjunction := d
  disjunction more := .disjunction (d .noConjunct) more

/-- The forms of a disjunction. -/
def ofDisjunction (d : Derivation .disjuncts → Derivation .disjunction) : Forms where
  negation := .wrapped (d .noDisjunct)
  conjunction more := .conjunction (.wrapped (d .noDisjunct)) more
  disjunction := d

end Forms

namespace Expr

def forms : Expr → Forms
  | .const b => .ofNegation (.alone (.const b))
  | .compare r left right =>
    .ofNegation (.plain (.comparison (.ofTerm left)
      (.link .single r .single (.ofTerm right) .noLink)))
  | .not (.const b) => .ofNegation (.not .none (.alone (.const b)))
  | .not inner => .ofNegation (.not .none (.wrapped (inner.forms.disjunction .noDisjunct)))
  | .and left right =>
    .ofConjunction fun more =>
      left.forms.conjunction (.conjunct .single .single right.forms.negation more)
  | .or left right =>
    .ofDisjunction fun more =>
      left.forms.disjunction
        (.disjunct .single .single (right.forms.conjunction .noConjunct) more)

/-- The derivation of the canonical text. -/
def derivation (e : Expr) : Derivation .disjunction :=
  e.forms.disjunction .noDisjunct

/-! ### Texts -/

/-- The texts of the forms are those that the printer writes at the three precedences. -/
structure Spelled (e : Expr) : Prop where
  negation : e.forms.negation.text = e.charsAt 3
  conjunction : ∀ more, (e.forms.conjunction more).text = e.charsAt 2 ++ more.text
  disjunction : ∀ more, (e.forms.disjunction more).text = e.charsAt 1 ++ more.text

theorem charsAt_zero (e : Expr) : e.charsAt 0 = e.charsAt 1 := by
  have hwrap : decide (e.precedence < 0) = decide (e.precedence < 1) := by cases e <;> rfl
  rw [charsAt.eq_def 0 e, charsAt.eq_def 1 e, hwrap]

theorem text_ofTerm (t : Term) : (Derivation.ofTerm t).text = t.chars := by
  cases t <;> rfl

theorem text_wrapped (d : Derivation .disjunction) :
    (Derivation.wrapped d).text = '(' :: d.text ++ [')'] := by
  simp [Derivation.wrapped, Derivation.alone, Derivation.text, Spaces.none]

theorem spelled_ofNegation {e : Expr} {d : Derivation .negation} (he : e.forms = .ofNegation d)
    (h1 : e.charsAt 1 = d.text) (h2 : e.charsAt 2 = d.text) (h3 : e.charsAt 3 = d.text) :
    Spelled e where
  negation := by simp [he, Forms.ofNegation, h3]
  conjunction more := by simp [he, Forms.ofNegation, Derivation.text, h2]
  disjunction more := by simp [he, Forms.ofNegation, Derivation.text, h1]

theorem spelled (e : Expr) : Spelled e := by
  induction e with
  | const b => cases b <;> exact spelled_ofNegation rfl rfl rfl rfl
  | compare r left right =>
    refine spelled_ofNegation rfl ?_ ?_ ?_ <;>
      simp [charsAt, parenthesize, precedence, Derivation.text, text_ofTerm, Spaces.single]
  | not inner ih =>
    cases inner with
    | const b => cases b <;> exact spelled_ofNegation rfl rfl rfl rfl
    | compare | not | and | or =>
      refine spelled_ofNegation rfl ?_ ?_ ?_ <;>
        simp [charsAt.eq_def _ (.not _), parenthesize, precedence, Derivation.text, text_wrapped,
          ih.disjunction, charsAt_zero, Spaces.none]
  | and left right ihl ihr =>
    refine ⟨?_, ?_, ?_⟩
    · simp [forms, Forms.ofConjunction, charsAt.eq_def _ (.and _ _), parenthesize, precedence,
        text_wrapped, Derivation.text, ihl.conjunction, ihr.negation, Spaces.single]
    · intro more
      simp [forms, Forms.ofConjunction, charsAt.eq_def _ (.and _ _), parenthesize, precedence,
        Derivation.text, ihl.conjunction, ihr.negation, Spaces.single]
    · intro more
      simp [forms, Forms.ofConjunction, charsAt.eq_def _ (.and _ _), parenthesize, precedence,
        Derivation.text, ihl.conjunction, ihr.negation, Spaces.single]
  | or left right ihl ihr =>
    refine ⟨?_, ?_, ?_⟩
    · simp [forms, Forms.ofDisjunction, charsAt.eq_def _ (.or _ _), parenthesize, precedence,
        text_wrapped, Derivation.text, ihl.disjunction, ihr.conjunction, Spaces.single]
    · intro more
      simp [forms, Forms.ofDisjunction, charsAt.eq_def _ (.or _ _), parenthesize, precedence,
        text_wrapped, Derivation.text, ihl.disjunction, ihr.conjunction, Spaces.single]
    · intro more
      simp [forms, Forms.ofDisjunction, charsAt.eq_def _ (.or _ _), parenthesize, precedence,
        Derivation.text, ihl.disjunction, ihr.conjunction, Spaces.single]

theorem text_derivation (e : Expr) : e.derivation.text = e.chars := by
  simp [derivation, e.spelled.disjunction, chars, charsAt_zero, Derivation.text]

/-! ### Elaboration -/

theorem term?_ofTerm (t : Term) : (Derivation.ofTerm t).term? = some t := by
  cases t with
  | clock => rfl
  | number n =>
    simp [Derivation.ofTerm, Derivation.term?, Digits.ofNat, Nat.ofDigitChars_ten_toDigits]

/-- The forms stand for the guard, joined with what they go on with. -/
structure Meant (e : Expr) : Prop where
  negation : e.forms.negation.elaborate = some e
  conjunction : ∀ more,
    (e.forms.conjunction more).elaborate = more.elaborate.map (List.foldl .and e)
  disjunction : ∀ more,
    (e.forms.disjunction more).elaborate = more.elaborate.map (List.foldl .or e)

theorem meant_ofNegation {e : Expr} {d : Derivation .negation} (he : e.forms = .ofNegation d)
    (hd : d.elaborate = some e) : Meant e where
  negation := by simp [he, Forms.ofNegation, hd]
  conjunction more := by simp [he, Forms.ofNegation, Derivation.elaborate, hd]
  disjunction more := by simp [he, Forms.ofNegation, Derivation.elaborate, hd]

theorem elaborate_wrapped {d : Derivation .disjunction} {e : Expr} (hd : d.elaborate = some e) :
    (Derivation.wrapped d).elaborate = some e := by
  simp [Derivation.wrapped, Derivation.alone, Derivation.elaborate, hd]

theorem meant (e : Expr) : Meant e := by
  induction e with
  | const b => exact meant_ofNegation rfl rfl
  | compare r left right =>
    refine meant_ofNegation rfl ?_
    simp [Derivation.elaborate, term?_ofTerm, Derivation.chained, Derivation.neighbours]
  | not inner ih =>
    cases inner with
    | const b => exact meant_ofNegation rfl rfl
    | compare | not | and | or =>
      refine meant_ofNegation rfl ?_
      have hinner := elaborate_wrapped ((ih.disjunction .noDisjunct).trans rfl)
      simp [Derivation.elaborate, hinner]
  | and left right ihl ihr =>
    have hjoin : ∀ more,
        ((Expr.and left right).forms.conjunction more).elaborate =
          more.elaborate.map (List.foldl .and (.and left right)) := by
      intro more
      simp only [forms, Forms.ofConjunction, ihl.conjunction, Derivation.elaborate, ihr.negation,
        Option.bind_some, Option.map_map]
      rfl
    have hwhole : (Derivation.disjunction ((Expr.and left right).forms.conjunction .noConjunct)
        .noDisjunct).elaborate = some (.and left right) := by
      simp [Derivation.elaborate, hjoin]
    refine ⟨elaborate_wrapped hwhole, hjoin, ?_⟩
    intro more
    have hdisj : (Expr.and left right).forms.disjunction more =
        .disjunction ((Expr.and left right).forms.conjunction .noConjunct) more := rfl
    simp [hdisj, Derivation.elaborate, hjoin]
  | or left right ihl ihr =>
    have hjoin : ∀ more,
        ((Expr.or left right).forms.disjunction more).elaborate =
          more.elaborate.map (List.foldl .or (.or left right)) := by
      intro more
      simp only [forms, Forms.ofDisjunction, ihl.disjunction, Derivation.elaborate,
        ihr.conjunction, Option.bind_some, Option.map_some, List.foldl_nil, Option.map_map]
      rfl
    have hwhole : (Derivation.wrapped ((Expr.or left right).forms.disjunction
        .noDisjunct)).elaborate = some (.or left right) :=
      elaborate_wrapped ((hjoin .noDisjunct).trans rfl)
    refine ⟨hwhole, ?_, hjoin⟩
    intro more
    have hconj : (Expr.or left right).forms.conjunction more =
        .conjunction (.wrapped ((Expr.or left right).forms.disjunction .noDisjunct)) more := rfl
    simp [hconj, Derivation.elaborate, hwhole]

theorem elaborate_derivation (e : Expr) : e.derivation.elaborate = some e := by
  simp [derivation, e.meant.disjunction, Derivation.elaborate]

/-! ### Bounds -/

theorem bounded_ofTerm (t : Term) : (Derivation.ofTerm t).Bounded ↔ t.Bounded := by
  cases t with
  | clock => exact Iff.rfl
  | number n =>
    simp [Derivation.ofTerm, Derivation.Bounded, Digits.ofNat, Nat.ofDigitChars_ten_toDigits,
      Term.Bounded]

/-- The forms mention the numbers of the guard and of what they go on with. -/
structure Measured (e : Expr) : Prop where
  negation : e.forms.negation.Bounded ↔ e.Bounded
  conjunction : ∀ more, (e.forms.conjunction more).Bounded ↔ e.Bounded ∧ more.Bounded
  disjunction : ∀ more, (e.forms.disjunction more).Bounded ↔ e.Bounded ∧ more.Bounded

theorem measured_ofNegation {e : Expr} {d : Derivation .negation} (he : e.forms = .ofNegation d)
    (hd : d.Bounded ↔ e.Bounded) : Measured e where
  negation := by simp [he, Forms.ofNegation, hd]
  conjunction more := by simp [he, Forms.ofNegation, Derivation.Bounded, hd]
  disjunction more := by simp [he, Forms.ofNegation, Derivation.Bounded, hd]

theorem measured (e : Expr) : Measured e := by
  induction e with
  | const b =>
    refine measured_ofNegation rfl ?_
    simp [Derivation.alone, Derivation.Bounded, Expr.Bounded]
  | compare r left right =>
    refine measured_ofNegation rfl ?_
    simp [Derivation.Bounded, bounded_ofTerm, Expr.Bounded]
  | not inner ih =>
    cases inner with
    | const b =>
      refine measured_ofNegation rfl ?_
      simp [Derivation.alone, Derivation.Bounded, Expr.Bounded]
    | compare | not | and | or =>
      refine measured_ofNegation rfl ?_
      simp [Derivation.wrapped, Derivation.alone, Derivation.Bounded, ih.disjunction,
        Expr.Bounded]
  | and left right ihl ihr =>
    refine ⟨?_, ?_, ?_⟩ <;>
      simp [forms, Forms.ofConjunction, Derivation.wrapped, Derivation.alone, Derivation.Bounded,
        ihl.conjunction, ihr.negation, Expr.Bounded, and_assoc]
  | or left right ihl ihr =>
    refine ⟨?_, ?_, ?_⟩ <;>
      simp [forms, Forms.ofDisjunction, Derivation.wrapped, Derivation.alone, Derivation.Bounded,
        ihl.disjunction, ihr.conjunction, Expr.Bounded, and_assoc]

theorem bounded_derivation (e : Expr) : e.derivation.Bounded ↔ e.Bounded := by
  simp [derivation, e.measured.disjunction, Derivation.Bounded]

end Expr

/-! ## Characters -/

/-- The characters of the symbols and constants of a guard. -/
def symbolChars : List Char :=
  ['x', 't', 'r', 'u', 'e', 'f', 'a', 'l', 's', '(', ')', '<', '>', '=', '!', '&', '|']

/-- The characters that a guard can be written with. -/
def isGuardChar (c : Char) : Bool :=
  isSpace c || c.isDigit || symbolChars.contains c

theorem isGuardChar_of_separate (s : Spaces) : ∀ c ∈ s.chars, isGuardChar c = true := by
  intro c hc
  simp [isGuardChar, s.separate c hc]

/-- The text is empty, or its last character is part of a word or closes parentheses. -/
def EndsTight (cs : List Char) : Prop :=
  ∀ c, cs.getLast? = some c → isWordChar c = true ∨ c = ')'

theorem IsWord.endsTight {w : List Char} (hw : IsWord w) : EndsTight w := by
  intro c hc
  exact .inl (hw.2 c (List.mem_of_getLast? hc))

theorem EndsTight.append {cs ds : List Char} (hcs : EndsTight cs) (hds : EndsTight ds) :
    EndsTight (cs ++ ds) := by
  intro c hc
  rw [List.getLast?_append, Option.or_eq_some_iff] at hc
  rcases hc with hc | ⟨-, hc⟩
  · exact hds c hc
  · exact hcs c hc

theorem EndsTight.append_left {ds : List Char} (hds : EndsTight ds) (hne : ds ≠ [])
    (cs : List Char) : EndsTight (cs ++ ds) := by
  intro c hc
  rw [List.getLast?_append_of_ne_nil cs hne] at hc
  exact hds c hc

namespace Derivation

theorem isGuardChar_of_mem {k : Category} (d : Derivation k) :
    ∀ c ∈ d.text, isGuardChar c = true := by
  induction d with
  | clock => exact List.all_eq_true.1 (by decide)
  | number digits =>
    intro c hc
    simp [isGuardChar, digits.decimal c hc]
  | const b => cases b <;> exact List.all_eq_true.1 (by decide)
  | paren before inner after ih =>
    simp only [text, List.forall_mem_cons, List.forall_mem_append]
    exact ⟨by decide, isGuardChar_of_separate before, ih, isGuardChar_of_separate after,
      by decide, by simp⟩
  | noLink | noConjunct | noDisjunct => simp [text]
  | link before r after operand more iho ihm =>
    have hsymbol : ∀ c ∈ r.symbol, isGuardChar c = true := by
      cases r <;> exact List.all_eq_true.1 (by decide)
    simp only [text, List.forall_mem_append]
    exact ⟨isGuardChar_of_separate before, hsymbol, isGuardChar_of_separate after, iho, ihm⟩
  | comparison first more ihf ihm | conjunction first more ihf ihm
  | disjunction first more ihf ihm =>
    simp only [text, List.forall_mem_append]
    exact ⟨ihf, ihm⟩
  | plain inner ih => exact ih
  | not after inner ih =>
    simp only [text, List.forall_mem_cons, List.forall_mem_append]
    exact ⟨by decide, isGuardChar_of_separate after, ih⟩
  | conjunct before after right more ihr ihm | disjunct before after right more ihr ihm =>
    simp only [text, List.forall_mem_cons, List.forall_mem_append]
    exact ⟨isGuardChar_of_separate before, by decide, by decide, isGuardChar_of_separate after,
      ihr, ihm⟩

theorem text_ne_nil {k : Category} (d : Derivation k) (hk : k.starred = false) :
    d.text ≠ [] := by
  obtain ⟨c, cs, hcs, -⟩ := d.exists_opener hk
  simp [hcs]

theorem endsTight_text {k : Category} (d : Derivation k) : EndsTight d.text := by
  induction d with
  | clock => exact IsWord.endsTight isWord_clock
  | number digits => exact IsWord.endsTight (isWord_digits digits)
  | const b => exact IsWord.endsTight (isWord_constText b)
  | paren before inner after ih =>
    have hclose : EndsTight [')'] := by simp [EndsTight]
    have hne : after.chars ++ [')'] ≠ [] := by simp
    have hrest := ((hclose.append_left (by simp) after.chars).append_left hne inner.text)
    exact (hrest.append_left (by simp) ('(' :: before.chars))
  | noLink | noConjunct | noDisjunct => simp [text, EndsTight]
  | link before r after operand more iho ihm =>
    have hne : operand.text ++ more.text ≠ [] := by simp [operand.text_ne_nil rfl]
    have hrest := (iho.append ihm).append_left hne (before.chars ++ (r.symbol ++ after.chars))
    simpa [text] using hrest
  | comparison first more ihf ihm | conjunction first more ihf ihm
  | disjunction first more ihf ihm => exact ihf.append ihm
  | plain inner ih => exact ih
  | not after inner ih => exact ih.append_left (inner.text_ne_nil rfl) ('!' :: after.chars)
  | conjunct before after right more ihr ihm =>
    have hne : right.text ++ more.text ≠ [] := by simp [right.text_ne_nil rfl]
    have hrest := (ihr.append ihm).append_left hne (before.chars ++ '&' :: '&' :: after.chars)
    simpa [text] using hrest
  | disjunct before after right more ihr ihm =>
    have hne : right.text ++ more.text ≠ [] := by simp [right.text_ne_nil rfl]
    have hrest := (ihr.append ihm).append_left hne (before.chars ++ '|' :: '|' :: after.chars)
    simpa [text] using hrest

/-- Derived texts have no blank ends. -/
theorem dense_text {k : Category} (d : Derivation k) (hk : k.starred = false) :
    Text.Dense d.text where
  nonempty := d.text_ne_nil hk
  first c hc := by
    obtain ⟨c', cs, hcs, hopens⟩ := d.exists_opener hk
    obtain rfl : c' = c := by simpa [hcs] using hc
    exact isBlank_of_opens hopens
  last c hc := by
    rcases d.endsTight_text c hc with hword | rfl
    · exact isBlank_of_isWordChar hword
    · decide

end Derivation

/-! ## Reading what was printed -/

theorem Expr.trim_chars (e : Expr) : Text.trim e.chars = e.chars := by
  rw [← e.text_derivation]
  exact Text.trim_of_dense (e.derivation.dense_text rfl)

/-- The canonical text of a bounded guard is read as that guard. -/
theorem read_chars {e : Expr} (he : e.Bounded) : read e.chars = .ok ⟨e.text, e⟩ := by
  have hblank : ¬ Text.IsBlank e.chars := by
    rw [← Text.trim_eq_nil_iff, e.trim_chars, ← e.text_derivation]
    exact e.derivation.text_ne_nil rfl
  rw [read_eq_ok_iff hblank, e.trim_chars]
  exact ⟨e.derivation, e.text_derivation, e.bounded_derivation.2 he, e.elaborate_derivation, rfl⟩

/-- The numbers of a guard, from left to right. -/
def Expr.numbers : Expr → List Nat
  | .const _ => []
  | .compare _ left right => left.numbers ++ right.numbers
  | .not inner => inner.numbers
  | .and left right => left.numbers ++ right.numbers
  | .or left right => left.numbers ++ right.numbers

theorem Expr.bounded_iff_numbers (e : Expr) : e.Bounded ↔ ∀ n ∈ e.numbers, n ≤ 2 ^ 63 - 1 := by
  induction e with
  | const b => simp [Bounded, numbers]
  | compare r left right =>
    simp only [Bounded, numbers, Term.bounded_iff_numbers, List.forall_mem_append]
  | not inner ih => exact ih
  | and left right ihl ihr | or left right ihl ihr =>
    simp only [Bounded, numbers, ihl, ihr, List.forall_mem_append]

/-- The canonical text always has the shape of a guard, so all that can be wrong with it is a
number. -/
theorem read_chars_eq_fault {e : Expr} (he : ¬ e.Bounded) :
    ∃ f, read e.chars = .error (.fault f) := by
  rcases exists_meaning?_text e.derivation with ⟨r, hr, hagrees⟩
  rw [e.text_derivation] at hr
  have hne : e.chars ≠ [] := by
    rw [← e.text_derivation]
    exact e.derivation.text_ne_nil rfl
  cases r with
  | ok v => exact absurd (e.bounded_derivation.1 ((hagrees v).1 rfl).2) he
  | error f => exact ⟨f, by simp [read, e.trim_chars, hne, hr]⟩

/-- Printing is undone by reading exactly if all numbers fit the clock: the guard that is read is
the one that was printed, with the same grouping, and its text is the printed text. A guard with a
larger number is printed as a text that is refused. -/
theorem read_text_exactly (e : Expr) :
    (read e.text.toList = .ok ⟨e.text, e⟩ ↔ ∀ n ∈ e.numbers, n ≤ 2 ^ 63 - 1) ∧
    ((∃ error, read e.text.toList = .error error) ↔ ∃ n ∈ e.numbers, 2 ^ 63 - 1 < n) := by
  have hchars : e.text.toList = e.chars := by simp [Expr.text]
  rw [hchars, ← e.bounded_iff_numbers]
  by_cases he : e.Bounded
  · have hread := read_chars he
    have hnumbers := e.bounded_iff_numbers.1 he
    refine ⟨by simp [hread, he], ?_⟩
    simpa [hread] using hnumbers
  · rcases read_chars_eq_fault he with ⟨f, hf⟩
    have hnumbers : ∃ n ∈ e.numbers, 2 ^ 63 - 1 < n := by
      simpa [e.bounded_iff_numbers] using he
    refine ⟨by simp [hf, he], ?_⟩
    exact iff_of_true ⟨_, hf⟩ hnumbers

end Guard
end TimedAutomata
