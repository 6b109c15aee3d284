import TimedAutomata.Proofs.Grammar.Recognition
import TimedAutomata.Proofs.Guard.Soundness

/-!
# The rules for guards against their reader

The rules of the notation describe guards once more, for the explanation of refused texts. They
accept exactly the texts that the reader finds to have the shape of a guard.

* `computes_sp`, `computes_word` and so on: separators, words and fixed texts
* `computes_behind`: repetitions of an operator and an item
* `Mirrors`: a rule against a reader, both with enough depth
* `mirrors_guardExpr`: a flat sequence of comparisons is read as far as the rule goes
* `accepts`: whether a pass over a text succeeds
* `read_unexpected_iff`: a guard is refused for its shape exactly if the rules refuse it
-/

namespace TimedAutomata
namespace Grammar

open Rule.body (lit sp sp1 endOfWord operand)
open Guard

variable {bound : Nat}

/-! ## Words and separators -/

theorem length_one?_lt {p : Char → Bool} {cs rest : List Char} (h : one? p cs = some rest) :
    rest.length < cs.length := by
  cases cs with
  | nil => simp [one?] at h
  | cons c cs =>
    obtain ⟨-, rfl⟩ : p c = true ∧ cs = rest := by simpa [one?] using h
    simp

theorem computes_lit (s : String) : Computes rules bound 1 (lit s) (literal? s.toList) :=
  computes_text _

/-- A repeated class of characters is dropped from the text. -/
theorem computes_class (p : Char → Bool) :
    Computes rules bound 2 (.many (.one p)) fun cs => some (cs.dropWhile p) := by
  refine (computes_one p).many (fun _ => length_one?_lt) ?_ ?_
  · intro cs _ hnone
    cases cs with
    | nil => rfl
    | cons c cs =>
      have hc : p c = false := by simpa [one?] using hnone
      simp [hc]
  · intro cs rest _ hsome
    cases cs with
    | nil => simp [one?] at hsome
    | cons c cs =>
      obtain ⟨hc, rfl⟩ : p c = true ∧ cs = rest := by simpa [one?] using hsome
      simp [hc]

theorem computes_oneOrMore (p : Char → Bool) :
    Computes rules bound 3 (.oneOrMore (.one p)) fun cs =>
      (one? p cs).map fun rest => rest.dropWhile p :=
  ((computes_one p).seq (computes_class p)).congr fun cs _ => by
    cases one? p cs <;> rfl

theorem computes_sp : Computes rules bound 2 sp fun cs => some (skipSpaces cs) :=
  computes_class isSpace

theorem computes_sp1 : Computes rules bound 3 sp1 spaces? :=
  (computes_oneOrMore isSpace).congr fun cs _ => by
    cases cs with
    | nil => rfl
    | cons c cs => by_cases hc : isSpace c = true <;> simp [one?, spaces?, skipSpaces, hc]

theorem computes_word :
    Computes rules bound 3 (.oneOrMore (.one isWordChar)) fun cs => (word? cs).map Prod.snd :=
  (computes_oneOrMore isWordChar).congr fun cs _ => by
    cases cs with
    | nil => rfl
    | cons c cs => by_cases hc : isWordChar c = true <;> simp [one?, word?, hc]

/-! ## Operands that are words -/

/-- The end of a word stands in front of `cs`. -/
def wordEnd? (cs : List Char) : Option (List Char) :=
  if (one? isWordChar cs).isSome then none else some cs

theorem computes_endOfWord : Computes rules bound 2 endOfWord wordEnd? :=
  (computes_one isWordChar).absent

theorem wordEnd?_eq_some_iff {cs rest : List Char} :
    wordEnd? cs = some rest ↔ cs = rest ∧ EndsWord rest := by
  cases cs with
  | nil =>
    simp only [wordEnd?, one?]
    constructor
    · intro h
      obtain rfl : [] = rest := by simpa using h
      exact ⟨rfl, endsWord_nil⟩
    · rintro ⟨rfl, -⟩
      rfl
  | cons c cs =>
    by_cases hc : isWordChar c = true
    · simp only [wordEnd?, one?, hc]
      constructor
      · intro h
        simp at h
      · rintro ⟨rfl, hends⟩
        simp [hc] at hends
    · simp only [wordEnd?, one?, hc]
      constructor
      · intro h
        obtain rfl : c :: cs = rest := by simpa using h
        exact ⟨rfl, by simpa using hc⟩
      · rintro ⟨rfl, -⟩
        rfl

/-- A fixed word up to its end is a word that is read. -/
theorem literal?_wordEnd? {w : List Char} (hw : IsWord w) (cs : List Char) :
    (literal? w cs).bind wordEnd? =
      (word? cs).bind fun x => if x.1 = w then some x.2 else none := by
  ext rest
  simp only [Option.bind_eq_some_iff, literal?_eq_some_iff, wordEnd?_eq_some_iff, Prod.exists,
    word?_eq_some_iff]
  constructor
  · rintro ⟨_, rfl, rfl, hends⟩
    exact ⟨w, _, ⟨rfl, hw, hends⟩, by simp⟩
  · rintro ⟨w', rest', ⟨rfl, -, hends⟩, hrest⟩
    obtain ⟨rfl, rfl⟩ : w' = w ∧ rest' = rest := by simpa using hrest
    exact ⟨_, rfl, rfl, hends⟩

theorem isWordChar_of_isDigit {c : Char} (h : c.isDigit = true) : isWordChar c = true := by
  simp [isWordChar, Char.isAlphanum, h]

/-- Digits up to the end of a word are a word of digits. -/
theorem digits_wordEnd? (cs : List Char) :
    ((one? Char.isDigit cs).map fun rest => rest.dropWhile Char.isDigit).bind wordEnd? =
      (word? cs).bind fun x => if x.1.all Char.isDigit then some x.2 else none := by
  ext rest
  simp only [Option.bind_eq_some_iff, Option.map_eq_some_iff, wordEnd?_eq_some_iff, Prod.exists,
    word?_eq_some_iff]
  constructor
  · rintro ⟨_, ⟨after, hone, rfl⟩, rfl, hends⟩
    cases cs with
    | nil => simp [one?] at hone
    | cons c cs =>
      obtain ⟨hc, rfl⟩ : c.isDigit = true ∧ cs = after := by simpa [one?] using hone
      have hdigits : ∀ d ∈ c :: cs.takeWhile Char.isDigit, d.isDigit = true := by
        intro d hd
        rcases List.mem_cons.1 hd with rfl | hd
        · exact hc
        · exact List.mem_takeWhile_imp hd
      refine ⟨c :: cs.takeWhile Char.isDigit, _, ⟨?_, ⟨by simp, ?_⟩, hends⟩, ?_⟩
      · simp
      · exact fun d hd => isWordChar_of_isDigit (hdigits d hd)
      · rw [if_pos (List.all_eq_true.2 hdigits)]
  · rintro ⟨w, rest', ⟨rfl, hw, hends⟩, hrest⟩
    obtain ⟨hall, rfl⟩ : w.all Char.isDigit = true ∧ rest' = rest := by simpa using hrest
    obtain ⟨c, w, rfl⟩ := List.exists_cons_of_ne_nil hw.1
    simp only [List.all_cons, Bool.and_eq_true, List.all_eq_true] at hall
    refine ⟨rest', ⟨w ++ rest', by simp [one?, hall.1], ?_⟩, rfl, hends⟩
    rw [List.dropWhile_append_of_pos hall.2]
    cases rest' with
    | nil => rfl
    | cons d rest' =>
      have hd : d.isDigit = false := by
        cases hdigit : d.isDigit with
        | false => rfl
        | true => simp [isWordChar_of_isDigit hdigit] at hends
      simp [hd]

theorem literal?_true_or_false (cs : List Char) :
    ((literal? ['t', 'r', 'u', 'e'] cs).or (literal? ['f', 'a', 'l', 's', 'e'] cs)).bind wordEnd? =
      ((literal? ['t', 'r', 'u', 'e'] cs).bind wordEnd?).or
        ((literal? ['f', 'a', 'l', 's', 'e'] cs).bind wordEnd?) := by
  cases htrue : literal? ['t', 'r', 'u', 'e'] cs with
  | none => rfl
  | some rest =>
    obtain rfl := literal?_eq_some_iff.1 htrue
    cases hend : wordEnd? rest with
    | none => simp [literal?, hend]
    | some rest => simp [hend]

/-- What follows an operand that is a word. -/
def wordOperandRest? (cs : List Char) : Option (List Char) :=
  (word? cs).bind fun x => (wordOperand? x.1).map fun _ => x.2

theorem computes_clock :
    Computes rules bound 4 (.rule .clock) fun cs =>
      (word? cs).bind fun x => if x.1 = ['x'] then some x.2 else none :=
  (((computes_lit "x").seq computes_endOfWord).congr fun cs _ =>
    literal?_wordEnd? (by decide) cs).rule

theorem computes_integer :
    Computes rules bound 5 (.rule .integer) fun cs =>
      (word? cs).bind fun x => if x.1.all Char.isDigit then some x.2 else none :=
  (((computes_oneOrMore Char.isDigit).seq computes_endOfWord).congr fun cs _ =>
    digits_wordEnd? cs).rule

theorem computes_boolean :
    Computes rules bound 4 (.rule .boolean) fun cs =>
      (word? cs).bind fun x =>
        if x.1 = ['t', 'r', 'u', 'e'] then some x.2
        else if x.1 = ['f', 'a', 'l', 's', 'e'] then some x.2 else none := by
  have htrue : Computes rules bound 1 (lit "true") (literal? ['t', 'r', 'u', 'e']) :=
    computes_lit "true"
  have hfalse : Computes rules bound 1 (lit "false") (literal? ['f', 'a', 'l', 's', 'e']) :=
    computes_lit "false"
  refine (((htrue.alt hfalse).seq computes_endOfWord).congr fun cs _ => ?_).rule
  rw [literal?_true_or_false, literal?_wordEnd? (by decide), literal?_wordEnd? (by decide)]
  cases word? cs with
  | none => rfl
  | some x =>
    by_cases hword : x.1 = ['t', 'r', 'u', 'e'] <;> simp [hword]

theorem wordOperandRest?_eq (cs : List Char) :
    wordOperandRest? cs =
      ((word? cs).bind fun x => if x.1 = ['x'] then some x.2 else none).or
        (((word? cs).bind fun x => if x.1.all Char.isDigit then some x.2 else none).or
          ((word? cs).bind fun x =>
            if x.1 = ['t', 'r', 'u', 'e'] then some x.2
            else if x.1 = ['f', 'a', 'l', 's', 'e'] then some x.2 else none)) := by
  unfold wordOperandRest?
  cases word? cs with
  | none => rfl
  | some x =>
    simp only [Option.bind_some, wordOperand?]
    split_ifs <;> rfl

/-! ## Items behind operators -/

theorem length_skipSpaces_le (cs : List Char) : (skipSpaces cs).length ≤ cs.length :=
  List.length_dropWhile_le isSpace cs

section Behind

variable {σ τ : Type} {operator? : List Char → Option (σ × List Char)}
  {item? : List Char → Option (τ × List Char)}

/-- What follows one operator and one item. -/
def itemRest? (operator? : List Char → Option (σ × List Char))
    (item? : List Char → Option (τ × List Char)) (cs : List Char) : Option (List Char) :=
  (operator? (skipSpaces cs)).bind fun x => (item? (skipSpaces x.2)).map Prod.snd

theorem behind_rest_of_none {cs : List Char} (h : itemRest? operator? item? cs = none)
    (limit : Nat) : (behind operator? item? limit cs).2 = cs := by
  cases limit with
  | zero => rfl
  | succ limit =>
    rw [behind]
    cases hop : operator? (skipSpaces cs) with
    | none => rfl
    | some x =>
      have hitem : item? (skipSpaces x.2) = none := by simpa [itemRest?, hop] using h
      simp [hitem]

theorem behind_rest_of_some {cs rest : List Char} (h : itemRest? operator? item? cs = some rest)
    (limit : Nat) :
    (behind operator? item? (limit + 1) cs).2 = (behind operator? item? limit rest).2 := by
  obtain ⟨x, hop, hitem⟩ := Option.bind_eq_some_iff.1 h
  obtain ⟨y, hy, rfl⟩ := Option.map_eq_some_iff.1 hitem
  simp [behind, hop, hy]

/-- A limit that exceeds the length of the text is none. -/
theorem behind_rest_of_le {bound : Nat}
    (hprogress : ∀ {cs rest}, cs.length < bound → itemRest? operator? item? cs = some rest →
      rest.length < cs.length) {limit : Nat} {cs : List Char} (hcs : cs.length < bound)
    (hlimit : cs.length ≤ limit) :
    (behind operator? item? limit cs).2 = (behind operator? item? cs.length cs).2 := by
  induction limit using Nat.strong_induction_on generalizing cs with
  | _ limit ih =>
    cases hrest : itemRest? operator? item? cs with
    | none => rw [behind_rest_of_none hrest, behind_rest_of_none hrest]
    | some rest =>
      have hlength := hprogress hcs hrest
      obtain ⟨k, hk⟩ : ∃ k, cs.length = k + 1 := ⟨cs.length - 1, by omega⟩
      obtain ⟨limit, rfl⟩ : ∃ m, limit = m + 1 := ⟨limit - 1, by omega⟩
      rw [hk, behind_rest_of_some hrest, behind_rest_of_some hrest,
        ih limit (by omega) (by omega) (by omega)]
      exact (ih k (by omega) (by omega) (by omega)).symm

/-- A repetition of operators and items leaves of a text what `behind` does. -/
theorem computes_behind {size size' : Nat} {e e' : Expression Rule}
    (hoperator : Computes rules bound size e fun cs => (operator? cs).map Prod.snd)
    (hitem : Computes rules bound size' e' fun cs => (item? cs).map Prod.snd)
    (hlength : ∀ {cs x}, operator? cs = some x → x.2.length < cs.length) :
    Computes rules bound (max size size' + 6) (.many (.inOrder [sp, e, sp, e'])) fun cs =>
      some (behind operator? item? cs.length cs).2 := by
  have hbody : Computes rules bound (max size size' + 5) (.inOrder [sp, e, sp, e'])
      (itemRest? operator? item?) := by
    refine ((computes_sp.seq (hoperator.seq (computes_sp.seq hitem))).mono (Nat.le_refl _)
      (by omega)).congr fun cs _ => ?_
    simp only [itemRest?, Option.bind_some]
    cases operator? (skipSpaces cs) <;> rfl
  have hprogress : ∀ {cs rest}, cs.length < bound → itemRest? operator? item? cs = some rest →
      rest.length < cs.length := by
    intro cs rest hcs hrest
    obtain ⟨x, hop, hafter⟩ := Option.bind_eq_some_iff.1 hrest
    have hspaces := length_skipSpaces_le cs
    have hmore := length_skipSpaces_le x.2
    have hx := hlength hop
    have hy := hitem.length_le (by omega) hafter
    omega
  refine hbody.many hprogress (fun _ hnone => behind_rest_of_none hnone _) ?_
  intro cs rest hcs hrest
  have hlength := hprogress hcs hrest
  obtain ⟨k, hk⟩ : ∃ k, cs.length = k + 1 := ⟨cs.length - 1, by omega⟩
  rw [hk, behind_rest_of_some hrest]
  exact behind_rest_of_le hprogress (by omega) (by omega)

end Behind

theorem literal?_eq_none {lit cs : List Char} (h : ∀ rest, cs ≠ lit ++ rest) :
    literal? lit cs = none := by
  cases hlit : literal? lit cs with
  | none => rfl
  | some rest => exact absurd (literal?_eq_some_iff.1 hlit) (h rest)

/-- The relations in the order in which they are tried. -/
theorem literal?_relations (cs : List Char) :
    (literal? ['<', '='] cs).or ((literal? ['>', '='] cs).or ((literal? ['=', '='] cs).or
      ((literal? ['!', '='] cs).or ((literal? ['<'] cs).or (literal? ['>'] cs))))) =
      (relation? cs).map Prod.snd := by
  unfold relation?
  split
  case h_1 | h_2 | h_3 | h_4 => simp [literal?]
  case h_5 rest hne | h_6 rest hne =>
    have hnone : literal? ['='] rest = none := literal?_eq_none hne
    simp [literal?, hnone]
  case h_7 hle hge heq hne hlt hgt =>
    rw [literal?_eq_none hle, literal?_eq_none hge, literal?_eq_none heq, literal?_eq_none hne,
      literal?_eq_none hlt, literal?_eq_none hgt]
    rfl

theorem computes_relop :
    Computes rules bound 7 (.rule .relop) fun cs => (relation? cs).map Prod.snd :=
  (((computes_lit "<=").alt ((computes_lit ">=").alt ((computes_lit "==").alt
    ((computes_lit "!=").alt ((computes_lit "<").alt (computes_lit ">")))))).congr
    fun cs _ => literal?_relations cs).rule

theorem computes_join :
    Computes rules bound 3 (.alt (.rule .or) (.rule .and)) fun cs => (join? cs).map Prod.snd := by
  have hor : Computes rules bound 2 (.rule .or) (literal? Join.or.symbol) :=
    (computes_lit "||").rule
  have hand : Computes rules bound 2 (.rule .and) (literal? Join.and.symbol) :=
    (computes_lit "&&").rule
  refine (hor.alt hand).congr fun cs _ => ?_
  unfold join?
  cases literal? Join.or.symbol cs with
  | none => cases literal? Join.and.symbol cs <;> rfl
  | some rest => rfl

/-! ## Guards -/

/-- With enough depth for both, an expression leaves of every text shorter than `bound` what a
reader does. -/
def Mirrors {α : Type} (bound size depth : Nat) (e : Expression Rule)
    (reader? : Nat → List Char → Option (α × List Char)) : Prop :=
  ∀ cs fuel n, cs.length < bound → size + 64 * cs.length ≤ fuel → depth + 4 * cs.length ≤ n →
    recognize rules fuel e cs = (reader? n cs).map Prod.snd

section Mirrors

variable {α : Type} {size depth : Nat} {e : Expression Rule}
  {reader? : Nat → List Char → Option (α × List Char)}

theorem Mirrors.computes (h : Mirrors bound size depth e reader?) {n bound' : Nat}
    (hbound : bound' ≤ bound) (hn : depth + 4 * bound' ≤ n + 4) :
    Computes rules bound' size e fun cs => (reader? n cs).map Prod.snd :=
  fun cs fuel hcs hfuel => h cs fuel n (by omega) hfuel (by omega)

theorem mirrors_of_computes
    (h : ∀ cs n, cs.length < bound → depth + 4 * cs.length ≤ n →
      ∃ f, Computes rules (cs.length + 1) size e f ∧ f cs = (reader? n cs).map Prod.snd) :
    Mirrors bound size depth e reader? := by
  intro cs fuel n hcs hfuel hn
  obtain ⟨f, hcomputes, hf⟩ := h cs n hcs hn
  exact (hcomputes cs fuel (Nat.lt_succ_self _) hfuel).trans hf

end Mirrors

theorem length_literal?_lt {lit cs rest : List Char} (hlit : lit ≠ [])
    (h : literal? lit cs = some rest) : rest.length < cs.length := by
  obtain rfl := literal?_eq_some_iff.1 h
  have hpos := List.length_pos_of_ne_nil hlit
  simp only [List.length_append]
  omega

theorem length_relation?_lt {cs : List Char} {x : Relation × List Char}
    (h : relation? cs = some x) : x.2.length < cs.length := by
  obtain ⟨r, rest⟩ := x
  have hpos : 0 < r.symbol.length := by cases r <;> simp [Relation.symbol]
  have hlength := congrArg List.length (eq_symbol_append_of_relation? h)
  rw [List.length_append] at hlength
  show rest.length < cs.length
  omega

theorem length_join?_lt {cs : List Char} {x : Join × List Char} (h : join? cs = some x) :
    x.2.length < cs.length := by
  obtain ⟨join, rest⟩ := x
  have hpos : 0 < join.symbol.length := by cases join <;> simp [Join.symbol]
  have hlength := congrArg List.length (eq_symbol_append_of_join? h)
  rw [List.length_append] at hlength
  show rest.length < cs.length
  omega

/-- Where a guard in parentheses stands, no word does, and the other way round. -/
theorem mirrors_operand (ih : Mirrors bound 60 4 (.rule .guardExpr) expression?) :
    Mirrors (bound + 1) 9 1 operand operand? := by
  refine mirrors_of_computes fun cs n hcs hn => ?_
  obtain ⟨n, rfl⟩ : ∃ k, n = k + 1 := ⟨n - 1, by omega⟩
  -- only texts shorter than `cs` stand behind its first parenthesis
  have hexpr : Computes rules cs.length 60 (.rule .guardExpr) fun x =>
      (expression? n x).map Prod.snd := ih.computes (by omega) (by omega)
  have hparen : Computes rules (cs.length + 1) 5 (.rule .paren) fun x =>
      (literal? ['('] x).bind fun x => (some (skipSpaces x)).bind fun x =>
        ((expression? n x).map Prod.snd).bind fun x => (some (skipSpaces x)).bind fun x =>
          literal? [')'] x :=
    ((computes_lit "(").seq_of_progress (fun h => length_literal?_lt (by simp) h)
      (computes_sp.seq (hexpr.seq (computes_sp.seq (computes_lit ")"))))).rule.mono
      (Nat.le_refl _) (by decide)
  refine ⟨_, (computes_clock.alt (computes_integer.alt (computes_boolean.alt hparen))).mono
    (Nat.le_refl _) (by decide), ?_⟩
  by_cases hopen : ∃ ds, cs = '(' :: ds
  · obtain ⟨ds, rfl⟩ := hopen
    have hword : word? ('(' :: ds) = none := by
      have hc : isWordChar '(' = false := by decide
      simp [word?, hc]
    simp only [hword, Option.bind_none, Option.none_or, literal?, if_true, Option.bind_some,
      operand?]
    cases expression? n (skipSpaces ds) with
    | none => rfl
    | some x => cases hclose : literal? [')'] (skipSpaces x.2) <;> simp [hclose]
  · have hnone : literal? ['('] cs = none :=
      literal?_eq_none fun rest h => hopen ⟨rest, by simpa using h⟩
    rw [hnone, Option.bind_none, Option.or_none, ← wordOperandRest?_eq,
      operand?.eq_3 _ _ fun ds hds => hopen ⟨ds, hds⟩]
    unfold wordOperandRest?
    cases word? cs with
    | none => rfl
    | some x => cases ho : wordOperand? x.1 <;> simp [ho]

theorem mirrors_comparison (hoperand : Mirrors bound 9 1 operand operand?) :
    Mirrors bound 17 2 (.rule .comparison) comparison? := by
  refine mirrors_of_computes fun cs n hcs hn => ?_
  obtain ⟨n, rfl⟩ : ∃ k, n = k + 1 := ⟨n - 1, by omega⟩
  have hfirst : Computes rules (cs.length + 1) 9 operand fun x => (operand? n x).map Prod.snd :=
    hoperand.computes (by omega) (by omega)
  refine ⟨_, (hfirst.seq (computes_behind computes_relop hfirst length_relation?_lt)).rule.mono
    (Nat.le_refl _) (by decide), ?_⟩
  simp only [comparison?]
  cases operand? n cs <;> rfl

/-! ### Negations -/

/-- What follows a `!` that is not the start of `!=`. -/
def notRest? (cs : List Char) : Option (List Char) :=
  (literal? ['!'] cs).bind fun rest => if (literal? ['='] rest).isSome then none else some rest

theorem notRest?_eq_some_iff {cs rest : List Char} :
    notRest? cs = some rest ↔ cs = '!' :: rest ∧ ∀ tail, rest ≠ '=' :: tail := by
  simp only [notRest?, Option.bind_eq_some_iff, literal?_eq_some_iff]
  constructor
  · rintro ⟨after, rfl, hrest⟩
    cases hequals : literal? ['='] after with
    | some tail => simp [hequals] at hrest
    | none =>
      obtain rfl : after = rest := by simpa [hequals] using hrest
      refine ⟨rfl, ?_⟩
      rintro tail rfl
      simp [literal?] at hequals
  · rintro ⟨rfl, hne⟩
    have hnone : literal? ['='] rest = none := literal?_eq_none hne
    exact ⟨rest, rfl, by simp [hnone]⟩

theorem length_notRest?_lt {cs rest : List Char} (h : notRest? cs = some rest) :
    (skipSpaces rest).length < cs.length := by
  obtain ⟨rfl, -⟩ := notRest?_eq_some_iff.1 h
  have hspaces := length_skipSpaces_le rest
  simp only [List.length_cons]
  omega

/-- What follows all negations at the front of a text. -/
def behindNots (cs : List Char) : List Char :=
  match _h : notRest? cs with
  | some rest => behindNots (skipSpaces rest)
  | none => cs
termination_by cs.length
decreasing_by exact length_notRest?_lt _h

theorem behindNots_of_some {cs rest : List Char} (h : notRest? cs = some rest) :
    behindNots cs = behindNots (skipSpaces rest) := by
  rw [behindNots]
  split <;> simp_all

theorem behindNots_of_none {cs : List Char} (h : notRest? cs = none) : behindNots cs = cs := by
  rw [behindNots]
  split <;> simp_all

theorem computes_nots :
    Computes rules bound 6 (.many (.seq (.rule .not) sp)) fun cs => some (behindNots cs) := by
  have hnot : Computes rules bound 4 (.rule .not) notRest? :=
    ((computes_lit "!").seq (computes_lit "=").absent).rule
  have hbody : Computes rules bound 5 (.seq (.rule .not) sp) fun cs =>
      (notRest? cs).map skipSpaces :=
    (hnot.seq computes_sp).congr fun cs _ => by cases notRest? cs <;> rfl
  refine hbody.many ?_ ?_ ?_
  · intro cs rest _ hrest
    obtain ⟨after, hafter, rfl⟩ := Option.map_eq_some_iff.1 hrest
    exact length_notRest?_lt hafter
  · intro cs _ hnone
    exact behindNots_of_none (by simpa using hnone)
  · intro cs rest _ hrest
    obtain ⟨after, hafter, rfl⟩ := Option.map_eq_some_iff.1 hrest
    exact behindNots_of_some hafter

theorem comparison?_bang (n : Nat) (cs : List Char) : comparison? n ('!' :: cs) = none := by
  have hword : word? ('!' :: cs) = none := by
    have hc : isWordChar '!' = false := by decide
    simp [word?, hc]
  cases n with
  | zero => rfl
  | succ n =>
    cases n with
    | zero => rfl
    | succ n =>
      have hoperand : operand? (n + 1) ('!' :: cs) = none := by
        rw [operand?.eq_3 _ _ (by simp), hword]
        rfl
      simp [comparison?, hoperand]

/-- A factor is a comparison behind its negations. -/
theorem rest_factor? (hcomparison : Mirrors bound 17 2 (.rule .comparison) comparison?)
    {n m : Nat} {cs : List Char} (hcs : cs.length < bound) (hn : 3 + 4 * cs.length ≤ n)
    (hm : 2 + 4 * cs.length ≤ m) :
    (factor? n cs).map Prod.snd = (comparison? m (behindNots cs)).map Prod.snd := by
  induction n generalizing cs with
  | zero => omega
  | succ n ih =>
    cases hnot : notRest? cs with
    | some rest =>
      have hlength := length_notRest?_lt hnot
      obtain ⟨rfl, hne⟩ := notRest?_eq_some_iff.1 hnot
      rw [behindNots_of_some hnot, ← ih (by omega) (by omega) (by omega), factor?.eq_3 _ _ hne]
      cases factor? n (skipSpaces rest) <;> rfl
    | none =>
      rw [behindNots_of_none hnot]
      by_cases hbang : ∃ rest, cs = '!' :: rest
      · obtain ⟨rest, rfl⟩ := hbang
        -- the `!` starts `!=`, with which no comparison starts either
        obtain ⟨tail, rfl⟩ : ∃ tail, rest = '=' :: tail := by
          by_contra hequals
          rw [notRest?_eq_some_iff.2 ⟨rfl, fun tail htail => hequals ⟨tail, htail⟩⟩] at hnot
          simp at hnot
        rw [comparison?_bang]
        rfl
      · have hne : ∀ rest, cs = '!' :: rest → False := fun rest hrest => hbang ⟨rest, hrest⟩
        -- the rule does not know the depth, so all depths that suffice give the same
        have hstable : (comparison? n cs).map Prod.snd = (comparison? m cs).map Prod.snd :=
          (hcomparison cs _ n hcs (Nat.le_refl _) (by omega)).symm.trans
            (hcomparison cs _ m hcs (Nat.le_refl _) hm)
        rw [factor?.eq_4 _ _ (fun tail htail => hne _ htail) hne, ← hstable]
        cases comparison? n cs <;> rfl

theorem mirrors_factor (hcomparison : Mirrors bound 17 2 (.rule .comparison) comparison?) :
    Mirrors bound 18 3 (.seq (.many (.seq (.rule .not) sp)) (.rule .comparison)) factor? := by
  refine mirrors_of_computes fun cs n hcs hn => ?_
  have hright : Computes rules (cs.length + 1) 17 (.rule .comparison) fun x =>
      (comparison? n x).map Prod.snd := hcomparison.computes (by omega) (by omega)
  exact ⟨_, computes_nots.seq hright, (rest_factor? hcomparison hcs hn (by omega)).symm⟩

/-! ### Sequences -/

theorem mirrors_expression (hcomparison : Mirrors bound 17 2 (.rule .comparison) comparison?) :
    Mirrors bound 60 4 (.rule .guardExpr) expression? := by
  refine mirrors_of_computes fun cs n hcs hn => ?_
  obtain ⟨n, rfl⟩ : ∃ k, n = k + 1 := ⟨n - 1, by omega⟩
  have hfirst : Computes rules (cs.length + 1) 17 (.rule .comparison) fun x =>
      (comparison? n x).map Prod.snd := hcomparison.computes (by omega) (by omega)
  have hfactor : Computes rules (cs.length + 1) 18
      (.seq (.many (.seq (.rule .not) sp)) (.rule .comparison)) fun x =>
      (factor? n x).map Prod.snd := (mirrors_factor hcomparison).computes (by omega) (by omega)
  have hfurther := computes_behind computes_join hfactor length_join?_lt
  refine ⟨_, (computes_nots.seq (hfirst.seq hfurther)).rule.mono (Nat.le_refl _) (by decide), ?_⟩
  rw [Option.bind_some, ← rest_factor? (n := n) (m := n) hcomparison hcs (by omega) (by omega)]
  simp only [expression?]
  cases factor? n cs <;> rfl

/-- The flat rule for guards reads as far as the reader. Inside parentheses the text is shorter. -/
theorem mirrors_guardExpr (bound : Nat) : Mirrors bound 60 4 (.rule .guardExpr) expression? := by
  induction bound with
  | zero =>
    intro cs fuel n hcs
    exact absurd hcs (Nat.not_lt_zero _)
  | succ bound ih => exact mirrors_expression (mirrors_comparison (mirrors_operand ih))

/-! ## Acceptance -/

/-- Whether the pass that `explain` makes over a text succeeds. -/
def accepts (start : Rule) (cs : List Char) : Bool :=
  (follow rules (64 * (cs.length + 2)) false (.rule start) ⟨0, cs⟩ .empty).1.isSome

theorem accepts_eq {start : Rule} {cs : List Char} {size : Nat}
    {f : List Char → Option (List Char)}
    (h : Computes rules (cs.length + 1) size (.rule start) f) (hsize : size ≤ 128) :
    accepts start cs = (f cs).isSome := by
  have hleads := leads_follow rules (64 * (cs.length + 2)) false (.rule start) ⟨0, cs⟩ .empty
  have hcs := h cs (64 * (cs.length + 2)) (Nat.lt_succ_self _) (by omega)
  rw [accepts, ← hcs, ← hleads.rest, Option.isSome_map]

/-- The whole text has been read, up to separators. -/
def finished? (cs : List Char) : Option (List Char) :=
  if (skipSpaces cs).isEmpty then some (skipSpaces cs) else none

theorem isSome_ite_some {α : Type} (b : Bool) (x : α) :
    (if b = true then some x else none).isSome = b := by
  cases b <;> rfl

theorem isSome_finished? (cs : List Char) : (finished? cs).isSome = (skipSpaces cs).isEmpty :=
  isSome_ite_some _ _

theorem computes_finished : Computes rules bound 3 (.seq sp (.rule .finish)) finished? := by
  have hfinish : Computes rules bound 2 (.rule .finish) fun cs =>
      if cs.isEmpty then some cs else none := computes_finish.rule
  exact computes_sp.seq hfinish

/-- What is left of a guard when its expression, if there is one, has been read. -/
def guardRest (cs : List Char) : List Char :=
  ((expression? (depthBound cs) (skipSpaces cs)).map Prod.snd).getD (skipSpaces cs)

theorem accepts_guard (cs : List Char) :
    accepts .guard cs = (finished? (guardRest cs)).isSome := by
  have hexpr : Computes rules (cs.length + 1) 60 (.rule .guardExpr) fun x =>
      (expression? (depthBound cs) x).map Prod.snd :=
    (mirrors_guardExpr _).computes (Nat.le_refl _) (by simp only [depthBound]; omega)
  have hguard : Computes rules (cs.length + 1) 64 (.rule .guard) fun x =>
      (some (skipSpaces x)).bind fun x =>
        (some (((expression? (depthBound cs) x).map Prod.snd).getD x)).bind finished? :=
    (computes_sp.seq (hexpr.optional.seq computes_finished)).rule
  exact accepts_eq hguard (by decide)

theorem eq_nil_of_suffix_of_skipSpaces {cs rest : List Char} (hcs : Text.Dense cs)
    (hsuffix : rest <:+ cs) (h : skipSpaces rest = []) : rest = [] := by
  by_contra hne
  have hlast : cs.getLast? = some (rest.getLast hne) := by
    obtain ⟨front, rfl⟩ := hsuffix
    rw [List.getLast?_append_of_ne_nil _ hne, List.getLast?_eq_some_getLast hne]
  have hspace : isSpace (rest.getLast hne) = true :=
    List.dropWhile_eq_nil_iff.1 h _ (List.getLast_mem hne)
  have hblank := hcs.last _ hlast
  rw [isBlank_of_isSpace hspace] at hblank
  exact Bool.noConfusion hblank

theorem skipSpaces_of_dense {cs : List Char} (h : Text.Dense cs) : skipSpaces cs = cs := by
  refine skipSpaces_of_startsDense fun c hc => ?_
  cases hspace : isSpace c with
  | false => rfl
  | true =>
    have hblank := h.first c hc
    rw [isBlank_of_isSpace hspace] at hblank
    exact hblank

/-- The rule for guards accepts a text without blank ends exactly if it has the shape of a
guard. -/
theorem accepts_guard_eq {cs : List Char} (h : Text.Dense cs) :
    accepts .guard cs = (meaning? cs).isSome := by
  rw [accepts_guard, guardRest, skipSpaces_of_dense h, meaning?]
  cases hread : expression? (depthBound cs) cs with
  | none =>
    have hcs : cs.isEmpty = false := by simpa using h.nonempty
    simp [finished?, skipSpaces_of_dense h, hcs]
  | some x =>
    obtain ⟨r, rest⟩ := x
    obtain ⟨d, hd⟩ := (sound _).expression hread
    have hsuffix : rest <:+ cs := ⟨d.text, hd.symm⟩
    cases rest with
    | nil => rfl
    | cons c rest =>
      have hskip : skipSpaces (c :: rest) ≠ [] := fun hnil => by
        simpa using eq_nil_of_suffix_of_skipSpaces h hsuffix hnil
      simp [finished?, hskip]

/-- A guard is refused for its shape exactly if the rule for guards refuses the trimmed text. -/
theorem read_unexpected_iff (cs : List Char) :
    (∃ e, Guard.read cs = .error (.unexpected e)) ↔ accepts .guard (Text.trim cs) = false := by
  by_cases hblank : Text.trim cs = []
  · have haccepts : accepts .guard [] = true := by decide
    simp [Guard.read, hblank, haccepts]
  · rw [accepts_guard_eq (Text.dense_trim hblank)]
    simp only [Guard.read, List.isEmpty_iff, hblank, if_false]
    cases meaning? (Text.trim cs) with
    | none => simp
    | some r => cases r <;> simp

end Grammar
end TimedAutomata
