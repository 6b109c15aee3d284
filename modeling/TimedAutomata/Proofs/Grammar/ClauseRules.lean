import TimedAutomata.Clause.Reader
import TimedAutomata.Proofs.Grammar.GuardRules

/-!
# The rules for clauses against their readers

The rules for headers and for transitions accept exactly what their readers do. Between the
parentheses of a transition, the rule for raw guards recurs into inner parentheses, where the
reader counts how many are open.

* `accepts_header`: headers
* `computes_rawGuard`, `rest_rawGuard?`: raw guards, by the rule and by the reader
* `accepts_transition`: transitions
-/

namespace TimedAutomata
namespace Grammar

open Rule.body (lit sp)

variable {bound : Nat}

/-! ## Headers -/

/-- The rule for headers accepts exactly what is read as a header. -/
theorem accepts_header (cs : List Char) : accepts .header cs = (header? cs).isSome := by
  have hcta : Computes rules (cs.length + 1) 1 (lit "Cta") (literal? ['C', 't', 'a']) :=
    computes_lit "Cta"
  have hequals : Computes rules (cs.length + 1) 1 (lit "=") (literal? ['=']) := computes_lit "="
  have hinit : Computes rules (cs.length + 1) 1 (lit "Init") (literal? ['I', 'n', 'i', 't']) :=
    computes_lit "Init"
  have hlabel : Computes rules (cs.length + 1) 4 (.rule .label) fun x => (word? x).map Prod.snd :=
    computes_word.rule
  have hstate : Computes rules (cs.length + 1) 4 (.rule .state) fun x => (word? x).map Prod.snd :=
    computes_word.rule
  have hheader : Computes rules (cs.length + 1) 15 (.rule .header) _ :=
    (computes_sp.seq (hcta.seq (computes_sp1.seq (hlabel.seq (computes_sp.seq (hequals.seq
      (computes_sp.seq (hinit.seq (computes_sp1.seq (hstate.seq computes_finished)))))))))).rule
  rw [accepts_eq hheader (by decide), header?]
  simp only [Option.bind_eq_bind, Option.isSome_bind, Option.any_map, Option.any_some,
    isSome_finished?, isSome_ite_some]

/-! ## Raw guards -/

/-- Any character that neither opens nor closes anything in a raw guard. -/
def isPlain (c : Char) : Bool :=
  !(c == '(' || c == ')' || c == ',')

/-- Where a raw guard ends: at a parenthesis or comma of its own, or where the text does. -/
def rawRest : (limit : Nat) → List Char → List Char
  | 0, cs => cs
  | _ + 1, [] => []
  | limit + 1, c :: cs =>
    if c = '(' then
      match literal? [')'] (rawRest limit cs) with
      | some rest => rawRest limit rest
      | none => c :: cs
    else if isPlain c then rawRest limit cs else c :: cs

theorem length_rawRest_le (limit : Nat) (cs : List Char) :
    (rawRest limit cs).length ≤ cs.length := by
  induction limit generalizing cs with
  | zero => exact Nat.le_refl _
  | succ limit ih =>
    cases cs with
    | nil => exact Nat.le_refl _
    | cons c cs =>
      have hcs := ih cs
      rw [rawRest]
      split
      · cases hclose : literal? [')'] (rawRest limit cs) with
        | none => exact Nat.le_refl _
        | some rest =>
          have hrest := length_literal?_lt (by simp) hclose
          have hmore := ih rest
          simp only [List.length_cons]
          omega
      · split
        · simp only [List.length_cons]
          omega
        · exact Nat.le_refl _

/-- A limit that exceeds the length of the text is none. -/
theorem rawRest_of_le {limit : Nat} {cs : List Char} (h : cs.length ≤ limit) :
    rawRest limit cs = rawRest cs.length cs := by
  induction limit using Nat.strong_induction_on generalizing cs with
  | _ limit ih =>
    cases cs with
    | nil => cases limit <;> rfl
    | cons c cs =>
      obtain ⟨limit, rfl⟩ : ∃ k, limit = k + 1 := ⟨limit - 1, by simp at h; omega⟩
      have hcs : cs.length ≤ limit := by simpa using h
      have hinner : rawRest limit cs = rawRest cs.length cs := ih limit (by omega) hcs
      simp only [List.length_cons, rawRest, hinner]
      cases hclose : literal? [')'] (rawRest cs.length cs) with
      | none => rfl
      | some rest =>
        have hrest := length_literal?_lt (by simp) hclose
        have hlength := length_rawRest_le cs.length cs
        have hlimit : rawRest limit rest = rawRest rest.length rest :=
          ih limit (by omega) (by omega)
        have hlast : rawRest cs.length rest = rawRest rest.length rest :=
          ih cs.length (by omega) (by omega)
        simp only [hlimit, hlast]

theorem isPlain_of_rawRest {limit : Nat} {cs rest : List Char} {c : Char}
    (hlimit : cs.length ≤ limit) (h : rawRest limit cs = c :: rest) : isPlain c = false := by
  induction limit generalizing cs with
  | zero =>
    obtain rfl := List.eq_nil_of_length_eq_zero (Nat.le_zero.1 hlimit)
    simp [rawRest] at h
  | succ limit ih =>
    cases cs with
    | nil => simp [rawRest] at h
    | cons d cs =>
      have hcs : cs.length ≤ limit := by simpa using hlimit
      rw [rawRest] at h
      split at h
      · next hopen =>
        cases hclose : literal? [')'] (rawRest limit cs) with
        | none =>
          obtain ⟨rfl, -⟩ : d = c ∧ cs = rest := by simpa [hclose] using h
          simp [hopen, isPlain]
        | some after =>
          have hafter := length_literal?_lt (by simp) hclose
          have hlength := length_rawRest_le limit cs
          have hmore : rawRest limit after = c :: rest := by simpa [hclose] using h
          exact ih (by omega) hmore
      · split at h
        · exact ih hcs h
        · next hplain =>
          obtain ⟨rfl, -⟩ : d = c ∧ cs = rest := by simpa using h
          simpa using hplain

/-- The rule for raw guards. Inside parentheses the text is shorter. -/
theorem computes_rawGuard (bound : Nat) :
    Computes rules bound 5 (.rule .rawGuard) fun cs => some (rawRest cs.length cs) := by
  induction bound with
  | zero =>
    intro cs fuel hcs
    exact absurd hcs (Nat.not_lt_zero _)
  | succ bound ih =>
    have hclose : Computes rules bound 1 (lit ")") (literal? [')']) := computes_lit ")"
    have hparen : Computes rules (bound + 1) 2
        (.inOrder [lit "(", .rule .rawGuard, lit ")"]) fun cs =>
        (literal? ['('] cs).bind fun cs => literal? [')'] (rawRest cs.length cs) :=
      (computes_lit "(").seq_of_progress (fun h => length_literal?_lt (by simp) h) (ih.seq hclose)
    have hbody := hparen.alt (computes_one isPlain)
    refine (hbody.many ?_ ?_ ?_).rule
    · intro cs rest _ hrest
      rcases Option.or_eq_some_iff.1 hrest with hopen | ⟨-, hone⟩
      · obtain ⟨after, hafter, hrest⟩ := Option.bind_eq_some_iff.1 hopen
        have hopened := length_literal?_lt (by simp) hafter
        have hclosed := length_literal?_lt (by simp) hrest
        have hlength := length_rawRest_le after.length after
        omega
      · exact length_one?_lt hone
    · intro cs _ hnone
      obtain ⟨hopen, hone⟩ := Option.or_eq_none_iff.1 hnone
      cases cs with
      | nil => rfl
      | cons c cs =>
        rw [List.length_cons, rawRest]
        split
        · next hc =>
          subst hc
          have hunclosed : literal? [')'] (rawRest cs.length cs) = none := by
            simpa [literal?] using hopen
          simp [hunclosed]
        · have hplain : isPlain c = false := by simpa [one?] using hone
          simp [hplain]
    · intro cs rest _ hrest
      cases cs with
      | nil => simp [literal?, one?] at hrest
      | cons c cs =>
        by_cases hc : c = '('
        · subst hc
          have hplain : isPlain '(' = false := by decide
          have hclosed : literal? [')'] (rawRest cs.length cs) = some rest := by
            simpa [literal?, one?, hplain] using hrest
          have hafter := length_literal?_lt (by simp) hclosed
          have hlength := length_rawRest_le cs.length cs
          simp only [List.length_cons, rawRest, if_true, hclosed]
          exact rawRest_of_le (by omega)
        · have hne : literal? ['('] (c :: cs) = none := by simp [literal?, Ne.symm hc]
          obtain ⟨hplain, rfl⟩ : isPlain c = true ∧ cs = rest := by
            simpa [hne, one?] using hrest
          simp only [List.length_cons, rawRest, hc, if_false, hplain, if_true]

theorem rest_rawGuard?_open (depth : Nat) (cs : List Char) :
    (rawGuard? depth ('(' :: cs)).map Prod.snd = (rawGuard? (depth + 1) cs).map Prod.snd := by
  cases depth <;> simp [rawGuard?, Function.comp_def]

theorem rest_rawGuard?_close (depth : Nat) (cs : List Char) :
    (rawGuard? (depth + 1) (')' :: cs)).map Prod.snd = (rawGuard? depth cs).map Prod.snd := by
  simp [rawGuard?, Function.comp_def]

theorem rest_rawGuard?_plain {c : Char} (hc : isPlain c = true) (depth : Nat) (cs : List Char) :
    (rawGuard? depth (c :: cs)).map Prod.snd = (rawGuard? depth cs).map Prod.snd := by
  have hne : c ≠ '(' ∧ c ≠ ')' ∧ c ≠ ',' := by
    simpa [isPlain, and_assoc] using hc
  cases depth <;> simp [rawGuard?, hne, Function.comp_def]

theorem eq_of_not_isPlain {c : Char} (h : isPlain c = false) : c = '(' ∨ c = ')' ∨ c = ',' := by
  simpa only [isPlain, Bool.not_eq_false', Bool.or_eq_true, beq_iff_eq, or_assoc] using h

/-- The reader of raw guards counts the parentheses that are open. It gets as far as the rule,
unless the rule ends at an opening parenthesis. -/
theorem rest_rawGuard? (depth : Nat) (cs : List Char) :
    (rawGuard? depth cs).map Prod.snd =
      if (rawRest cs.length cs).head? = some '(' then none
      else (rawGuard? depth (rawRest cs.length cs)).map Prod.snd := by
  induction hn : cs.length using Nat.strong_induction_on generalizing depth cs with
  | _ n ih =>
    subst hn
    cases cs with
    | nil => simp [rawRest]
    | cons c cs =>
      have hcs := ih cs.length (by simp) (depth + 1) cs rfl
      rw [List.length_cons, rawRest]
      split
      · next hopen =>
        subst hopen
        rw [rest_rawGuard?_open, hcs]
        cases hclose : literal? [')'] (rawRest cs.length cs) with
        | some rest =>
          have hrest := length_literal?_lt (by simp) hclose
          have hlength := length_rawRest_le cs.length cs
          have hlimit : rawRest cs.length rest = rawRest rest.length rest :=
            rawRest_of_le (by omega)
          have hmore := ih rest.length (by simp only [List.length_cons]; omega) depth rest rfl
          rw [literal?_eq_some_iff.1 hclose]
          simpa [rest_rawGuard?_close, hlimit] using hmore
        | none =>
          -- the rule stops in front of the parenthesis, and the reader at no other place
          simp only [List.head?_cons, if_true]
          split
          · rfl
          · next hhead =>
            cases hrest : rawRest cs.length cs with
            | nil => rfl
            | cons d rest =>
              rw [hrest] at hhead hclose
              rcases eq_of_not_isPlain (isPlain_of_rawRest (Nat.le_refl _) hrest) with
                rfl | rfl | rfl
              · simp at hhead
              · simp [literal?] at hclose
              · rfl
      · next hopen =>
        split
        · next hplain =>
          rw [rest_rawGuard?_plain hplain]
          exact ih cs.length (by simp) depth cs rfl
        · simp [hopen]

/-! ## Edges -/

theorem computes_direction :
    Computes rules bound 3 (.alt (.rule .send) (.rule .receive)) fun cs =>
      (direction? cs).map Prod.snd := by
  have hsend : Computes rules bound 2 (.rule .send) (literal? ['!']) := (computes_lit "!").rule
  have hreceive : Computes rules bound 2 (.rule .receive) (literal? ['?']) :=
    (computes_lit "?").rule
  refine (hsend.alt hreceive).congr fun cs _ => ?_
  unfold direction?
  split
  · simp [literal?]
  · simp [literal?]
  · next hsend hreceive =>
    rw [literal?_eq_none hsend, literal?_eq_none hreceive]
    rfl

theorem computes_reset : Computes rules bound 10 (.rule .reset) reset? := by
  have hcomma : Computes rules bound 1 (lit ",") (literal? [',']) := computes_lit ","
  have hopen : Computes rules bound 1 (lit "\x7b") (literal? ['\x7b']) := computes_lit "\x7b"
  have hclock : Computes rules bound 1 (lit "x") (literal? ['x']) := computes_lit "x"
  have hclose : Computes rules bound 1 (lit "\x7d") (literal? ['\x7d']) := computes_lit "\x7d"
  exact (hcomma.seq (computes_sp.seq (hopen.seq (computes_sp.seq (hclock.seq (computes_sp.seq
    (hclose.seq computes_sp))))))).rule

/-- What follows a raw guard, the mark of a reset, if there is one, and the closing parenthesis. -/
def closedRest? (cs : List Char) : Option (List Char) :=
  literal? [')'] ((reset? cs).getD cs)

theorem closedRest?_cons {c : Char} (hclose : c ≠ ')') (hcomma : c ≠ ',') (cs : List Char) :
    closedRest? (c :: cs) = none := by
  have hreset : reset? (c :: cs) = none := by simp [reset?, literal?, Ne.symm hcomma]
  simp [closedRest?, hreset, literal?, Ne.symm hclose]

/-- It does not matter where a raw guard ends that nothing can close. -/
theorem closedRest?_rawRest (cs : List Char) :
    closedRest? (rawRest cs.length cs) =
      ((rawGuard? 0 cs).map Prod.snd).bind closedRest? := by
  rw [rest_rawGuard?]
  cases hrest : rawRest cs.length cs with
  | nil => rfl
  | cons c rest =>
    rcases eq_of_not_isPlain (isPlain_of_rawRest (Nat.le_refl _) hrest) with rfl | rfl | rfl
    · exact closedRest?_cons (by decide) (by decide) rest
    · rfl
    · rfl

theorem computes_guardGroup :
    Computes rules bound 15 (.rule .guardGroup) fun cs =>
      (literal? ['('] cs).bind fun cs => ((rawGuard? 0 cs).map Prod.snd).bind closedRest? := by
  have hopen : Computes rules bound 1 (lit "(") (literal? ['(']) := computes_lit "("
  have hclose : Computes rules bound 1 (lit ")") (literal? [')']) := computes_lit ")"
  refine ((hopen.seq ((computes_rawGuard bound).seq (computes_reset.optional.seq hclose))).congr
    fun cs _ => ?_).rule
  cases literal? ['('] cs with
  | none => rfl
  | some cs => exact closedRest?_rawRest cs

/-- The rule for transitions accepts exactly what is read as an edge. -/
theorem accepts_transition (cs : List Char) : accepts .transition cs = (edge? cs).isSome := by
  have hstate : Computes rules (cs.length + 1) 4 (.rule .state) fun x => (word? x).map Prod.snd :=
    computes_word.rule
  have hpartner : Computes rules (cs.length + 1) 4 (.rule .partner) fun x =>
      (word? x).map Prod.snd := computes_word.rule
  have hpayload : Computes rules (cs.length + 1) 4 (.rule .payload) fun x =>
      (word? x).map Prod.snd := computes_word.rule
  have hcomm : Computes rules (cs.length + 1) 9 (.rule .comm) _ :=
    (hpartner.seq (computes_sp.seq (computes_direction.seq (computes_sp.seq hpayload)))).rule
  have htransition : Computes rules (cs.length + 1) 24 (.rule .transition) _ :=
    ((computes_sp.seq (hstate.seq (computes_sp1.seq (hcomm.seq (computes_sp.seq
      (computes_guardGroup.seq (computes_sp.seq (hstate.seq computes_finished)))))))).rule).mono
      (Nat.le_refl _) (by decide)
  rw [accepts_eq htransition (by decide), edge?]
  simp only [Option.bind_eq_bind, Option.bind_assoc, Option.isSome_bind, Option.any_map,
    Option.any_some, isSome_finished?, isSome_ite_some]
  -- both sides read the same pieces; only the mark of a reset is put differently
  congr! 15 with start - partner direction payload group raw
  unfold closedRest?
  cases reset? raw.2 <;> rfl

end Grammar
end TimedAutomata
