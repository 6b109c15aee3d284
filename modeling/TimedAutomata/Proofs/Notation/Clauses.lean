import TimedAutomata.Network.Reader
import TimedAutomata.Proofs.Guard.Printing

/-!
# Clauses and their spellings

What the readers of clauses accept, and that they read a printed clause as what was printed. The
checks made before a clause is read let both pass.

* `header?_eq_some_iff`, `edge?_eq_some_iff`: the spellings of a clause
* `Clause.header_eq_ok_iff`, `Clause.edge_eq_ok_iff`: the checks refuse nothing that can be read
* `Header.Written`, `Edge.Written`: what holds of every clause that was read
* `Passes w`: the search for the end of a guard goes over `w` and stays at the same depth
* `Clause.header_chars`, `Clause.edge_text`: a printed clause is read back
-/

namespace TimedAutomata

open Grammar

/-! ## Headers -/

/-- The text of a header. -/
def Header.chars (h : Header) : List Char :=
  ['C', 't', 'a', ' '] ++ (h.label.toList ++ ([' ', '=', ' ', 'I', 'n', 'i', 't', ' '] ++
    h.initial.toList))

/-- The names of a header are words. -/
structure Header.Written (h : Header) : Prop where
  label : IsWord h.label.toList
  initial : IsWord h.initial.toList

/-- The spellings of a header. -/
theorem header?_eq_some_iff {cs : List Char} {h : Header} :
    header? cs = some h ↔ h.Written ∧ ∃ s₀ s₁ s₂ s₃ s₄ s₅ : Spaces,
      s₁.chars ≠ [] ∧ s₄.chars ≠ [] ∧
      cs = s₀.chars ++ (['C', 't', 'a'] ++ (s₁.chars ++ (h.label.toList ++ (s₂.chars ++
        (['='] ++ (s₃.chars ++ (['I', 'n', 'i', 't'] ++ (s₄.chars ++
          (h.initial.toList ++ s₅.chars))))))))) := by
  constructor
  · intro hread
    simp only [header?, Option.bind_eq_bind, Option.bind_eq_some_iff, Prod.exists,
      Option.ite_none_right_eq_some, Option.some.injEq] at hread
    obtain ⟨cs₁, hcta, cs₂, hcs₂, label, cs₃, hlabel, cs₄, heq, cs₅, hinit, cs₆, hcs₆, initial,
      cs₇, hinitial, hend, rfl⟩ := hread
    obtain ⟨s₀, rfl⟩ := (literal?_skipSpaces_eq_some_iff (by decide)).1 hcta
    obtain ⟨s₁, hs₁, rfl, hl, -⟩ := spaces?_word?_eq_some_iff.1 ⟨_, hcs₂, hlabel⟩
    obtain ⟨s₂, rfl⟩ := (literal?_skipSpaces_eq_some_iff (by decide)).1 heq
    obtain ⟨s₃, rfl⟩ := (literal?_skipSpaces_eq_some_iff (by decide)).1 hinit
    obtain ⟨s₄, hs₄, rfl, hi, -⟩ := spaces?_word?_eq_some_iff.1 ⟨_, hcs₆, hinitial⟩
    obtain ⟨s₅, rfl⟩ := isEmpty_skipSpaces_iff.1 hend
    exact ⟨⟨by simpa using hl, by simpa using hi⟩, s₀, s₁, s₂, s₃, s₄, s₅, hs₁, hs₄, by simp⟩
  · rintro ⟨hw, s₀, s₁, s₂, s₃, s₄, s₅, hs₁, hs₄, rfl⟩
    have hequals : isWordChar '=' = false := by decide
    obtain ⟨cs₂, hcs₂, hlabel⟩ := spaces?_word?_eq_some_iff.2
      ⟨s₁, hs₁, rfl, hw.label, endsWord_spaces_cons s₂ hequals _⟩
    obtain ⟨cs₆, hcs₆, hinitial⟩ := spaces?_word?_eq_some_iff.2
      ⟨s₄, hs₄, rfl, hw.initial, endsWord_spaces s₅⟩
    simp only [header?, Option.bind_eq_bind, Option.bind_eq_some_iff, Prod.exists,
      Option.ite_none_right_eq_some, Option.some.injEq]
    exact ⟨_, (literal?_skipSpaces_eq_some_iff (by decide)).2 ⟨s₀, rfl⟩, cs₂, hcs₂, _, _, hlabel,
      _, (literal?_skipSpaces_eq_some_iff (by decide)).2 ⟨s₂, rfl⟩,
      _, (literal?_skipSpaces_eq_some_iff (by decide)).2 ⟨s₃, rfl⟩, cs₆, hcs₆, _, _, hinitial,
      isEmpty_skipSpaces_iff.2 ⟨s₅, rfl⟩, by simp⟩

theorem header?_chars {h : Header} (hw : h.Written) : header? h.chars = some h :=
  header?_eq_some_iff.2 ⟨hw, .none, .single, .single, .single, .single, .none,
    by simp [Spaces.single], by simp [Spaces.single],
    by simp [Header.chars, Spaces.none, Spaces.single]⟩

/-! ## Edges -/

/-- The spellings of the mark of a transition that resets the clock, or none. -/
def ResetMark : (resets : Bool) → (mark : List Char) → Prop
  | false, mark => mark = []
  | true, mark => ∃ s₀ s₁ s₂ s₃ : Spaces,
    mark = [','] ++ (s₀.chars ++ (['\x7b'] ++ (s₁.chars ++ (['x'] ++ (s₂.chars ++ (['\x7d'] ++
      s₃.chars))))))

theorem reset?_eq_some_iff {cs rest : List Char} :
    reset? cs = some rest ↔
      ∃ mark, ResetMark true mark ∧ cs = mark ++ rest ∧ StartsDense rest := by
  constructor
  · intro h
    simp only [reset?, Option.bind_eq_bind, Option.bind_eq_some_iff, Option.pure_def,
      Option.some.injEq] at h
    obtain ⟨cs₁, hcomma, cs₂, hopen, cs₃, hx, cs₄, hclose, rfl⟩ := h
    obtain rfl := literal?_eq_some_iff.1 hcomma
    obtain ⟨s₀, rfl⟩ := (literal?_skipSpaces_eq_some_iff (by decide)).1 hopen
    obtain ⟨s₁, rfl⟩ := (literal?_skipSpaces_eq_some_iff (by decide)).1 hx
    obtain ⟨s₂, rfl⟩ := (literal?_skipSpaces_eq_some_iff (by decide)).1 hclose
    obtain ⟨s₃, hs₃⟩ := exists_spaces cs₄
    refine ⟨_, ⟨s₀, s₁, s₂, s₃, rfl⟩, ?_, startsDense_skipSpaces cs₄⟩
    conv_lhs => rw [hs₃]
    simp
  · rintro ⟨mark, ⟨s₀, s₁, s₂, s₃, rfl⟩, rfl, hrest⟩
    simp only [reset?, Option.bind_eq_bind, Option.bind_eq_some_iff, Option.pure_def,
      Option.some.injEq]
    refine ⟨_, literal?_eq_some_iff.2 (by simp only [List.append_assoc]),
      _, (literal?_skipSpaces_eq_some_iff (by decide)).2 ⟨s₀, rfl⟩,
      _, (literal?_skipSpaces_eq_some_iff (by decide)).2 ⟨s₁, rfl⟩,
      _, (literal?_skipSpaces_eq_some_iff (by decide)).2 ⟨s₂, rfl⟩,
      skipSpaces_append_dense s₃ hrest⟩

/-- The mark is found where there is one, and only there. -/
theorem ResetMark.reset? {resets : Bool} {mark : List Char} (h : ResetMark resets mark)
    (cs : List Char) :
    resets = true ∧ TimedAutomata.reset? (mark ++ ([')'] ++ cs)) = some ([')'] ++ cs) ∨
      resets = false ∧ mark = [] ∧ TimedAutomata.reset? (mark ++ ([')'] ++ cs)) = none := by
  cases resets with
  | false =>
    obtain rfl : mark = [] := h
    exact .inr ⟨rfl, rfl, rfl⟩
  | true => exact .inl ⟨rfl, reset?_eq_some_iff.2 ⟨mark, h, rfl, by simp [isSpace]⟩⟩

theorem direction?_eq_some_iff {cs rest : List Char} {d : Direction} :
    direction? cs = some (d, rest) ↔ cs = d.symbol.toList ++ rest := by
  constructor
  · intro h
    unfold direction? at h
    split at h
    · obtain ⟨rfl, rfl⟩ := Prod.mk.inj (Option.some.inj h)
      rfl
    · obtain ⟨rfl, rfl⟩ := Prod.mk.inj (Option.some.inj h)
      rfl
    · simp at h
  · rintro rfl
    cases d <;> rfl

theorem direction?_skipSpaces_eq_some_iff {cs rest : List Char} {d : Direction} :
    direction? (skipSpaces cs) = some (d, rest) ↔
      ∃ s : Spaces, cs = s.chars ++ (d.symbol.toList ++ rest) := by
  have hdense : StartsDense (d.symbol.toList ++ rest) := by
    cases d <;> simp [Direction.symbol, isSpace]
  rw [direction?_eq_some_iff, skipSpaces_eq_iff hdense]

/-- The names of an edge are words. -/
structure RawEdge.Written (e : RawEdge) : Prop where
  start : IsWord e.start.toList
  target : IsWord e.target.toList
  partner : IsWord e.comm.partner.toList
  payload : IsWord e.comm.payload.toList

/-- The spellings of an edge, up to those of its guard. -/
theorem edge?_eq_some_iff {cs : List Char} {e : RawEdge} :
    edge? cs = some e ↔ e.Written ∧ ∃ (s₀ s₁ s₂ s₃ s₄ s₅ s₆ : Spaces) (mark group : List Char),
      s₁.chars ≠ [] ∧ ResetMark e.resets mark ∧
      rawGuard? 0 group =
        some (e.guard, mark ++ ([')'] ++ (s₅.chars ++ (e.target.toList ++ s₆.chars)))) ∧
      cs = s₀.chars ++ (e.start.toList ++ (s₁.chars ++ (e.comm.partner.toList ++ (s₂.chars ++
        (e.comm.direction.symbol.toList ++ (s₃.chars ++ (e.comm.payload.toList ++ (s₄.chars ++
          (['('] ++ group))))))))) := by
  constructor
  · intro hread
    simp only [edge?, Option.bind_eq_bind, Option.bind_eq_some_iff, Prod.exists,
      Option.ite_none_right_eq_some, Option.some.injEq] at hread
    obtain ⟨start, cs₁, hstart, cs₂, hcs₂, partner, cs₃, hpartner, direction, cs₄, hdirection,
      payload, cs₅, hpayload, group, hopen, guard, after, hguard, cs₆, hclose, target, cs₇,
      htarget, hend, rfl⟩ := hread
    obtain ⟨s₀, rfl, hw₀, -⟩ := word?_skipSpaces_eq_some_iff.1 hstart
    obtain ⟨s₁, hs₁, rfl, hw₁, -⟩ := spaces?_word?_eq_some_iff.1 ⟨_, hcs₂, hpartner⟩
    obtain ⟨s₂, rfl⟩ := direction?_skipSpaces_eq_some_iff.1 hdirection
    obtain ⟨s₃, rfl, hw₂, -⟩ := word?_skipSpaces_eq_some_iff.1 hpayload
    obtain ⟨s₄, rfl⟩ := (literal?_skipSpaces_eq_some_iff (by decide)).1 hopen
    obtain ⟨s₅, rfl, hw₃, -⟩ := word?_skipSpaces_eq_some_iff.1 htarget
    obtain ⟨s₆, rfl⟩ := isEmpty_skipSpaces_iff.1 hend
    have hclose := literal?_eq_some_iff.1 hclose
    refine ⟨⟨by simpa using hw₀, by simpa using hw₃, by simpa using hw₁, by simpa using hw₂⟩,
      s₀, s₁, s₂, s₃, s₄, s₅, s₆, ?_⟩
    cases hreset : reset? after with
    | none =>
      simp only [hreset] at hclose
      exact ⟨[], group, hs₁, rfl, by simpa [hclose] using hguard, by simp⟩
    | some rest =>
      obtain ⟨mark, hmark, rfl, -⟩ := reset?_eq_some_iff.1 hreset
      simp only [hreset] at hclose
      exact ⟨mark, group, hs₁, hmark, by simpa [hclose] using hguard, by simp⟩
  · rintro ⟨hw, s₀, s₁, s₂, s₃, s₄, s₅, s₆, mark, group, hs₁, hmark, hguard, rfl⟩
    have hsymbol : EndsWord (s₂.chars ++ (e.comm.direction.symbol.toList ++ (s₃.chars ++
        (e.comm.payload.toList ++ (s₄.chars ++ (['('] ++ group)))))) := by
      cases e.comm.direction <;> exact endsWord_spaces_cons s₂ (by decide) _
    have hgroup : isWordChar '(' = false := by decide
    have hspaces : EndsWord (s₁.chars ++ (e.comm.partner.toList ++ (s₂.chars ++
        (e.comm.direction.symbol.toList ++ (s₃.chars ++ (e.comm.payload.toList ++ (s₄.chars ++
          (['('] ++ group)))))))) := by
      intro c hc
      rw [List.head?_append_of_ne_nil _ hs₁] at hc
      exact isWordChar_of_isSpace (s₁.separate c (List.mem_of_head? hc))
    obtain ⟨cs₂, hcs₂, hpartner⟩ := spaces?_word?_eq_some_iff.2
      ⟨s₁, hs₁, rfl, hw.partner, hsymbol⟩
    simp only [edge?, Option.bind_eq_bind, Option.bind_eq_some_iff, Prod.exists,
      Option.ite_none_right_eq_some, Option.some.injEq]
    refine ⟨_, _, word?_skipSpaces_eq_some_iff.2 ⟨s₀, rfl, hw.start, hspaces⟩, cs₂, hcs₂, _, _,
      hpartner, _, _, direction?_skipSpaces_eq_some_iff.2 ⟨s₂, rfl⟩, _, _,
      word?_skipSpaces_eq_some_iff.2 ⟨s₃, rfl, hw.payload, endsWord_spaces_cons s₄ hgroup _⟩, _,
      (literal?_skipSpaces_eq_some_iff (by decide)).2 ⟨s₄, rfl⟩, _, _, hguard, ?_⟩
    -- with or without the mark, the closing parenthesis is left
    rcases hmark.reset? (s₅.chars ++ (e.target.toList ++ s₆.chars)) with
      ⟨hr, hreset⟩ | ⟨hr, rfl, hreset⟩
    · rw [hreset]
      exact ⟨_, literal?_append [')'] _, _, _,
        word?_skipSpaces_eq_some_iff.2 ⟨s₅, rfl, hw.target, endsWord_spaces s₆⟩,
        isEmpty_skipSpaces_iff.2 ⟨s₆, rfl⟩, by simp [← hr]⟩
    · rw [hreset]
      exact ⟨_, literal?_append [')'] _, _, _,
        word?_skipSpaces_eq_some_iff.2 ⟨s₅, rfl, hw.target, endsWord_spaces s₆⟩,
        isEmpty_skipSpaces_iff.2 ⟨s₆, rfl⟩, by simp [← hr]⟩

/-! ## Checks made before reading -/

/-- The text of a guard and what follows it are the whole text. -/
theorem append_of_rawGuard? {depth : Nat} {cs guard rest : List Char}
    (h : rawGuard? depth cs = some (guard, rest)) : cs = guard ++ rest := by
  induction cs generalizing depth guard with
  | nil => simp [rawGuard?] at h
  | cons c cs ih =>
    unfold rawGuard? at h
    split at h <;> simp_all [Option.map_eq_some_iff]
    all_goals
      obtain ⟨g, hg, rfl⟩ := h
      simp [ih hg]

theorem namesInitial_of_header? {cs : List Char} {h : Header} (hread : header? cs = some h) :
    namesInitial cs = true := by
  obtain ⟨hw, s₀, s₁, s₂, s₃, s₄, s₅, hs₁, hs₄, rfl⟩ := header?_eq_some_iff.1 hread
  have hequals : isWordChar '=' = false := by decide
  have hspace : isSpace '=' = false := by decide
  have hfront : '=' ∉ s₀.chars ++ (['C', 't', 'a'] ++ (s₁.chars ++ (h.label.toList ++
      s₂.chars))) := by
    simp [hw.label.not_mem hequals, Spaces.not_mem _ hspace]
  have hblank (s : Spaces) : Text.IsBlank s.chars :=
    fun c hc => isBlank_of_isSpace (s.separate c hc)
  have hafter : ∀ c, (s₄.chars ++ (h.initial.toList ++ s₅.chars)).head? = some c →
      Text.isBlank c = true := by
    intro c hc
    rw [List.head?_append_of_ne_nil _ hs₄] at hc
    exact hblank s₄ c (List.mem_of_head? hc)
  have hinit : ∀ c ∈ ['I', 'n', 'i', 't'], Text.isBlank c = false := by
    simp [Text.isBlank, Text.blankRanges]
  have hword := Text.firstWord_append (hblank s₃) (by simp) hinit hafter
  have hdrop := dropWhile_append_stop (s₃.chars ++ (['I', 'n', 'i', 't'] ++ (s₄.chars ++
    (h.initial.toList ++ s₅.chars)))) hfront
  simp only [List.append_assoc, List.cons_append, List.nil_append] at hdrop hword
  simp only [namesInitial, List.cons_append, List.nil_append, hdrop, hword]
  rfl

/-- A clause that can be read as an edge passes both checks. -/
theorem checks_of_edge? {cs : List Char} {e : RawEdge} (hread : edge? cs = some e) :
    ')' ∈ cs.dropWhile (· != '(') ∧
      ('!' ∈ cs.takeWhile (· != '(') ∨ '?' ∈ cs.takeWhile (· != '(')) := by
  obtain ⟨hw, s₀, s₁, s₂, s₃, s₄, s₅, s₆, mark, group, hs₁, hmark, hguard, rfl⟩ :=
    edge?_eq_some_iff.1 hread
  have hopen : isWordChar '(' = false := by decide
  have hspace : isSpace '(' = false := by decide
  have hsymbol : '(' ∉ e.comm.direction.symbol.toList := by
    cases e.comm.direction <;> decide
  have hfront : '(' ∉ s₀.chars ++ (e.start.toList ++ (s₁.chars ++ (e.comm.partner.toList ++
      (s₂.chars ++ (e.comm.direction.symbol.toList ++ (s₃.chars ++ (e.comm.payload.toList ++
        s₄.chars))))))) := by
    simp only [List.mem_append, not_or]
    exact ⟨s₀.not_mem hspace, hw.start.not_mem hopen, s₁.not_mem hspace, hw.partner.not_mem hopen,
      s₂.not_mem hspace, hsymbol, s₃.not_mem hspace, hw.payload.not_mem hopen,
      s₄.not_mem hspace⟩
  have hdrop := dropWhile_append_stop group hfront
  have htake := takeWhile_append_stop group hfront
  simp only [List.append_assoc] at hdrop htake
  simp only [List.cons_append, List.nil_append, hdrop, htake]
  refine ⟨?_, ?_⟩
  · simp [append_of_rawGuard? hguard]
  · cases hdir : e.comm.direction <;> simp [Direction.symbol]

/-! ## Clauses -/

namespace Clause

theorem header_eq_ok_iff {c : Clause} {h : Header} :
    c.header = .ok h ↔ header? c.text = some h := by
  unfold header
  constructor
  · intro hok
    split at hok
    · split at hok
      · next hread => rw [hread, Except.ok.inj hok]
      · simp at hok
    · simp at hok
  · intro hread
    simp [namesInitial_of_header? hread, hread]

/-- A clause that can be read as an edge is one if its guard is, and is refused for its guard
otherwise. -/
theorem edge_of_edge? {c : Clause} {raw : RawEdge} (hread : edge? c.text = some raw) :
    c.edge =
      match Guard.read raw.guard with
      | .ok guard => .ok ⟨raw.start, raw.target, raw.comm, guard, raw.resets, c.span⟩
      | .error reason => .error ⟨.invalidGuard reason, c⟩ := by
  obtain ⟨hclose, hsymbol⟩ := checks_of_edge? hread
  unfold edge
  cases hguard : Guard.read raw.guard <;>
    rcases hsymbol with hsymbol | hsymbol <;> simp [hread, hguard, hclose, hsymbol]

/-- The edge that a clause with the names and the guard of `raw` is read as. -/
theorem edge_eq_ok_iff {c : Clause} {e : Edge} :
    c.edge = .ok e ↔ ∃ raw, edge? c.text = some raw ∧ Guard.read raw.guard = .ok e.guard ∧
      e = ⟨raw.start, raw.target, raw.comm, e.guard, raw.resets, c.span⟩ := by
  constructor
  · intro hok
    simp only [edge] at hok
    split at hok
    · simp at hok
    · split at hok
      · simp at hok
      · split at hok
        · simp at hok
        · next raw hread =>
          split at hok
          · next guard hguard =>
            obtain rfl := Except.ok.inj hok
            exact ⟨raw, hread, hguard, rfl⟩
          · simp at hok
  · rintro ⟨raw, hread, hguard, he⟩
    rw [he]
    simp [edge_of_edge? hread, hguard]

end Clause

/-! ## The end of a guard -/

/-- The search for the end of a guard goes over `w` and stays at the same depth. -/
def Passes (w : List Char) : Prop :=
  ∀ depth rest, rawGuard? depth (w ++ rest) = (rawGuard? depth rest).map fun r => (w ++ r.1, r.2)

theorem passes_nil : Passes [] := by
  intro depth rest
  cases h : rawGuard? depth rest <;> simp [h]

theorem Passes.append {v w : List Char} (hv : Passes v) (hw : Passes w) : Passes (v ++ w) := by
  intro depth rest
  rw [List.append_assoc, hv, hw]
  cases rawGuard? depth rest <;> simp

theorem passes_singleton {c : Char} (hopen : c ≠ '(') (hclose : c ≠ ')') (hcomma : c ≠ ',') :
    Passes [c] := by
  intro depth rest
  rw [List.singleton_append, rawGuard?]
  · rfl
  all_goals simp_all

theorem passes_of_not_mem {w : List Char} (hopen : '(' ∉ w) (hclose : ')' ∉ w)
    (hcomma : ',' ∉ w) : Passes w := by
  induction w with
  | nil => exact passes_nil
  | cons c w ih =>
    simp only [List.mem_cons, not_or] at hopen hclose hcomma
    exact (passes_singleton (Ne.symm hopen.1) (Ne.symm hclose.1) (Ne.symm hcomma.1)).append
      (ih hopen.2 hclose.2 hcomma.2)

/-- Parentheses inside a guard are passed together with what they enclose. -/
theorem Passes.paren {w : List Char} (hw : Passes w) : Passes ('(' :: (w ++ [')'])) := by
  intro depth rest
  have hopen (cs : List Char) : rawGuard? depth ('(' :: cs) =
      (rawGuard? (depth + 1) cs).map fun r => ('(' :: r.1, r.2) := by
    rw [rawGuard?]
  have hclose : rawGuard? (depth + 1) (')' :: rest) =
      (rawGuard? depth rest).map fun r => (')' :: r.1, r.2) := by
    rw [rawGuard?]
  rw [List.cons_append, hopen, List.append_assoc, hw, List.singleton_append, hclose]
  cases rawGuard? depth rest <;> simp

theorem passes_word {w : List Char} (hw : IsWord w) : Passes w :=
  passes_of_not_mem (hw.not_mem (by decide)) (hw.not_mem (by decide)) (hw.not_mem (by decide))

theorem passes_spaces (s : Spaces) : Passes s.chars :=
  passes_of_not_mem (s.not_mem (by decide)) (s.not_mem (by decide)) (s.not_mem (by decide))

open Guard Guard.Derivation in
/-- The text of a guard is passed as a whole. -/
theorem passes_text {k : Category} (d : Derivation k) : Passes d.text := by
  induction d with
  | clock => exact passes_word isWord_clock
  | number digits => exact passes_word (isWord_digits digits)
  | const b => exact passes_word (isWord_constText b)
  | paren before inner after ih =>
    simpa [Derivation.text] using
      ((passes_spaces before).append (ih.append (passes_spaces after))).paren
  | noLink | noConjunct | noDisjunct => exact passes_nil
  | link before r after operand more iho ihm =>
    have hsymbol : Passes r.symbol := by
      cases r <;> exact passes_of_not_mem (by decide) (by decide) (by decide)
    exact (passes_spaces before).append (hsymbol.append ((passes_spaces after).append
      (iho.append ihm)))
  | comparison first more ihf ihm | conjunction first more ihf ihm
  | disjunction first more ihf ihm => exact ihf.append ihm
  | plain inner ih => exact ih
  | not after inner ih =>
    have hsymbol : Passes ['!'] := passes_of_not_mem (by decide) (by decide) (by decide)
    exact hsymbol.append ((passes_spaces after).append ih)
  | conjunct before after right more ihr ihm =>
    have hsymbol : Passes ['&', '&'] := passes_of_not_mem (by decide) (by decide) (by decide)
    exact (passes_spaces before).append (hsymbol.append ((passes_spaces after).append
      (ihr.append ihm)))
  | disjunct before after right more ihr ihm =>
    have hsymbol : Passes ['|', '|'] := passes_of_not_mem (by decide) (by decide) (by decide)
    exact (passes_spaces before).append (hsymbol.append ((passes_spaces after).append
      (ihr.append ihm)))

/-- The mark or the closing parenthesis ends a guard. -/
theorem ResetMark.rawGuard? {resets : Bool} {mark : List Char} (h : ResetMark resets mark)
    (rest : List Char) : TimedAutomata.rawGuard? 0 (mark ++ ([')'] ++ rest)) =
      some ([], mark ++ ([')'] ++ rest)) := by
  cases resets with
  | false =>
    obtain rfl : mark = [] := h
    rfl
  | true =>
    obtain ⟨s₀, s₁, s₂, s₃, rfl⟩ := h
    rfl

/-- A guard that is passed ends where the mark or the closing parenthesis stands. -/
theorem Passes.rawGuard? {w : List Char} (hw : Passes w) {resets : Bool} {mark : List Char}
    (hmark : ResetMark resets mark) (rest : List Char) :
    TimedAutomata.rawGuard? 0 (w ++ (mark ++ ([')'] ++ rest))) =
      some (w, mark ++ ([')'] ++ rest)) := by
  rw [hw, hmark.rawGuard?]
  simp

theorem rawGuard?_chars (e : Guard.Expr) {resets : Bool} {mark : List Char}
    (hmark : ResetMark resets mark) (rest : List Char) :
    rawGuard? 0 (e.chars ++ (mark ++ ([')'] ++ rest))) =
      some (e.chars, mark ++ ([')'] ++ rest)) := by
  rw [← e.text_derivation]
  exact (passes_text e.derivation).rawGuard? hmark rest

/-! ## Printed clauses -/

theorem dense_chars {h : Header} (hw : h.Written) : Text.Dense h.chars := by
  have hcta : IsWord ['C', 't', 'a'] := by decide
  have hdense := hcta.dense.sandwich hw.initial.dense ([' '] ++ (h.label.toList ++
    [' ', '=', ' ', 'I', 'n', 'i', 't', ' ']))
  simpa [Header.chars] using hdense

/-- The names of an edge are words, and the numbers of its guard fit the clock. -/
structure Edge.Written (e : Edge) : Prop where
  start : IsWord e.start.toList
  target : IsWord e.target.toList
  partner : IsWord e.comm.partner.toList
  payload : IsWord e.comm.payload.toList
  guard : e.guard.expr.Bounded

/-- The mark as it is printed. -/
def resetChars (resets : Bool) : List Char :=
  if resets then [',', '\x7b', 'x', '\x7d'] else []

theorem resetMark_resetChars (resets : Bool) : ResetMark resets (resetChars resets) := by
  cases resets with
  | false => rfl
  | true => exact ⟨.none, .none, .none, .none, rfl⟩

theorem Edge.toList_text (e : Edge) :
    e.text.toList = e.start.toList ++ ([' '] ++ (e.comm.partner.toList ++
      (e.comm.direction.symbol.toList ++ (e.comm.payload.toList ++ (['('] ++
        (e.guard.expr.chars ++ (resetChars e.resets ++ ([')'] ++ ([' '] ++
          e.target.toList))))))))) := by
  cases h : e.resets <;>
    simp [Edge.text, edgeText, Communication.text, Guard.Expr.text, resetChars, h]

theorem Edge.dense_text {e : Edge} (hw : e.Written) : Text.Dense e.text.toList := by
  have hdense := hw.start.dense.sandwich hw.target.dense ([' '] ++ (e.comm.partner.toList ++
    (e.comm.direction.symbol.toList ++ (e.comm.payload.toList ++ (['('] ++
      (e.guard.expr.chars ++ (resetChars e.resets ++ [')', ' '])))))))
  simpa [e.toList_text] using hdense

namespace Clause

theorem written_of_edge {c : Clause} {e : Edge} (h : c.edge = .ok e) : e.Written := by
  obtain ⟨raw, hraw, hguard, he⟩ := edge_eq_ok_iff.1 h
  have hw := (edge?_eq_some_iff.1 hraw).1
  rw [he]
  exact ⟨hw.start, hw.target, hw.partner, hw.payload, Guard.bounded_of_read hguard⟩

/-- A printed header is read as the header. -/
theorem header_chars {c : Clause} {h : Header} (hw : h.Written) (hc : c.text = h.chars) :
    c.header = .ok h :=
  header_eq_ok_iff.2 (hc ▸ header?_chars hw)

/-- A printed edge is read as the edge, with its guard in the canonical spelling. -/
theorem edge_text {c : Clause} {e : Edge} (hw : e.Written) (hc : c.text = e.text.toList) :
    c.edge = .ok ⟨e.start, e.target, e.comm, ⟨e.guard.expr.text, e.guard.expr⟩, e.resets,
      c.span⟩ := by
  refine edge_eq_ok_iff.2 ⟨⟨e.start, e.target, e.comm, e.guard.expr.chars, e.resets⟩, ?_,
    Guard.read_chars hw.guard, rfl⟩
  have hmark := resetMark_resetChars e.resets
  refine edge?_eq_some_iff.2 ⟨⟨hw.start, hw.target, hw.partner, hw.payload⟩, .none, .single,
    .none, .none, .none, .single, .none, resetChars e.resets, _, by simp [Spaces.single], hmark,
    rawGuard?_chars e.guard.expr hmark _, ?_⟩
  rw [hc, e.toList_text]
  simp [Spaces.none, Spaces.single]

end Clause

end TimedAutomata
