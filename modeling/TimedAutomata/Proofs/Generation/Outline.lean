import TimedAutomata.Proofs.Generation.Identifiers

/-!
# Outlines of programs

The parts of a program are told by their first and last lines: a block in braces ends at the next
closing brace of the same depth, since everything in it stands deeper, and a case of a switch ends
where the next case of the same depth starts. A worker is a function in the first column.

* `rows`: the lines of a text
* `enclosed?`, `items`, `numeral?`: the parts of a line
* `sections`: the parts that some lines start
* `Yields`: which parts some lines yield, whatever follows them
* `blocks`, `block?`, `yields_braced`: blocks in braces
* `casesAt`, `casesAt_caseLines`: the cases of a switch
* `workerLabel?`, `yields_bodyLines`: the workers of a program
-/

namespace TimedAutomata
namespace Generation

open Grammar

/-! ## Lines -/

/-- The lines of a text. -/
def rows (text : String) : List String :=
  (Text.pieces text.toList).map String.ofList

/-- A text made of lines has these lines, and an empty one at the end. -/
theorem rows_join {ls : List String} (h : ∀ l ∈ ls, '\n' ∉ l.toList) :
    rows (String.join (ls.map (· ++ "\n"))) = ls ++ [""] := by
  have hpieces : (ls.flatMap fun l => Text.pieces l.toList) = ls.map String.toList := by
    rw [List.map_eq_flatMap]
    exact List.flatMap_congr fun l hl => Text.pieces_of_not_mem (h l hl)
  rw [rows, Text.pieces_join, hpieces, List.map_append, List.map_map]
  simp [Function.comp_def]

theorem Stmt.blockLines_eq (n : Nat) (ss : List Stmt) :
    Stmt.blockLines n ss = ss.flatMap (Stmt.lines n) := by
  induction ss with
  | nil => rfl
  | cons s ss ih => rw [Stmt.blockLines, ih, List.flatMap_cons]

theorem indented_inj {n : Nat} {s t : String} : indented n s = indented n t ↔ s = t := by
  rw [indented, indented, ← String.toList_inj, String.toList_append, String.toList_append,
    List.append_cancel_left_eq, String.toList_inj]

theorem indented_append (n : Nat) (s t : String) : indented n s ++ t = indented n (s ++ t) :=
  String.append_assoc

/-- A line does not start with a text that stands at a smaller depth. -/
theorem Indented.not_prefix {n : Nat} {l s : String} (h : Indented (n + 1) l) {c : Char}
    (hc : s.toList.head? = some c) (htab : c ≠ '\t') :
    ¬ (indented n s).toList <+: l.toList := by
  rcases List.head?_eq_some_iff.1 hc with ⟨cs, hcs⟩
  rcases h with rfl | ⟨k, t, rfl⟩
  · simp [indented, hcs]
  · have hsplit : (indented (n + 1 + k) t).toList =
        List.replicate n '\t' ++ '\t' :: (List.replicate k '\t' ++ t.toList) := by
      rw [indented, Nat.add_assoc, Nat.add_comm 1 k, List.replicate_add, List.replicate_succ]
      simp
    rw [hsplit, indented, String.toList_append, String.toList_ofList, List.prefix_append_right_inj,
      hcs, List.cons_prefix_cons]
    exact fun hprefix => htab hprefix.1

/-- What stands between two texts at the ends of a third. -/
def enclosed? (before after s : String) : Option String := do
  let rest ← literal? before.toList s.toList
  let middle ← literal? after.toList.reverse rest.reverse
  return String.ofList middle.reverse

theorem enclosed?_eq_some_iff {before after s middle : String} :
    enclosed? before after s = some middle ↔ s = before ++ middle ++ after := by
  simp only [enclosed?, Option.bind_eq_bind, Option.bind_eq_some_iff, literal?_eq_some_iff,
    Option.pure_def, Option.some.injEq, ← String.toList_inj, String.toList_append,
    List.append_assoc]
  constructor
  · rintro ⟨rest, hrest, reversed, hreversed, hmiddle⟩
    have hrest' := congrArg List.reverse hreversed
    rw [List.reverse_reverse, List.reverse_append, List.reverse_reverse] at hrest'
    rw [hrest, hrest', ← hmiddle, String.toList_ofList]
  · intro hs
    exact ⟨_, hs, middle.toList.reverse, by simp, by simp⟩

theorem enclosed?_append (before middle after : String) :
    enclosed? before after (before ++ middle ++ after) = some middle :=
  enclosed?_eq_some_iff.2 rfl

theorem enclosed?_eq_none {before s : String} (h : ¬ before.toList <+: s.toList)
    (after : String) : enclosed? before after s = none := by
  rw [Option.eq_none_iff_forall_ne_some]
  intro middle hmiddle
  apply h
  rw [enclosed?_eq_some_iff.1 hmiddle, String.append_assoc, String.toList_append]
  exact List.prefix_append _ _

/-- The parts of a list with commas between them. -/
def items (s : String) : List String :=
  (s.toList.splitOnP (· = ',')).map fun part => String.ofList (skipSpaces part)

theorem splitOnP_of_not_mem {part : List Char} (h : ',' ∉ part) :
    part.splitOnP (· = ',') = [part] := by
  apply List.splitOnP_eq_singleton
  intro c hc
  simpa using fun heq : c = ',' => h (heq ▸ hc)

theorem items_cons {part rest : List Char} (hcomma : ',' ∉ part) (hdense : StartsDense part) :
    ((part ++ ',' :: ' ' :: rest).splitOnP (· = ',')).map skipSpaces =
      part :: (rest.splitOnP (· = ',')).map skipSpaces := by
  -- the blank behind a comma is skipped
  have hblank : (List.splitOnP (fun c => decide (c = ',')) (' ' :: rest)).map skipSpaces =
      (rest.splitOnP (· = ',')).map skipSpaces := by
    rw [List.splitOnP_cons_eq_if_modifyHead, if_neg (by decide)]
    cases rest.splitOnP (· = ',') with
    | nil => rfl
    | cons first others => simp [skipSpaces, isSpace]
  rw [List.splitOnP_append_cons _ _ (by decide), splitOnP_of_not_mem hcomma, List.map_append,
    hblank]
  simp [skipSpaces_of_startsDense hdense]

/-- Expressions without commas are the parts of their list. -/
theorem items_listText {es : List Expr} (hne : es ≠ [])
    (h : ∀ e ∈ es, ',' ∉ e.text.toList ∧ StartsDense e.text.toList) :
    items (Expr.listText es) = es.map Expr.text := by
  have hparts : ((Expr.listText es).toList.splitOnP (· = ',')).map skipSpaces =
      es.map fun e => e.text.toList := by
    induction es with
    | nil => exact absurd rfl hne
    | cons e es ih =>
      rw [List.forall_mem_cons] at h
      rcases h with ⟨⟨hcomma, hdense⟩, hrest⟩
      cases es with
      | nil =>
        simp [Expr.listText, splitOnP_of_not_mem hcomma, skipSpaces_of_startsDense hdense]
      | cons e' es =>
        have htext : (Expr.listText (e :: e' :: es)).toList =
            e.text.toList ++ ',' :: ' ' :: (Expr.listText (e' :: es)).toList := by
          simp [Expr.listText]
        rw [htext, items_cons hcomma hdense, ih (by simp) hrest]
        rfl
  have hstrings := congrArg (List.map String.ofList) hparts
  simpa [items, Function.comp_def] using hstrings

/-- A number in decimal digits. -/
def numeral? (s : String) : Option Nat :=
  if s.toList ≠ [] ∧ s.toList.all Char.isDigit = true then some (Nat.ofDigitChars 10 s.toList 0)
  else none

theorem numeral?_repr (n : Nat) : numeral? n.repr = some n := by
  have hdigits : ∀ c ∈ Nat.toDigits 10 n, c.isDigit = true := fun c hc =>
    Nat.isDigit_of_mem_toDigits (by decide) (by decide) hc
  rw [numeral?, Nat.toList_repr, if_pos ⟨Nat.toDigits_ne_nil, List.all_eq_true.2 hdigits⟩,
    Nat.ofDigitChars_ten_toDigits]

/-! ## Parts -/

section Sections

variable {α : Type} {head? : String → Option α} {stop : String → Bool}

/-- The parts that lines start: what `head?` finds in the line, and the lines behind it up to one
where the part has to stop. -/
def sections (head? : String → Option α) (stop : String → Bool) :
    List String → List (α × List String)
  | [] => []
  | l :: ls =>
    match head? l with
    | some a => (a, ls.takeWhile fun m => !stop m) :: sections head? stop ls
    | none => sections head? stop ls

theorem sections_append_of_none {ls : List String} (h : ∀ l ∈ ls, head? l = none)
    (rest : List String) : sections head? stop (ls ++ rest) = sections head? stop rest := by
  induction ls with
  | nil => rfl
  | cons l ls ih =>
    rw [List.forall_mem_cons] at h
    simp only [List.cons_append, sections, h.1, ih h.2]

/-- A part ends where it has to stop, or with the lines. -/
theorem sections_cons_append {l : String} {a : α} {body rest : List String}
    (hl : head? l = some a) (hbody : ∀ m ∈ body, head? m = none ∧ stop m = false)
    (hrest : ∀ m ∈ rest.head?, stop m = true) :
    sections head? stop (l :: (body ++ rest)) = (a, body) :: sections head? stop rest := by
  have hstop : rest.takeWhile (fun m => !stop m) = [] := by
    cases rest with
    | nil => rfl
    | cons m rest => simp [hrest m rfl]
  have htake : (body ++ rest).takeWhile (fun m => !stop m) = body := by
    rw [List.takeWhile_append_of_pos (by simpa using fun m hm => (hbody m hm).2), hstop,
      List.append_nil]
  simp only [sections, hl, htake, sections_append_of_none fun m hm => (hbody m hm).1]

/-- The lines yield the given parts, whatever follows them. -/
def Yields (head? : String → Option α) (stop : String → Bool) (ls : List String)
    (found : List (α × List String)) : Prop :=
  ∀ rest, sections head? stop (ls ++ rest) = found ++ sections head? stop rest

theorem yields_nil : Yields head? stop [] [] := fun _ => rfl

theorem Yields.append {ls ms : List String} {found more : List (α × List String)}
    (h : Yields head? stop ls found) (h' : Yields head? stop ms more) :
    Yields head? stop (ls ++ ms) (found ++ more) := by
  intro rest
  rw [List.append_assoc, h, h', List.append_assoc]

theorem Yields.sections_eq {ls : List String} {found : List (α × List String)}
    (h : Yields head? stop ls found) : sections head? stop ls = found := by
  simpa [sections] using h []

theorem yields_of_none {ls : List String} (h : ∀ l ∈ ls, head? l = none) :
    Yields head? stop ls [] :=
  sections_append_of_none h

theorem yields_part {l last : String} {a : α} {body : List String} (hl : head? l = some a)
    (hbody : ∀ m ∈ body, head? m = none ∧ stop m = false) (hlast : head? last = none)
    (hstop : stop last = true) : Yields head? stop (l :: (body ++ [last])) [(a, body)] := by
  intro rest
  have hend : sections head? stop (last :: rest) = sections head? stop rest := by
    simp only [sections, hlast]
  have hrest : ∀ m ∈ (last :: rest).head?, stop m = true := by simpa using hstop
  rw [List.cons_append, List.append_assoc, List.singleton_append,
    sections_cons_append hl hbody hrest, hend, List.singleton_append]

theorem yields_flatMap {β : Type} {f : β → List String} {g : β → List (α × List String)}
    {bs : List β} (h : ∀ b ∈ bs, Yields head? stop (f b) (g b)) :
    Yields head? stop (bs.flatMap f) (bs.flatMap g) := by
  induction bs with
  | nil => exact yields_nil
  | cons b bs ih =>
    rw [List.forall_mem_cons] at h
    exact h.1.append (ih h.2)

/-- Empty lines between groups of lines start no parts. -/
theorem yields_intercalate (hempty : head? "" = none) {groups : List (List String)}
    {found : List (List (α × List String))}
    (h : List.Forall₂ (Yields head? stop) groups found) :
    Yields head? stop ([""].intercalate groups) found.flatten := by
  have hblank : Yields head? stop [""] [] := yields_of_none (by simpa using hempty)
  induction h with
  | nil => exact yields_nil
  | cons hgroup hgroups ih =>
    cases hgroups with
    | nil => simpa using hgroup
    | cons hnext hrest =>
      rw [List.intercalate_cons_cons, List.append_assoc]
      exact hgroup.append (hblank.append ih)

end Sections

/-! ## Blocks -/

/-- The line that opens a block. -/
def opens? (n : Nat) (head l : String) : Option Unit :=
  if l = indented n head then some () else none

/-- The line that closes a block. -/
def closes (n : Nat) (l : String) : Bool :=
  l = indented n "\x7d"

/-- The lines of each block that a line at a depth of `n` tabs opens. -/
def blocks (n : Nat) (head : String) (ls : List String) : List (List String) :=
  (sections (opens? n head) (closes n) ls).map Prod.snd

/-- The lines of the block that a line at a depth of `n` tabs opens, unless there are several. -/
def block? (n : Nat) (head : String) (ls : List String) : Option (List String) :=
  match blocks n head ls with
  | [] => some []
  | [body] => some body
  | _ => none

/-- What a line in a block at a depth of `n` tabs can be: a case, or deeper. -/
def Inner (n : Nat) (l : String) : Prop :=
  Indented (n + 1) l ∨ ∃ s, l = indented n ("case " ++ s)

/-- The text starts differently from lines in a block and from its end. -/
def Opening (head : String) : Prop :=
  head.toList.head?.any (fun c => c ∉ ['\t', 'c', '\x7d']) = true

instance (head : String) : Decidable (Opening head) :=
  inferInstanceAs (Decidable (_ = _))

theorem Inner.ne {n : Nat} {l s : String} (h : Inner n l) {c : Char}
    (hc : s.toList.head? = some c) (htab : c ≠ '\t') (hcase : c ≠ 'c') : l ≠ indented n s := by
  rcases h with h | ⟨t, rfl⟩
  · rintro rfl
    exact h.not_prefix hc htab (List.prefix_refl _)
  · intro heq
    rw [← indented_inj.1 heq] at hc
    exact hcase (by simpa [eq_comm] using hc)

theorem opens?_of_ne {n : Nat} {head l : String} (h : l ≠ indented n head) :
    opens? n head l = none :=
  if_neg h

/-- A block in braces is found by the line that opens it. -/
theorem yields_braced {n : Nat} {head s : String} (hhead : Opening head) {body : List String}
    (hbody : ∀ l ∈ body, Inner n l) :
    Yields (opens? n head) (closes n) (indented n s :: (body ++ [indented n "\x7d"]))
      (if s = head then [((), body)] else []) := by
  rcases (Option.any_eq_true _ _).1 hhead with ⟨c, hc, hstart⟩
  simp only [List.mem_cons, List.not_mem_nil, or_false, not_or, decide_eq_true_eq] at hstart
  have hnone : ∀ l ∈ body, opens? n head l = none := fun l hl =>
    opens?_of_ne ((hbody l hl).ne hc hstart.1 hstart.2.1)
  have hinside : ∀ l ∈ body, closes n l = false := fun l hl => by
    simpa [closes] using (hbody l hl).ne (c := '\x7d') rfl (by decide) (by decide)
  have hlast : opens? n head (indented n "\x7d") = none := by
    refine opens?_of_ne fun heq => hstart.2.2 ?_
    rw [← indented_inj.1 heq] at hc
    simpa [eq_comm] using hc
  by_cases hs : s = head
  · rw [if_pos hs, hs]
    exact yields_part (if_pos rfl) (fun l hl => ⟨hnone l hl, hinside l hl⟩) hlast
      (by simp [closes])
  · rw [if_neg hs]
    apply yields_of_none
    simp only [List.forall_mem_cons, List.forall_mem_append, List.not_mem_nil, false_imp_iff,
      implies_true, and_true]
    exact ⟨opens?_of_ne fun heq => hs (indented_inj.1 heq), hnone, hlast⟩

/-! ## Cases -/

/-- What stands between `case` and the colon, at a depth of `n` tabs. -/
def caseLabel? (n : Nat) (l : String) : Option String :=
  enclosed? (indented n "case ") ":" l

/-- The cases at a depth of `n` tabs. -/
def casesAt (n : Nat) (ls : List String) : List (String × List String) :=
  sections (caseLabel? n) (fun l => (caseLabel? n l).isSome) ls

theorem caseLabel?_case (n : Nat) (label : String) :
    caseLabel? n (indented n ("case " ++ label ++ ":")) = some label := by
  rw [caseLabel?, ← indented_append, ← indented_append, enclosed?_append]

theorem Indented.caseLabel?_eq_none {n : Nat} {l : String} (h : Indented (n + 1) l) :
    caseLabel? n l = none :=
  enclosed?_eq_none (h.not_prefix (c := 'c') rfl (by decide)) ":"

/-- The cases of a switch are read as they were written. -/
theorem casesAt_caseLines (n : Nat) (cases : List Case) :
    casesAt n (Stmt.caseLines n cases) = cases.map fun
      | .mk labels body => (Expr.listText labels, Stmt.blockLines (n + 1) body) := by
  induction cases with
  | nil => rfl
  | cons c cases ih =>
    rcases c with ⟨labels, body⟩
    have hbody : ∀ m ∈ Stmt.blockLines (n + 1) body,
        caseLabel? n m = none ∧ (caseLabel? n m).isSome = false := by
      intro m hm
      have hnone := (Stmt.indented_blockLines (n + 1) body m hm).caseLabel?_eq_none
      exact ⟨hnone, by rw [hnone]; rfl⟩
    -- behind the lines of a case stands the next one
    have hnext : ∀ m ∈ (Stmt.caseLines n cases).head?, (caseLabel? n m).isSome = true := by
      cases cases with
      | nil => simp [Stmt.caseLines]
      | cons c cases =>
        rcases c with ⟨labels', body'⟩
        simp [Stmt.caseLines, caseLabel?_case]
    rw [casesAt, Stmt.caseLines, List.cons_append,
      sections_cons_append (caseLabel?_case n _) hbody hnext, List.map_cons]
    exact congrArg _ ih

theorem inner_caseLines (n : Nat) (cases : List Case) :
    ∀ l ∈ Stmt.caseLines n cases, Inner n l := by
  induction cases with
  | nil => simp [Stmt.caseLines]
  | cons c cases ih =>
    rcases c with ⟨labels, body⟩
    have hlabel : Inner n (indented n ("case " ++ Expr.listText labels ++ ":")) :=
      .inr ⟨_, by rw [String.append_assoc]⟩
    have hbody : ∀ l ∈ Stmt.blockLines (n + 1) body, Inner n l := fun l hl =>
      .inl (Stmt.indented_blockLines (n + 1) body l hl)
    rw [Stmt.caseLines, List.cons_append, List.forall_mem_cons, List.forall_mem_append]
    exact ⟨hlabel, hbody, ih⟩

/-! ## Workers -/

/-- The label of the automaton whose worker starts in a line. -/
def workerLabel? (l : String) : Option String :=
  (literal? "func run_".toList l.toList).bind identifier?

theorem workerLabel?_eq_none {l : String} (h : ¬ "func run_".toList <+: l.toList) :
    workerLabel? l = none := by
  have hnone : literal? "func run_".toList l.toList = none := by
    rw [Option.eq_none_iff_forall_ne_some]
    intro rest hrest
    exact h ⟨rest, (literal?_eq_some_iff.1 hrest).symm⟩
  rw [workerLabel?, hnone]
  rfl

theorem Indented.workerLabel?_eq_none {n : Nat} {l : String} (h : Indented (n + 1) l) :
    workerLabel? l = none := by
  apply Generation.workerLabel?_eq_none
  rcases h with rfl | ⟨k, s, rfl⟩
  · simp
  · simp [indented, Nat.add_right_comm n 1 k, List.replicate_succ]

theorem yields_group {keyword : String} (hkeyword : keyword ∈ ["const", "var"])
    (entries : List Entry) :
    Yields workerLabel? (closes 0) (Decl.group keyword entries) [] := by
  have hentries : ∀ e ∈ entries, ∀ l ∈ e.lines, workerLabel? l = none := by
    intro e _
    unfold Entry.lines
    cases e.note <;> simp [(indented_indented 1 _).workerLabel?_eq_none]
  have hfirst : workerLabel? (keyword ++ " (") = none ∧ workerLabel? ")" = none := by
    simp only [List.mem_cons, List.not_mem_nil, or_false] at hkeyword
    rcases hkeyword with rfl | rfl <;> decide
  apply yields_of_none
  simp only [Decl.group, List.forall_mem_append, List.forall_mem_cons, List.mem_flatMap]
  refine ⟨⟨⟨hfirst.1, by simp⟩, ?_⟩, hfirst.2, by simp⟩
  rintro l ⟨e, he, hl⟩
  exact hentries e he l hl

/-- A function is found if its name is that of a worker. -/
theorem Func.yields {f : Func} {label : Option String}
    (hlabel : ∀ rest, workerLabel? ("func " ++ f.name ++ "(" ++ rest) = label) :
    Yields workerLabel? (closes 0) f.lines
      (label.toList.map fun name => (name, Stmt.blockLines 1 f.body)) := by
  obtain ⟨result, hresult⟩ : ∃ result, f.lines = f.doc.map ("//" ++ ·) ++
      ("func " ++ f.name ++ "(" ++ f.params ++ ")" ++ result ++ " \x7b") ::
        Stmt.blockLines 1 f.body ++ ["\x7d"] := ⟨_, rfl⟩
  have hlines : f.lines = f.doc.map ("//" ++ ·) ++
      ("func " ++ f.name ++ "(" ++ (f.params ++ ")" ++ result ++ " \x7b")) ::
        (Stmt.blockLines 1 f.body ++ ["\x7d"]) := by
    rw [hresult]
    simp [String.append_assoc]
  have hdoc : Yields workerLabel? (closes 0) (f.doc.map ("//" ++ ·)) [] := by
    apply yields_of_none
    simp [workerLabel?_eq_none]
  have hbody : ∀ l ∈ Stmt.blockLines 1 f.body, workerLabel? l = none ∧ closes 0 l = false := by
    intro l hl
    have hindented := Stmt.indented_blockLines 1 f.body l hl
    have hopen : l ≠ indented 0 "\x7d" := by
      rintro rfl
      exact hindented.not_prefix (c := '\x7d') rfl (by decide) (List.prefix_refl _)
    exact ⟨hindented.workerLabel?_eq_none, by simpa [closes] using hopen⟩
  have hlast : workerLabel? "\x7d" = none ∧ closes 0 "\x7d" = true := by decide
  rw [hlines]
  refine hdoc.append ?_
  cases label with
  | none =>
    apply yields_of_none
    simp only [List.forall_mem_cons, List.forall_mem_append]
    exact ⟨hlabel _, fun l hl => (hbody l hl).1, hlast.1, by simp⟩
  | some name => exact yields_part (hlabel _) hbody hlast.1 hlast.2

theorem workerLabel?_worker {label : String} (h : IsWord label.toList) (rest : String) :
    workerLabel? ("func " ++ workerName label ++ "(" ++ rest) = some label := by
  have hlist : ("func " ++ workerName label ++ "(" ++ rest).toList =
      "func run_".toList ++ (label.toList ++ '(' :: rest.toList) := by
    simp [workerName]
  rw [workerLabel?, hlist, literal?_append, Option.bind_some,
    identifier?_append h (endsWord_cons.2 (by decide))]

theorem workerLabel?_of_mem {name : String} (h : name ∈ ["pickFirst", "pickRandom", "main"])
    (rest : String) : workerLabel? ("func " ++ name ++ "(" ++ rest) = none := by
  simp only [List.mem_cons, List.not_mem_nil, or_false] at h
  apply workerLabel?_eq_none
  rcases h with rfl | rfl | rfl <;> simp

theorem workerLabel?_sourceLines (p : Program) : ∀ l ∈ sourceLines p, workerLabel? l = none := by
  have hsources : ∀ l ∈ p.network.flatMap fun a => (Text.linesOf a.source).map ("\t" ++ ·),
      workerLabel? l = none := by
    intro l hl
    rcases List.mem_flatMap.1 hl with ⟨a, -, hl⟩
    rcases List.mem_map.1 hl with ⟨line, -, rfl⟩
    exact workerLabel?_eq_none (by simp)
  simp only [sourceLines, List.forall_mem_append, List.forall_mem_cons]
  exact ⟨⟨⟨by decide, by simp⟩, hsources⟩, by decide, by simp⟩

/-- The workers of a program, and the lines in them. -/
def workersOf (p : Program) (e : Emission) : List (String × List String) :=
  p.network.zipIdx.map fun a => (a.1.label, Stmt.blockLines 1 (workerBody p e a.2 a.1))

/-- In a program the workers are found. -/
theorem yields_bodyLines {p : Program} (hp : p.Worded) (e : Emission) :
    Yields workerLabel? (closes 0) (bodyLines p e) (workersOf p e) := by
  have himports : Yields workerLabel? (closes 0) importLines [] := yields_of_none (by decide)
  have hclock : Yields workerLabel? (closes 0)
      (Decl.var "// global time in ticks, advanced by main" "clock" "atomic.Int64").lines [] :=
    yields_of_none (by decide)
  have htypes : Yields workerLabel? (closes 0)
      (Decl.empties (p.topology.payloads.map payloadType)).lines [] := by
    apply yields_of_none
    simp [Decl.lines, workerLabel?_eq_none]
  have hother (f : Func) (hname : f.name ∈ ["pickFirst", "pickRandom", "main"]) :
      Yields workerLabel? (closes 0) (Decl.func f).lines [] :=
    Func.yields (workerLabel?_of_mem hname)
  have hworkers : List.Forall₂ (Yields workerLabel? (closes 0))
      ((p.network.zipIdx.map fun a => Decl.func (worker p e a.2 a.1)).map Decl.lines)
      (p.network.zipIdx.map fun a =>
        [(a.1.label, Stmt.blockLines 1 (workerBody p e a.2 a.1))]) := by
    rw [List.map_map]
    apply Fallible.forall₂_map
    intro a ha
    have hlabel := (hp.automata _ (List.fst_mem_of_mem_zipIdx ha)).label
    exact Func.yields (f := worker p e a.2 a.1) (workerLabel?_worker hlabel)
  have hdeclarations : List.Forall₂ (Yields workerLabel? (closes 0))
      ((declarations p e).map Decl.lines) ([[], [], [], []] ++ [[], []] ++
        (p.network.zipIdx.map fun a =>
          [(a.1.label, Stmt.blockLines 1 (workerBody p e a.2 a.1))]) ++ [[]]) := by
    simp only [declarations, helpers, List.map_append, List.map_cons, List.map_nil]
    refine List.rel_append (List.rel_append (List.rel_append ?_ ?_) hworkers) ?_
    · exact .cons (yields_group (by simp) _) (.cons hclock (.cons htypes
        (.cons (yields_group (by simp) _) .nil)))
    · exact .cons (hother _ (by decide)) (.cons (hother _ (by decide)) .nil)
    · exact .cons (hother (mainFunc p e) (by simp [mainFunc])) .nil
  have hempty : Yields workerLabel? (closes 0) [""] [] := yields_of_none (by decide)
  have hall := hempty.append (yields_intercalate (by decide) (.cons himports
    (.cons (yields_of_none (workerLabel?_sourceLines p)) hdeclarations)))
  have hfound : (p.network.zipIdx.map fun a =>
      [(a.1.label, Stmt.blockLines 1 (workerBody p e a.2 a.1))]).flatten = workersOf p e := by
    rw [← List.flatMap_def, ← List.map_eq_flatMap, workersOf]
  simpa [bodyLines, hfound] using hall

theorem not_mem_intercalate {groups : List (List String)} {c : Char}
    (h : ∀ g ∈ groups, ∀ l ∈ g, c ∉ l.toList) : ∀ l ∈ [""].intercalate groups, c ∉ l.toList := by
  induction groups with
  | nil => simp
  | cons g groups ih =>
    rw [List.forall_mem_cons] at h
    cases groups with
    | nil => simpa using h.1
    | cons g' groups =>
      rw [List.intercalate_cons_cons, List.forall_mem_append, List.forall_mem_append]
      exact ⟨⟨h.1, by simp⟩, ih h.2⟩

/-- No line behind the package holds a line feed. -/
theorem not_mem_bodyLines {p : Program} (hp : p.Analyzed) (hworded : p.Worded) (e : Emission) :
    ∀ l ∈ bodyLines p e, '\n' ∉ l.toList := by
  have hsources : ∀ l ∈ p.network.flatMap fun a => (Text.linesOf a.source).map ("\t" ++ ·),
      '\n' ∉ l.toList := by
    intro l hl
    rcases List.mem_flatMap.1 hl with ⟨a, -, hl⟩
    rcases List.mem_map.1 hl with ⟨line, hline, rfl⟩
    simpa using Text.not_mem_of_mem_linesOf hline
  have hcomment : ∀ l ∈ sourceLines p, '\n' ∉ l.toList := by
    simp only [sourceLines, List.forall_mem_append, List.forall_mem_cons]
    exact ⟨⟨⟨by decide, by simp⟩, hsources⟩, by decide, by simp⟩
  have hgroups : ∀ g ∈ [importLines, sourceLines p] ++ (declarations p e).map Decl.lines,
      ∀ l ∈ g, '\n' ∉ l.toList := by
    simp only [List.forall_mem_append, List.forall_mem_cons, List.forall_mem_map]
    exact ⟨⟨by decide, hcomment, by simp⟩, not_mem_lines hp hworded e⟩
  rw [bodyLines, List.forall_mem_cons]
  exact ⟨by simp, not_mem_intercalate hgroups⟩

end Generation
end TimedAutomata
