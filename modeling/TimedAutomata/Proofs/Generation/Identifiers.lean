import TimedAutomata.Proofs.Generation.Collisions
import TimedAutomata.Proofs.Generation.Comments

/-!
# Identifiers of a program

What a program declares at its top can be read off its text, line by line: a declaration starts
in the first column with a keyword, or stands behind a tab in a group. The identifiers read off a
generated program are those of its parameters, message types, channels and functions, and no two
of them are the same.

* `Region.read`, `declared`: reading the identifiers off a text
* `Declares`: what some lines declare, from region to region
* `Decl.declares`: a declaration declares its names
* `identifiers`: the identifiers of a program
* `declares_declarations`: its declarations declare them
* `nodup_identifiers`: without collisions they are different
* `names_apart_of_analyze`: analysed programs
-/

namespace TimedAutomata
namespace Generation

open Grammar

/-! ## Reading declarations -/

/-- Where a line of a program stands. -/
inductive Region where
  | top
  /-- Between the parentheses of a group. -/
  | group
  | comment
  deriving DecidableEq

/-- The keywords of declarations. -/
def keywords : List String :=
  ["const ", "func ", "type ", "var "]

/-- What stands behind the keyword of a declaration. -/
def behindKeyword? (cs : List Char) : Option (List Char) :=
  keywords.findSome? fun k => literal? k.toList cs

/-- The identifier that a text starts with. -/
def identifier? (cs : List Char) : Option String :=
  (word? cs).map fun w => String.ofList w.1

/-- Where the line behind a line of comment stands. -/
def Region.afterComment (cs : List Char) : Region :=
  if Text.occurrences terminator cs = 0 then .comment else .top

/-- What a line declares, and where the next one stands. -/
def Region.read : Region → List Char → Option String × Region
  | .top, cs =>
    match literal? ['/', '*'] cs with
    | some rest => (none, afterComment rest)
    | none =>
      match behindKeyword? cs with
      | some rest => if rest = ['('] then (none, .group) else (identifier? rest, .top)
      | none => (none, .top)
  | .group, cs => if cs = [')'] then (none, .top) else (identifier? (skipSpaces cs), .group)
  | .comment, cs => (none, afterComment cs)

/-- What lines declare, and where the line behind them stands. -/
def readLines (r : Region) : List (List Char) → List String × Region
  | [] => ([], r)
  | l :: ls =>
    let (name, r') := r.read l
    let (names, r'') := readLines r' ls
    (name.toList ++ names, r'')

/-- The identifiers that a text declares at its top. -/
def declared (text : String) : List String :=
  (readLines .top (Text.pieces text.toList)).1

/-! ## From region to region -/

theorem readLines_append (r : Region) (ls ms : List (List Char)) :
    readLines r (ls ++ ms) =
      ((readLines r ls).1 ++ (readLines (readLines r ls).2 ms).1,
        (readLines (readLines r ls).2 ms).2) := by
  induction ls generalizing r with
  | nil => rfl
  | cons l ls ih => simp [readLines, ih]

/-- The lines declare `names`, and lead from `r` to `r'`. -/
def Declares (r : Region) (ls names : List String) (r' : Region) : Prop :=
  readLines r (ls.flatMap fun l => Text.pieces l.toList) = (names, r')

instance (r : Region) (ls names : List String) (r' : Region) :
    Decidable (Declares r ls names r') :=
  inferInstanceAs (Decidable (_ = _))

theorem declares_nil (r : Region) : Declares r [] [] r := rfl

theorem Declares.append {r r' r'' : Region} {ls ms names names' : List String}
    (h : Declares r ls names r') (h' : Declares r' ms names' r'') :
    Declares r (ls ++ ms) (names ++ names') r'' := by
  unfold Declares at h h' ⊢
  rw [List.flatMap_append, readLines_append, h, h']

/-- A line is read as such if it holds no line feed. -/
theorem declares_line {r r' : Region} {l : String} {name : Option String}
    (hl : '\n' ∉ l.toList) (h : r.read l.toList = (name, r')) :
    Declares r [l] name.toList r' := by
  simp [Declares, Text.pieces_of_not_mem hl, readLines, h]

theorem declares_flatMap {α : Type} {r : Region} {f g : α → List String} {as : List α}
    (h : ∀ a ∈ as, Declares r (f a) (g a) r) : Declares r (as.flatMap f) (as.flatMap g) r := by
  induction as with
  | nil => exact declares_nil r
  | cons a as ih =>
    rw [List.forall_mem_cons] at h
    exact h.1.append (ih h.2)

theorem declares_nothing {r : Region} {ls : List String}
    (h : ∀ l ∈ ls, '\n' ∉ l.toList ∧ r.read l.toList = (none, r)) : Declares r ls [] r := by
  induction ls with
  | nil => exact declares_nil r
  | cons l ls ih =>
    rw [List.forall_mem_cons] at h
    exact (declares_line h.1.1 h.1.2).append (ih h.2)

/-- The identifiers of a text made of lines are those of its lines. -/
theorem declared_join {ls names : List String} (h : Declares .top ls names .top) :
    declared (String.join (ls.map (· ++ "\n"))) = names := by
  have hend : readLines .top [[]] = ([], .top) := by decide
  rw [declared, Text.pieces_join, readLines_append, h, hend, List.append_nil]

/-! ## Lines -/

theorem identifier?_append {name : String} {rest : List Char} (hname : IsWord name.toList)
    (hrest : EndsWord rest) : identifier? (name.toList ++ rest) = some name := by
  rw [identifier?, word?_append hname hrest, Option.map_some, String.ofList_toList]

/-- A keyword and an identifier. -/
theorem read_keyword {k : String} (hk : k ∈ keywords) {name : String} {rest : List Char}
    (hname : IsWord name.toList) (hrest : EndsWord rest) :
    Region.top.read (k.toList ++ (name.toList ++ rest)) = (some name, .top) := by
  -- an identifier is no opening parenthesis
  have hparen : name.toList ++ rest ≠ ['('] := by
    intro heq
    rcases List.append_eq_singleton_iff.1 heq with ⟨hnil, -⟩ | ⟨hsingle, -⟩
    · exact hname.1 hnil
    · exact hname.not_mem (c := '(') (by decide) (by simp [hsingle])
  have hbehind : behindKeyword? (k.toList ++ (name.toList ++ rest)) =
      some (name.toList ++ rest) := by
    simp only [keywords, List.mem_cons, List.not_mem_nil, or_false] at hk
    rcases hk with rfl | rfl | rfl | rfl <;> simp [behindKeyword?, keywords, literal?]
  have hcomment : literal? ['/', '*'] (k.toList ++ (name.toList ++ rest)) = none := by
    simp only [keywords, List.mem_cons, List.not_mem_nil, or_false] at hk
    rcases hk with rfl | rfl | rfl | rfl <;> simp [literal?]
  simp only [Region.read, hcomment, hbehind, if_neg hparen, identifier?_append hname hrest]

/-- A line of comment, and one behind a tab. -/
theorem read_top_slashes (cs : List Char) : Region.top.read ('/' :: '/' :: cs) = (none, .top) := by
  simp [Region.read, literal?, behindKeyword?, keywords]

theorem read_top_tab (cs : List Char) : Region.top.read ('\t' :: cs) = (none, .top) := by
  simp [Region.read, literal?, behindKeyword?, keywords]

theorem read_group_slashes (cs : List Char) :
    Region.group.read ('\t' :: '/' :: cs) = (none, .group) := by
  have hword : isWordChar '/' = false := by decide
  simp [Region.read, identifier?, skipSpaces, isSpace, word?, hword]

/-- A member of a group. -/
theorem read_group_tab {name : String} {rest : List Char} (hname : IsWord name.toList)
    (hrest : EndsWord rest) :
    Region.group.read ('\t' :: (name.toList ++ rest)) = (some name, .group) := by
  have hskip : skipSpaces ('\t' :: (name.toList ++ rest)) = name.toList ++ rest :=
    skipSpaces_append_dense ⟨['\t'], by simp [isSpace]⟩ (hname.startsDense rest)
  simp [Region.read, hskip, identifier?_append hname hrest]

/-! ## Statements -/

/-- The line is empty or starts with at least `n` tabs. -/
def Indented (n : Nat) (l : String) : Prop :=
  l = "" ∨ ∃ k s, l = indented (n + k) s

@[simp] theorem indented_empty (n : Nat) : Indented n "" :=
  .inl rfl

@[simp] theorem indented_indented (n : Nat) (s : String) : Indented n (indented n s) :=
  .inr ⟨0, s, rfl⟩

theorem Indented.of_succ {n : Nat} {l : String} (h : Indented (n + 1) l) : Indented n l := by
  rcases h with rfl | ⟨k, s, rfl⟩
  · exact indented_empty n
  · exact .inr ⟨1 + k, s, by rw [Nat.add_assoc]⟩

mutual

/-- The lines of a statement start with its tabs. -/
theorem Stmt.indented_lines (n : Nat) (s : Stmt) : ∀ l ∈ s.lines n, Indented n l := by
  cases s with
  | define | declare | assign | call | deferred | go | send | comment | blank | next =>
    simp [Stmt.lines]
  | defineFlags name values =>
    have hvalues : ∀ v ∈ values, Indented n (indented (n + 1) (v.text ++ ",")) :=
      fun v _ => (indented_indented _ _).of_succ
    simpa [Stmt.lines, or_imp, forall_and] using hvalues
  | giveBack value => cases value <;> simp [Stmt.lines]
  | goFunc body | forever body =>
    have hbody := fun l hl => (Stmt.indented_blockLines (n + 1) body l hl).of_succ
    simpa [Stmt.lines, or_imp, forall_and] using hbody
  | «when» condition body =>
    have hbody := fun l hl => (Stmt.indented_blockLines (n + 1) body l hl).of_succ
    simpa [Stmt.lines, or_imp, forall_and] using hbody
  | forEach item list body =>
    have hbody := fun l hl => (Stmt.indented_blockLines (n + 1) body l hl).of_succ
    simpa [Stmt.lines, or_imp, forall_and] using hbody
  | switch subject cases =>
    have hcases := Stmt.indented_caseLines n cases
    simpa [Stmt.lines, or_imp, forall_and] using hcases
  | select cases =>
    have hcases := Stmt.indented_caseLines n cases
    simpa [Stmt.lines, or_imp, forall_and] using hcases

theorem Stmt.indented_blockLines (n : Nat) (ss : List Stmt) :
    ∀ l ∈ Stmt.blockLines n ss, Indented n l := by
  match ss with
  | [] => simp [Stmt.blockLines]
  | s :: ss =>
    exact List.forall_mem_append.2 ⟨Stmt.indented_lines n s, Stmt.indented_blockLines n ss⟩

theorem Stmt.indented_caseLines (n : Nat) (cases : List Case) :
    ∀ l ∈ Stmt.caseLines n cases, Indented n l := by
  match cases with
  | [] => simp [Stmt.caseLines]
  | .mk labels body :: cases =>
    have hbody := fun l hl => (Stmt.indented_blockLines (n + 1) body l hl).of_succ
    have hcases := Stmt.indented_caseLines n cases
    simpa [Stmt.caseLines, or_imp, forall_and] using ⟨hbody, hcases⟩

end

theorem Indented.read_top {n : Nat} {l : String} (h : Indented (n + 1) l) :
    Region.top.read l.toList = (none, .top) := by
  rcases h with rfl | ⟨k, s, rfl⟩
  · decide
  · simpa [indented, Nat.add_right_comm, List.replicate_succ] using read_top_tab _

/-! ## Declarations -/

/-- The name is a word and ends before its meaning, and the note is a comment. -/
structure Entry.Legible (e : Entry) : Prop where
  note : ∀ n ∈ e.note, ['/', '/'] <+: n.toList
  name : IsWord e.name.toList
  meaning : EndsWord e.meaning.toList

/-- The names are words, and the notes are comments. -/
def Decl.Legible : Decl → Prop
  | .consts entries | .vars entries => ∀ e ∈ entries, e.Legible
  | .var note name _ => ['/', '/'] <+: note.toList ∧ IsWord name.toList
  | .empties names => ∀ name ∈ names, IsWord name.toList
  | .func f => IsWord f.name.toList

theorem Entry.declares {e : Entry} (h : e.Legible) (hlines : ∀ l ∈ e.lines, '\n' ∉ l.toList) :
    Declares .group e.lines [e.name] .group := by
  rw [Entry.lines, List.forall_mem_append] at hlines
  have hmember : Region.group.read (indented 1 (e.name ++ e.meaning)).toList =
      (some e.name, .group) := by
    simpa [indented] using read_group_tab h.name h.meaning
  have hname : Declares .group [indented 1 (e.name ++ e.meaning)] [e.name] .group :=
    declares_line (hlines.2 _ (by simp)) hmember
  cases hnote : e.note with
  | none => simpa [Entry.lines, hnote] using hname
  | some note =>
    rcases h.note note hnote with ⟨rest, hrest⟩
    have hcomment : Region.group.read (indented 1 note).toList = (none, .group) := by
      simpa [indented, ← hrest] using read_group_slashes ('/' :: rest)
    have hskipped : Declares .group [indented 1 note] [] .group :=
      declares_line (hlines.1 _ (by simp [hnote])) hcomment
    simpa [Entry.lines, hnote] using hskipped.append hname

theorem declares_group {keyword : String} (hkeyword : keyword ∈ ["const", "var"])
    {entries : List Entry} (h : ∀ e ∈ entries, e.Legible)
    (hlines : ∀ l ∈ Decl.group keyword entries, '\n' ∉ l.toList) :
    Declares .top (Decl.group keyword entries) (entries.map Entry.name) .top := by
  have hopen : Declares .top [keyword ++ " ("] [] .group := by
    simp only [List.mem_cons, List.not_mem_nil, or_false] at hkeyword
    rcases hkeyword with rfl | rfl <;> decide
  have hclose : Declares .group [")"] [] .top := by decide
  have hentries : Declares .group (entries.flatMap Entry.lines)
      (entries.flatMap fun e => [e.name]) .group := by
    refine declares_flatMap fun e he => Entry.declares (h e he) fun l hl => hlines l ?_
    simp only [Decl.group, List.mem_append, List.mem_flatMap]
    exact .inl (.inr ⟨e, he, hl⟩)
  have hall := (hopen.append hentries).append hclose
  rwa [List.nil_append, List.append_nil, ← List.map_eq_flatMap] at hall

/-- A declaration in one line. -/
theorem declares_keyword {k name l : String} {rest : List Char} (hk : k ∈ keywords)
    (hname : IsWord name.toList) (hrest : EndsWord rest) (hl : '\n' ∉ l.toList)
    (htext : l.toList = k.toList ++ (name.toList ++ rest)) : Declares .top [l] [name] .top := by
  have hread := read_keyword hk hname hrest
  rw [← htext] at hread
  exact declares_line hl hread

theorem Func.declares {f : Func} (h : IsWord f.name.toList)
    (hlines : ∀ l ∈ f.lines, '\n' ∉ l.toList) : Declares .top f.lines [f.name] .top := by
  -- the type of the result stands far behind the name, whatever it is
  obtain ⟨result, heq⟩ : ∃ result, f.lines = f.doc.map ("//" ++ ·) ++
      ("func " ++ f.name ++ "(" ++ f.params ++ ")" ++ result ++ " \x7b") ::
        Stmt.blockLines 1 f.body ++ ["\x7d"] := ⟨_, rfl⟩
  rw [heq] at hlines ⊢
  simp only [List.forall_mem_append, List.forall_mem_cons] at hlines
  rcases hlines with ⟨⟨hdoc, hhead, hbody⟩, -⟩
  have hcomment : Declares .top (f.doc.map ("//" ++ ·)) [] .top := by
    refine declares_nothing fun l hl => ⟨hdoc l hl, ?_⟩
    rcases List.mem_map.1 hl with ⟨line, -, rfl⟩
    simpa using read_top_slashes line.toList
  have htext : ("func " ++ f.name ++ "(" ++ f.params ++ ")" ++ result ++ " \x7b").toList =
      "func ".toList ++
        (f.name.toList ++ '(' :: (f.params ++ ")" ++ result ++ " \x7b").toList) := by simp
  have hname := declares_keyword (by decide) h (endsWord_cons.2 (by decide)) hhead htext
  have hblock : Declares .top (Stmt.blockLines 1 f.body) [] .top :=
    declares_nothing fun l hl => ⟨hbody l hl, (Stmt.indented_blockLines 1 f.body l hl).read_top⟩
  have hclose : Declares .top ["\x7d"] [] .top := by decide
  exact (hcomment.append (hname.append hblock)).append hclose

/-- A declaration declares its names. -/
theorem Decl.declares {d : Decl} (h : d.Legible) (hlines : ∀ l ∈ d.lines, '\n' ∉ l.toList) :
    Declares .top d.lines d.names .top := by
  have hspace : isWordChar ' ' = false := by decide
  cases d with
  | consts entries | vars entries => exact declares_group (by simp) h hlines
  | var note name type =>
    rcases h with ⟨⟨rest, hrest⟩, hname⟩
    simp only [Decl.lines, List.forall_mem_cons] at hlines
    have hcomment : Region.top.read note.toList = (none, .top) := by
      rw [← hrest]
      exact read_top_slashes rest
    have hskipped : Declares .top [note] [] .top := declares_line hlines.1 hcomment
    have htext : ("var " ++ name ++ " " ++ type).toList =
        "var ".toList ++ (name.toList ++ ' ' :: type.toList) := by simp
    exact hskipped.append
      (declares_keyword (by decide) hname (endsWord_cons.2 hspace) hlines.2.1 htext)
  | empties names =>
    simp only [Decl.lines, List.forall_mem_map] at hlines
    have hall : Declares .top (names.flatMap fun name => ["type " ++ name ++ " struct" ++ braces])
        (names.flatMap fun name => [name]) .top := by
      apply declares_flatMap
      intro name hname
      have htext : ("type " ++ name ++ " struct" ++ braces).toList =
          "type ".toList ++ (name.toList ++ ' ' :: ("struct" ++ braces).toList) := by simp
      exact declares_keyword (by decide) (h name hname) (endsWord_cons.2 hspace)
        (hlines name hname) htext
    rwa [List.flatMap_singleton', ← List.map_eq_flatMap] at hall
  | func f => exact Func.declares h hlines

/-! ## Programs -/

/-- The identifiers of a program: parameters, the clock, message types, channels, helpers, workers
and the main function. -/
def identifiers (p : Program) (e : Emission) : List String :=
  ["channelDepth", "tickInterval", "pollInterval"] ++ (if e.seed.isSome then ["seed"] else []) ++
  ["clock"] ++ p.topology.payloads.map payloadType ++ p.topology.routes.map Route.name ++
  ["pickFirst", "pickRandom"] ++ p.network.map (fun a => workerName a.label) ++ ["main"]

theorem flatMap_names (p : Program) (e : Emission) :
    (declarations p e).flatMap Decl.names = identifiers p e := by
  have hconstants : (constants e).map Entry.name =
      ["channelDepth", "tickInterval", "pollInterval"] ++
        (if e.seed.isSome then ["seed"] else []) := by
    unfold constants
    cases e.seed <;> rfl
  have hchannels : (p.topology.routes.map channelEntry).map Entry.name =
      p.topology.routes.map Route.name := by
    rw [List.map_map]
    rfl
  have hworkers : (p.network.zipIdx.map fun a => Decl.func (worker p e a.2 a.1)).flatMap
      Decl.names = p.network.map fun a => workerName a.label := by
    calc (p.network.zipIdx.map fun a => Decl.func (worker p e a.2 a.1)).flatMap Decl.names
        = p.network.zipIdx.map (fun a => workerName a.1.label) := by
          rw [List.flatMap_map, List.map_eq_flatMap]
          rfl
      _ = (p.network.zipIdx.map Prod.fst).map (fun a => workerName a.label) := by
          rw [List.map_map]
          rfl
      _ = p.network.map fun a => workerName a.label := by rw [List.zipIdx_map_fst]
  simp only [declarations, List.flatMap_append, List.flatMap_cons, List.flatMap_nil, hworkers,
    Decl.names, hconstants, hchannels, identifiers, helpers, List.map_cons, List.map_nil,
    List.append_nil, List.append_assoc]
  rfl

theorem isWord_append {s t : String} (hs : IsWord s.toList) (ht : IsWord t.toList) :
    IsWord (s ++ t).toList := by
  rw [String.toList_append]
  exact ⟨by simp [hs.1], List.forall_mem_append.2 ⟨hs.2, ht.2⟩⟩

theorem isWord_routeName {r : Route} (hr : r.Written) : IsWord r.name.toList := by
  have hunderscore : IsWord "_".toList := by decide
  have hfront : IsWord "chan_".toList := by decide
  exact isWord_append (isWord_append (isWord_append (isWord_append (isWord_append hfront hr.sender)
    hunderscore) hr.receiver) hunderscore) hr.payload

theorem legible_constants (e : Emission) : (Decl.consts (constants e)).Legible := by
  have hentries : ∀ x ∈ constants e, x.note = none ∧ IsWord x.name.toList ∧
      EndsWord x.meaning.toList := by
    unfold constants
    cases e.seed <;> simp +decide
  intro x hx
  rcases hentries x hx with ⟨hnote, hname, hmeaning⟩
  exact ⟨by simp [hnote], hname, hmeaning⟩

theorem legible_channelEntry {r : Route} (hr : r.Written) : (channelEntry r).Legible where
  note := by simp [channelEntry, channelNote]
  name := isWord_routeName hr
  meaning := by simp +decide [channelEntry]

/-- The declarations of a program are legible, since the names in it are words. -/
theorem legible_declarations {p : Program} (hp : p.Worded) (e : Emission) :
    ∀ d ∈ declarations p e, d.Legible := by
  have hclock : (Decl.var "// global time in ticks, advanced by main" "clock"
      "atomic.Int64").Legible := ⟨by simp, by decide⟩
  have htypes : (Decl.empties (p.topology.payloads.map payloadType)).Legible := by
    simp only [Decl.Legible, List.forall_mem_map]
    exact fun payload hpayload => isWord_append (by decide) (hp.payload hpayload)
  have hchannels : (Decl.vars (p.topology.routes.map channelEntry)).Legible := by
    simp only [Decl.Legible, List.forall_mem_map]
    exact fun r hr => legible_channelEntry (hp.routes r hr)
  have hhelpers : ∀ f ∈ helpers, (Decl.func f).Legible := by
    simp only [helpers, List.forall_mem_cons, Decl.Legible]
    exact ⟨by decide, by decide, by simp⟩
  have hworkers : ∀ a ∈ p.network.zipIdx, (Decl.func (worker p e a.2 a.1)).Legible := fun a ha =>
    isWord_append (by decide) (hp.automata _ (List.fst_mem_of_mem_zipIdx ha)).label
  have hmain : (Decl.func (mainFunc p e)).Legible := (by decide : IsWord "main".toList)
  simp only [declarations, List.forall_mem_append, List.forall_mem_cons, List.forall_mem_map]
  exact ⟨⟨⟨⟨legible_constants e, hclock, htypes, hchannels, by simp⟩, hhelpers⟩, hworkers⟩, hmain,
    by simp⟩

/-- No line of a declaration holds a line feed. -/
theorem not_mem_lines {p : Program} (hp : p.Analyzed) (hworded : p.Worded) (e : Emission) :
    ∀ d ∈ declarations p e, ∀ l ∈ d.lines, '\n' ∉ l.toList := by
  intro d hd l hl
  by_cases hbare : Bare l
  · exact hbare.2
  · -- what is not bare is a comment of one line
    have hslashed : l ∈ (declarations p e).flatMap fun d => slashed d.lines :=
      List.mem_flatMap.2 ⟨d, hd, List.mem_filter.2 ⟨hl, by simpa using hbare⟩⟩
    rcases Fallible.exists_of_mem_left (writes_declarations hp hworded e) hslashed with
      ⟨s, -, hnote, n, rfl⟩
    simp [indented, hnote.plain.1]

theorem declares_empty : Declares .top [""] [] .top := by
  decide

theorem declares_importLines : Declares .top importLines [] .top := by
  decide

/-- The declarations of the automata stand in a comment. -/
theorem declares_sourceLines {p : Program} (hp : p.Worded) :
    Declares .top (sourceLines p) [] .top := by
  have hopen : Declares .top ["/* Automata:"] [] .comment := by decide
  have hclose : Declares .comment ["*/"] [] .top := by decide
  have hsources : Declares .comment
      (p.network.flatMap fun a => (Text.linesOf a.source).map ("\t" ++ ·)) [] .comment := by
    apply declares_nothing
    intro line hline
    rcases List.mem_flatMap.1 hline with ⟨a, ha, hline⟩
    rcases List.mem_map.1 hline with ⟨l, hl, rfl⟩
    rcases plain_of_mem_linesOf (hp.automata a ha) hl with ⟨hfeed, hstar⟩
    -- without an asterisk the comment goes on
    have hnone : Text.occurrences terminator ("\t" ++ l).toList = 0 :=
      Text.occurrences_of_not_mem (c := '*') (by decide) (by simpa using hstar)
    refine ⟨by simpa using hfeed, ?_⟩
    simp only [Region.read, Region.afterComment, if_pos hnone]
  exact (hopen.append hsources).append hclose

/-- Empty lines between blocks declare nothing. -/
theorem declares_intercalate {blocks names : List (List String)}
    (h : List.Forall₂ (fun b ns => Declares .top b ns .top) blocks names) :
    Declares .top ([""].intercalate blocks) names.flatten .top := by
  induction h with
  | nil => exact declares_nil .top
  | cons hblock hblocks ih =>
    cases hblocks with
    | nil => simpa using hblock
    | cons hnext hrest =>
      rw [List.intercalate_cons_cons, List.append_assoc]
      exact hblock.append (declares_empty.append ih)

/-- The lines of a program behind its package. -/
def bodyLines (p : Program) (e : Emission) : List String :=
  "" :: [""].intercalate ([importLines, sourceLines p] ++ (declarations p e).map Decl.lines)

theorem declares_bodyLines {p : Program} (hp : p.Analyzed) (hworded : p.Worded) (e : Emission) :
    Declares .top (bodyLines p e) (identifiers p e) .top := by
  have hdeclarations : List.Forall₂ (fun b ns => Declares .top b ns .top)
      ((declarations p e).map Decl.lines) ((declarations p e).map Decl.names) := by
    apply Fallible.forall₂_map
    intro d hd
    exact Decl.declares (legible_declarations hworded e d hd) (not_mem_lines hp hworded e d hd)
  have hblocks := declares_empty.append (declares_intercalate
    (.cons declares_importLines (.cons (declares_sourceLines hworded) hdeclarations)))
  rw [← flatMap_names, List.flatMap_def]
  exact hblocks

theorem fileLines_eq (p : Program) (e : Emission) :
    fileLines p e = ["// Code generated by ctac. DO NOT EDIT.", "", "package " ++ e.package] ++
      bodyLines p e := by
  simp [fileLines, bodyLines, List.intercalate_cons_cons]

/-- The line of the package declares nothing, if it is one line. -/
theorem declares_package {package : String} (h : '\n' ∉ package.toList) :
    Declares .top ["package " ++ package] [] .top := by
  have hread : Region.top.read ("package " ++ package).toList = (none, .top) := by
    simp [Region.read, literal?, behindKeyword?, keywords]
  exact declares_line (by simpa using h) hread

/-! ## Different identifiers -/

/-- The names made from labels and payloads. -/
def madeNames (p : Program) : List String :=
  p.topology.payloads.map payloadType ++ p.topology.routes.map Route.name ++
    p.network.map fun a => workerName a.label

theorem nodup_madeNames {p : Program} (hp : p.Analyzed) (h : collisions p = []) :
    (madeNames p).Nodup := by
  have hchannels : (p.topology.routes.map Route.name).Nodup := by
    rw [collisions_eq hp, List.map_eq_nil_iff] at h
    exact namesakes_eq_nil_iff.1 h
  refine List.nodup_append.2 ⟨List.nodup_append.2 ⟨nodup_payloadTypes _, hchannels, ?_⟩,
    nodup_workerNames hp, ?_⟩
  · simp only [List.forall_mem_map]
    exact fun m _ r _ => (Owner.name_ne "" m r).2.2
  · simp only [List.forall_mem_append, List.forall_mem_map]
    exact ⟨fun m _ a _ => (Owner.name_ne a.label m default).1.symm,
      fun r _ a _ => (Owner.name_ne a.label "" r).2.1.symm⟩

theorem underscore_mem_madeNames {p : Program} : ∀ name ∈ madeNames p, '_' ∈ name.toList := by
  simp [madeNames, or_imp, forall_and, payloadType, Route.name, workerName]

/-- The names that are the same in all programs. -/
def fixedNames (e : Emission) : List String :=
  ["channelDepth", "tickInterval", "pollInterval"] ++ (if e.seed.isSome then ["seed"] else []) ++
    ["clock", "pickFirst", "pickRandom", "main"]

/-- Without collisions the identifiers are different: the fixed ones have no underscores. -/
theorem nodup_identifiers {p : Program} (hp : p.Analyzed) (h : collisions p = [])
    (e : Emission) : (identifiers p e).Nodup := by
  -- the order makes no difference, so the fixed ones can be set apart
  have hperm : (identifiers p e).Perm (fixedNames e ++ madeNames p) := by
    rw [List.perm_iff_count]
    intro name
    simp only [identifiers, fixedNames, madeNames, List.count_append, List.count_cons,
      List.count_nil]
    omega
  have hfixed : (fixedNames e).Nodup ∧ ∀ name ∈ fixedNames e, '_' ∉ name.toList := by
    unfold fixedNames
    cases e.seed.isSome <;> exact ⟨by decide, by decide⟩
  rw [hperm.nodup_iff, List.nodup_append]
  refine ⟨hfixed.1, nodup_madeNames hp h, ?_⟩
  rintro name hname name' hname' rfl
  exact hfixed.2 name hname (underscore_mem_madeNames name hname')

theorem emit_eq_error_iff {p : Program} {e : Emission} {cs : List Collision} :
    emit p e = .error cs ↔ collisions p = cs ∧ cs ≠ [] := by
  unfold emit
  cases collisions p <;> simp +contextual [eq_comm]

/-- Checking names is sound and complete. In an analysed program different owners of names have
different descriptions. Names collide exactly if two channels have the same name. The collisions
are, in the order of the channels, one for each with the name of an earlier one, together with the
first that has the name; and there are none if no sender and no receiver has an underscore in its
label. A program is generated unless there are collisions. Behind the name of its package it
declares the parameters, the clock, message types, channels, helpers, workers and the main function,
and no two of these identifiers are the same. If that name is one line, nothing else is declared. -/
theorem names_apart_of_analyze {text : String} {c : Config} {p : Program}
    (h : analyze text c = .ok p) :
    (∀ o ∈ owners p, ∀ o' ∈ owners p, o.describe = o'.describe → o = o') ∧
    (collisions p ≠ [] ↔
      ∃ r ∈ p.topology.routes, ∃ s ∈ p.topology.routes, r ≠ s ∧ r.name = s.name) ∧
    collisions p = (p.topology.routes.zipIdx.filterMap fun x =>
      ((p.topology.routes.take x.2).find? fun first => first.name == x.1.name).map
        fun first => ⟨.channel first, .channel x.1⟩) ∧
    ((∀ r ∈ p.topology.routes, '_' ∉ r.sender.toList ∧ '_' ∉ r.receiver.toList) →
      collisions p = []) ∧
    ∀ e,
      (∀ cs, emit p e = .error cs ↔ collisions p = cs ∧ cs ≠ []) ∧
      ∀ go, emit p e = .ok go →
        (∃ body, go = "// Code generated by ctac. DO NOT EDIT.\n\npackage " ++ e.package ++ "\n" ++
          body ∧ declared body = identifiers p e) ∧
        ('\n' ∉ e.package.toList → declared go = identifiers p e) ∧
        (identifiers p e).Nodup := by
  have hp := analyzed_of_analyze h
  have hworded := worded_of_analyze h
  refine ⟨?_, collisions_ne_nil_iff hp, ?_, collisions_eq_nil_of_not_mem hp, fun e => ⟨?_, ?_⟩⟩
  · intro o ho o' ho'
    exact Owner.eq_of_describe_eq (written_of_mem_owners hworded ho)
      (written_of_mem_owners hworded ho')
  · simp [collisions_eq hp, namesakes, named?, List.map_filterMap, Function.comp_def]
  · exact fun cs => emit_eq_error_iff
  · intro go hgo
    rcases emit_eq_ok_iff.1 hgo with ⟨hnames, rfl⟩
    have hbody := declares_bodyLines hp hworded e
    -- the name of the package may be any text, so reading starts behind it
    refine ⟨⟨_, ?_, declared_join hbody⟩, ?_, nodup_identifiers hp hnames e⟩
    · apply String.toList_inj.1
      simp [fileText, fileLines_eq, String.join_cons]
    · intro hpackage
      have hhead : Declares .top ["// Code generated by ctac. DO NOT EDIT.", ""] [] .top := by
        decide
      have hall := hhead.append ((declares_package hpackage).append hbody)
      rw [fileText, fileLines_eq]
      exact declared_join hall

/-- Three channels with one name, and labels with underscores that do no harm. -/
theorem names_apart_of_analyze_three_channels : ∃ p q go,
    analyze ("Cta A_B=Init s;s C!x()t;Cta C=Init s;s A_B?x()t;Cta A=Init s;s B_C!x()t;" ++
      "t B!C_x()s;Cta B_C=Init s;s A?x()t;Cta B=Init s;s A?C_x()t;") .default = .ok p ∧
    analyze "Cta A_1=Init s;s B!m()t;Cta B=Init s;s A_1?m()t;" .default = .ok q ∧
    emit q { Emission.default with seed := some 7 } = .ok go ∧
    collisions p =
      [⟨.channel ⟨"A_B", "C", "x"⟩, .channel ⟨"A", "B_C", "x"⟩⟩,
        ⟨.channel ⟨"A_B", "C", "x"⟩, .channel ⟨"A", "B", "C_x"⟩⟩] ∧
    emit p .default = .error (collisions p) ∧
    declared go = ["channelDepth", "tickInterval", "pollInterval", "seed", "clock", "msg_m",
      "chan_A_1_B_m", "pickFirst", "pickRandom", "run_A_1", "run_B", "main"] ∧
    (declared go).Nodup := by
  rcases Fallible.exists_ok_of_any
    (x := analyze ("Cta A_B=Init s;s C!x()t;Cta C=Init s;s A_B?x()t;Cta A=Init s;s B_C!x()t;" ++
      "t B!C_x()s;Cta B_C=Init s;s A?x()t;Cta B=Init s;s A?C_x()t;") .default)
    (P := fun p => p.topology.routes = [⟨"A_B", "C", "x"⟩, ⟨"A", "B_C", "x"⟩, ⟨"A", "B", "C_x"⟩])
    (by decide +kernel) with ⟨p, hp, hroutes⟩
  rcases Fallible.exists_ok_of_any
    (x := analyze "Cta A_1=Init s;s B!m()t;Cta B=Init s;s A_1?m()t;" .default)
    (P := fun q => collisions q = [] ∧ identifiers q { Emission.default with seed := some 7 } =
      ["channelDepth", "tickInterval", "pollInterval", "seed", "clock", "msg_m", "chan_A_1_B_m",
        "pickFirst", "pickRandom", "run_A_1", "run_B", "main"])
    (by decide +kernel) with ⟨q, hq, hnames, hidentifiers⟩
  have hgo : emit q { Emission.default with seed := some 7 } = .ok _ :=
    emit_eq_ok_iff.2 ⟨hnames, rfl⟩
  rcases names_apart_of_analyze hp with ⟨-, -, hcollisions, -, hemit⟩
  rcases (names_apart_of_analyze hq).2.2.2.2 _ with ⟨-, hdeclared⟩
  rcases hdeclared _ hgo with ⟨-, hline, hnodup⟩
  have hdeclared := hline (by decide)
  have hthree : collisions p =
      [⟨.channel ⟨"A_B", "C", "x"⟩, .channel ⟨"A", "B_C", "x"⟩⟩,
        ⟨.channel ⟨"A_B", "C", "x"⟩, .channel ⟨"A", "B", "C_x"⟩⟩] := by
    rw [hcollisions, hroutes]
    decide +kernel
  refine ⟨p, q, _, hp, hq, hgo, hthree, ((hemit .default).1 _).2 ⟨rfl, ?_⟩, ?_, ?_⟩
  · rw [hthree]
    exact List.cons_ne_nil _ _
  · rw [hdeclared, hidentifiers]
  · rwa [hdeclared]

end Generation
end TimedAutomata
