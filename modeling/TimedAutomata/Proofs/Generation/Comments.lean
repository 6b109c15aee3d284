import TimedAutomata.Proofs.Generation.Recovery
import TimedAutomata.Proofs.Generation.Sharing

/-!
# Comments of a program

The declarations of the automata stand in the comments of a generated program, and the names in
them in comments of their own. None of this text can end a comment or start one: the block comment
ends where the program ends it, and the line comments are those that the program writes, each of
them one line.

* `Text.occurrences`: how often a word stands in a text
* `comments`: the lines of a text that are comments
* `Writes`: a line that writes a given comment
* `programNotes`: the comments of a program, from its automata and channels
* `writes_declarations`: these are the comments that its declarations write
* `emit_confines_sources`: whole programs
-/

namespace TimedAutomata

open Grammar

/-! ## Occurrences -/

namespace Text

/-- At how many places of a text `w` stands. -/
def occurrences (w : List Char) : List Char → Nat
  | [] => 0
  | c :: cs => (if w.isPrefixOf (c :: cs) then 1 else 0) + occurrences w cs

theorem isPrefixOf_append_newline {w : List Char} (hw : '\n' ∉ w) (u v : List Char) :
    w.isPrefixOf (u ++ '\n' :: v) = w.isPrefixOf u := by
  induction w generalizing u with
  | nil => simp
  | cons c w ih =>
    simp only [List.mem_cons, not_or] at hw
    cases u with
    | nil => simp [List.isPrefixOf, Ne.symm hw.1]
    | cons d u => simp [List.isPrefixOf, ih hw.2]

/-- A word without a line feed stands before a line feed or after it. -/
theorem occurrences_append_newline {w : List Char} (hne : w ≠ []) (hw : '\n' ∉ w)
    (u v : List Char) : occurrences w (u ++ '\n' :: v) = occurrences w u + occurrences w v := by
  induction u with
  | nil =>
    have hstart := isPrefixOf_append_newline hw [] v
    have hnil : w.isPrefixOf [] = false := by
      cases w with
      | nil => exact absurd rfl hne
      | cons c w => rfl
    rw [List.nil_append, hnil] at hstart
    simp [occurrences, hstart]
  | cons c u ih =>
    have hhere := isPrefixOf_append_newline hw (c :: u) v
    rw [List.cons_append] at hhere
    rw [List.cons_append, occurrences, occurrences, hhere, ih, Nat.add_assoc]

theorem occurrences_of_not_mem {w cs : List Char} {c : Char} (hc : c ∈ w) (h : c ∉ cs) :
    occurrences w cs = 0 := by
  induction cs with
  | nil => rfl
  | cons d cs ih =>
    have hhere : ¬ w.isPrefixOf (d :: cs) = true := by
      intro hprefix
      exact h ((List.isPrefixOf_iff_prefix.1 hprefix).subset hc)
    rw [occurrences, if_neg hhere, ih fun hmem => h (List.mem_cons_of_mem d hmem)]

/-- No word starts in a text without its first letter. -/
theorem occurrences_append_of_not_mem {w u : List Char} {c : Char} (h : c ∉ u) (v : List Char) :
    occurrences (c :: w) (u ++ v) = occurrences (c :: w) v := by
  induction u with
  | nil => rfl
  | cons d u ih =>
    simp only [List.mem_cons, not_or] at h
    rw [List.cons_append, occurrences, ih h.2]
    simp [List.isPrefixOf, h.1]

theorem occurrences_join {w : List Char} (hne : w ≠ []) (hw : '\n' ∉ w) (ls : List String) :
    occurrences w (String.join (ls.map (· ++ "\n"))).toList =
      (ls.map fun l => occurrences w l.toList).sum := by
  induction ls with
  | nil => simp [occurrences]
  | cons l ls ih =>
    rw [toList_join_cons, occurrences_append_newline hne hw, ih, List.map_cons, List.sum_cons]

end Text

namespace Generation

/-- The end of a block comment. -/
def terminator : List Char :=
  ['*', '/']

theorem sum_slashed (ls : List String) :
    ((slashed ls).map fun l => Text.occurrences terminator l.toList).sum =
      (ls.map fun l => Text.occurrences terminator l.toList).sum := by
  induction ls with
  | nil => rfl
  | cons l ls ih =>
    by_cases hl : Bare l
    · have hnone : Text.occurrences terminator l.toList = 0 :=
        Text.occurrences_of_not_mem (c := '/') (by decide) hl.1
      rw [slashed_cons hl, ih, List.map_cons, List.sum_cons, hnone, Nat.zero_add]
    · have hcons : slashed (l :: ls) = l :: slashed ls :=
        List.filter_cons_of_pos (by simpa using hl)
      rw [hcons, List.map_cons, List.map_cons, List.sum_cons, List.sum_cons, ih]

/-! ## Lines of comment -/

/-- A line that starts with two slashes. -/
def comment? (cs : List Char) : Option String :=
  if ['/', '/'].isPrefixOf cs then some (String.ofList cs) else none

/-- The lines of a text that are comments, without their blank ends. -/
def comments (text : String) : List String :=
  Text.found comment? text

/-- The comments of a text made of lines are those of its lines. -/
theorem comments_join (ls : List String) :
    comments (String.join (ls.map (· ++ "\n"))) = ls.flatMap comments :=
  Text.found_join rfl ls

theorem comments_of_bare {s : String} (h : Bare s) : comments s = [] := by
  refine Text.found_eq_nil_of_not_mem rfl (c := '/') ?_ h.1
  intro cs a ha
  unfold comment? at ha
  split at ha
  · next hprefix => exact (List.isPrefixOf_iff_prefix.1 hprefix).subset (by decide)
  · cases ha

/-- The text is one line, and ends no block comment. -/
def Plain (s : String) : Prop :=
  '\n' ∉ s.toList ∧ '*' ∉ s.toList

instance (s : String) : Decidable (Plain s) :=
  inferInstanceAs (Decidable (_ ∧ _))

@[simp] theorem plain_append {s t : String} : Plain (s ++ t) ↔ Plain s ∧ Plain t := by
  simp only [Plain, String.toList_append, List.mem_append, not_or]
  exact and_and_and_comm

theorem plain_of_isWord {s : String} (h : IsWord s.toList) : Plain s :=
  ⟨h.not_mem (by decide), h.not_mem (by decide)⟩

/-- The lines of a declaration hold no asterisk. -/
theorem plain_of_mem_linesOf {a : Automaton} (h : a.Worded) {line : String}
    (hline : line ∈ Text.linesOf a.source) : Plain line := by
  have hstar : '*' ∉ a.source.toList := h.not_mem_source (by decide) (by decide)
  exact ⟨Text.not_mem_of_mem_linesOf hline,
    fun hmem => hstar (Text.mem_of_mem_linesOf hline hmem)⟩

/-- A comment of one line. -/
structure IsNote (s : String) : Prop where
  slashes : ['/', '/'] <+: s.toList
  plain : Plain s

/-- The line writes a comment, behind some tabs. -/
def Writes (l s : String) : Prop :=
  IsNote s ∧ ∃ n, l = indented n s

theorem IsNote.writes {s : String} (h : IsNote s) : Writes s s :=
  ⟨h, 0, by simp [indented]⟩

/-- What is left of a comment without its blank ends starts with its slashes. -/
theorem IsNote.trim_eq {s : String} (h : IsNote s) (n : Nat) :
    Text.trim (indented n s).toList = Text.trim s.toList ∧
      comment? (Text.trim s.toList) = some (Text.trimmed s) := by
  rcases h.slashes with ⟨rest, hrest⟩
  have hblank : Text.isBlank '/' = false := by decide
  have hslashes : Text.Dense ['/', '/'] := ⟨by simp, by simp [hblank], by simp [hblank]⟩
  have htabs : Text.trimLeft (List.replicate n '\t') = [] := by
    apply List.dropWhile_eq_nil_iff.2
    intro c hc
    rw [List.eq_of_mem_replicate hc]
    decide
  have htrim : Text.trim s.toList = ['/', '/'] ++ Text.trimRight rest := by
    have hs : s.toList = [] ++ (['/', '/'] ++ rest) := hrest.symm
    rw [hs, Text.trim_append_dense hslashes]
    rfl
  constructor
  · have hindented : (indented n s).toList = List.replicate n '\t' ++ (['/', '/'] ++ rest) := by
      rw [hrest]
      simp [indented]
    rw [hindented, Text.trim_append_dense hslashes, htabs, htrim, List.nil_append]
  · have hprefix : ['/', '/'].isPrefixOf (Text.trim s.toList) = true := by
      rw [htrim]
      simp
    rw [comment?, if_pos hprefix]
    rfl

theorem Writes.comments {l s : String} (h : Writes l s) : comments l = [Text.trimmed s] := by
  rcases h with ⟨hnote, n, rfl⟩
  have hline : '\n' ∉ (indented n s).toList := by
    simp [indented, hnote.plain.1]
  rcases hnote.trim_eq n with ⟨htrim, hcomment⟩
  rw [Generation.comments, Text.found_of_not_mem rfl hline, htrim, hcomment]
  rfl

theorem Writes.occurrences {l s : String} (h : Writes l s) :
    Text.occurrences terminator l.toList = 0 := by
  rcases h with ⟨hnote, n, rfl⟩
  apply Text.occurrences_of_not_mem (c := '*') (by decide)
  simp [indented, hnote.plain.2]

theorem flatMap_comments {ls notes : List String} (h : List.Forall₂ Writes ls notes) :
    ls.flatMap comments = notes.map Text.trimmed := by
  induction h with
  | nil => rfl
  | cons hline _ ih => rw [List.flatMap_cons, hline.comments, ih, List.map_cons]; rfl

theorem sum_occurrences {ls notes : List String} (h : List.Forall₂ Writes ls notes) :
    (ls.map fun l => Text.occurrences terminator l.toList).sum = 0 := by
  induction h with
  | nil => rfl
  | cons hline _ ih => rw [List.map_cons, List.sum_cons, hline.occurrences, ih]

/-! ## The comments of a worker -/

/-- What a communication does, in words. -/
def sentence (c : Communication) : String :=
  match c.direction with
  | .send => "send " ++ c.payload ++ " to " ++ c.partner
  | .receive => "receive " ++ c.payload ++ " from " ++ c.partner

/-- The comments above the function of an automaton, and above its communications. -/
def workerNotes (a : Automaton) : List String :=
  ["// " ++ workerName a.label ++ " executes automaton " ++ a.label ++ ":", "//"] ++
  (Text.linesOf a.source).map (fun line => "//\t" ++ Text.trimmed line) ++
  (a.states.flatMap (leaving a)).map fun x => "// " ++ sentence x.2.comm

def Case.comments (n : Nat) : Case → List String
  | .mk _ body => Stmt.blockComments (n + 1) body

theorem Stmt.caseComments_eq (n : Nat) (cases : List Case) :
    Stmt.caseComments n cases = cases.flatMap (Case.comments n) := by
  induction cases with
  | nil => rfl
  | cons c cases ih =>
    cases c
    rw [Stmt.caseComments, ih, List.flatMap_cons]
    rfl

theorem blockComments_traced (e : Emission) (label text : String) (n : Nat) :
    (traced e (report label text)).flatMap (Stmt.comments n) = [] := by
  unfold traced
  split <;> rfl

theorem comments_pick (n : Nat) (t : Tier) : (pick t).comments n = [] := rfl

theorem comments_communicate (n : Nat) (c : Communication) (channel : String) :
    (communicate c channel).flatMap (Stmt.comments n) = [indented n ("// " ++ sentence c)] := by
  unfold communicate sentence
  cases c.direction <;> rfl

section Worker

variable {p : Program} (hp : p.Analyzed) {aid : AutomatonId} {a : Automaton}
  (ha : p.network[aid]? = some a)

include hp ha

/-- Every transition has a channel, so that its communication is announced. -/
theorem comments_arm (n : Nat) {x : (TransitionId × Transition) × Nat}
    (hx : a.transitions[x.1.1]? = some x.1.2) :
    (arm p aid a x).comments n = [indented (n + 1) ("// " ++ sentence x.1.2.comm)] := by
  rcases x with ⟨⟨tid, t⟩, ordinal⟩
  simp only [arm, Case.comments, Stmt.blockComments_eq, channelName?_eq hp ha hx,
    List.flatMap_append, comments_communicate]
  split <;> rfl

theorem comments_branch (n : Nat) (sid : StateId) (s : State) :
    (branch p aid a sid s).comments n =
      (leaving a s).map fun x => indented (n + 2) ("// " ++ sentence x.2.comm) := by
  have harms : ((leaving a s).zipIdx.map (arm p aid a)).flatMap (Case.comments (n + 1)) =
      (leaving a s).map fun x => indented (n + 2) ("// " ++ sentence x.2.comm) := by
    calc ((leaving a s).zipIdx.map (arm p aid a)).flatMap (Case.comments (n + 1))
        = (leaving a s).zipIdx.flatMap
            (fun x => [indented (n + 2) ("// " ++ sentence x.1.2.comm)]) := by
          rw [List.flatMap_map]
          refine List.flatMap_congr fun x hx => comments_arm hp ha (n + 1) ?_
          exact getElem?_of_mem_leaving (List.fst_mem_of_mem_zipIdx hx)
      _ = ((leaving a s).zipIdx.map Prod.fst).map
            (fun x => indented (n + 2) ("// " ++ sentence x.2.comm)) := by
          rw [List.map_map, List.map_eq_flatMap]
          rfl
      _ = (leaving a s).map fun x => indented (n + 2) ("// " ++ sentence x.2.comm) := by
          rw [List.zipIdx_map_fst]
  have hpicks (ts : List Tier) : ts.flatMap (fun t => (pick t).comments (n + 1)) = [] :=
    List.flatMap_eq_nil_iff.2 fun t _ => comments_pick (n + 1) t
  simp only [branch, Case.comments, Stmt.blockComments_eq, List.flatMap_append, List.flatMap_cons,
    List.flatMap_nil, List.flatMap_map, Stmt.comments, Stmt.caseComments_eq, harms, hpicks,
    List.nil_append, List.append_nil]

/-- The comments in a worker announce the communications of its transitions. -/
theorem comments_workerBody (e : Emission) :
    Stmt.blockComments 1 (workerBody p e aid a) =
      (a.states.flatMap (leaving a)).map fun x => indented 4 ("// " ++ sentence x.2.comm) := by
  have hhalt : (haltCases e a).flatMap (Case.comments 2) = [] := by
    unfold haltCases
    split
    · rfl
    · simp [Case.comments, Stmt.blockComments_eq, blockComments_traced, Stmt.comments]
  have hends : ∀ s : State × StateId, (!s.1.outgoing.isEmpty) = false →
      (branch p aid a s.2 s.1).comments 2 = [] := by
    intro s hs
    have hnone : leaving a s.1 = [] := by
      have hempty : s.1.outgoing = [] := by simpa using hs
      rw [leaving, hempty, List.filterMap_nil]
    rw [comments_branch hp ha, hnone, List.map_nil]
  have hcases : Stmt.caseComments 2 (stateCases p e aid a) =
      (a.states.flatMap (leaving a)).map fun x => indented 4 ("// " ++ sentence x.2.comm) := by
    calc Stmt.caseComments 2 (stateCases p e aid a)
        = a.states.zipIdx.flatMap (fun s => (branch p aid a s.2 s.1).comments 2) := by
          rw [Stmt.caseComments_eq, stateCases, List.flatMap_append, hhalt, List.append_nil,
            List.flatMap_map, flatMap_filter hends]
      _ = (a.states.zipIdx.map Prod.fst).flatMap
            (fun s => (leaving a s).map fun x => indented 4 ("// " ++ sentence x.2.comm)) := by
          rw [List.flatMap_map]
          exact List.flatMap_congr fun s _ => comments_branch hp ha 2 s.2 s.1
      _ = (a.states.flatMap (leaving a)).map fun x => indented 4 ("// " ++ sentence x.2.comm) := by
          rw [List.zipIdx_map_fst, List.map_flatMap]
  simp only [workerBody, Stmt.blockComments_eq, List.flatMap_append, List.flatMap_cons,
    List.flatMap_nil, Stmt.comments, blockComments_traced, hcases, List.nil_append,
    List.append_nil]

/-- A worker writes the comments of its automaton. -/
theorem writes_worker (hworded : a.Worded) (e : Emission) :
    List.Forall₂ Writes (worker p e aid a).comments (workerNotes a) := by
  have hlabel := plain_of_isWord hworded.label
  have hfirst : IsNote ("// " ++ workerName a.label ++ " executes automaton " ++ a.label ++ ":") :=
    ⟨by simp, by simp +decide [workerName, hlabel]⟩
  have hsecond : IsNote "//" := ⟨by simp, by decide⟩
  have hsources : ∀ line ∈ Text.linesOf a.source, IsNote ("//\t" ++ Text.trimmed line) := by
    intro line hline
    have hplain : Plain (Text.trimmed line) := by
      rcases plain_of_mem_linesOf hworded hline with ⟨hfeed, hstar⟩
      rw [Plain, Text.trimmed, String.toList_ofList]
      exact ⟨fun hmem => hfeed (Text.mem_of_mem_trim hmem),
        fun hmem => hstar (Text.mem_of_mem_trim hmem)⟩
    exact ⟨by simp, by simp +decide [hplain]⟩
  have hsentences : ∀ x ∈ a.states.flatMap (leaving a), IsNote ("// " ++ sentence x.2.comm) := by
    intro x hx
    rcases List.mem_flatMap.1 hx with ⟨s, -, hxs⟩
    have ht := List.mem_of_getElem? (getElem?_of_mem_leaving hxs)
    have hpartner := plain_of_isWord (hworded.partner _ ht)
    have hpayload := plain_of_isWord (hworded.payload _ ht)
    refine ⟨by simp, plain_append.2 ⟨by decide, ?_⟩⟩
    unfold sentence
    cases x.2.comm.direction <;> simp +decide [hpartner, hpayload]
  have hdoc : (worker p e aid a).doc.map ("//" ++ ·) =
      ["// " ++ workerName a.label ++ " executes automaton " ++ a.label ++ ":", "//"] ++
        (Text.linesOf a.source).map (fun line => "//\t" ++ Text.trimmed line) := by
    have hsplit : ∀ s : String,
        "//" ++ (" " ++ s) = "// " ++ s ∧ "//" ++ ("\t" ++ s) = "//\t" ++ s :=
      fun s => ⟨(String.append_assoc).symm, (String.append_assoc).symm⟩
    simp [worker, String.append_assoc, hsplit, Function.comp_def]
  rw [Func.comments, workerNotes, hdoc]
  apply List.rel_append
  · apply List.forall₂_same.2
    simp only [List.forall_mem_append, List.forall_mem_cons, List.forall_mem_map]
    exact ⟨⟨hfirst.writes, hsecond.writes, by simp⟩, fun line hline => (hsources line hline).writes⟩
  · rw [show (worker p e aid a).body = workerBody p e aid a from rfl, comments_workerBody hp ha]
    exact Fallible.forall₂_map fun x hx => ⟨hsentences x hx, 4, rfl⟩

end Worker

/-! ## Programs -/

/-- The comments of a program, but for the one in its first line. -/
def programNotes (p : Program) : List String :=
  ["// global time in ticks, advanced by main"] ++ p.topology.routes.map channelNote ++
  ["// pickFirst returns the first enabled candidate, or -1.",
   "// pickRandom returns an enabled candidate chosen uniformly at random, or -1."] ++
  p.network.flatMap workerNotes

theorem isNote_channelNote {r : Route} (hr : r.Written) : IsNote (channelNote r) := by
  have hsender := plain_of_isWord hr.sender
  have hreceiver := plain_of_isWord hr.receiver
  have hpayload := plain_of_isWord hr.payload
  exact ⟨by simp [channelNote], by simp +decide [channelNote, hsender, hreceiver, hpayload]⟩

theorem comments_mainFunc (p : Program) (e : Emission) : (mainFunc p e).comments = [] := by
  simp only [mainFunc, Func.comments, Stmt.blockComments_eq, Stmt.caseComments_eq, Stmt.comments,
    Case.comments, List.flatMap_append, List.flatMap_cons, List.flatMap_nil, List.flatMap_map,
    List.map_nil, List.append_nil]
  exact List.flatMap_eq_nil_iff.2 fun _ _ => rfl

/-- The declarations of a program write its comments. -/
theorem writes_declarations {p : Program} (hp : p.Analyzed) (hworded : p.Worded) (e : Emission) :
    List.Forall₂ Writes ((declarations p e).flatMap fun d => slashed d.lines)
      (programNotes p) := by
  have hclock : IsNote "// global time in ticks, advanced by main" := ⟨by simp, by decide⟩
  have hhelpers : List.Forall₂ Writes (helpers.flatMap Func.comments)
      ["// pickFirst returns the first enabled candidate, or -1.",
       "// pickRandom returns an enabled candidate chosen uniformly at random, or -1."] := by
    have hfirst : IsNote "// pickFirst returns the first enabled candidate, or -1." :=
      ⟨by simp, by decide⟩
    have hrandom : IsNote
        "// pickRandom returns an enabled candidate chosen uniformly at random, or -1." :=
      ⟨by simp, by decide⟩
    exact .cons hfirst.writes (.cons hrandom.writes .nil)
  have hworkers : List.Forall₂ Writes
      (p.network.zipIdx.flatMap fun a => (worker p e a.2 a.1).comments)
      (p.network.flatMap workerNotes) := by
    have hnotes : p.network.flatMap workerNotes =
        p.network.zipIdx.flatMap fun a => workerNotes a.1 := by
      rw [← List.flatMap_map Prod.fst, List.zipIdx_map_fst]
    rw [hnotes]
    apply Fallible.forall₂_flatMap
    intro a ha
    have hlookup : p.network[a.2]? = some a.1 := List.mk_mem_zipIdx_iff_getElem?.1 ha
    exact writes_worker hp hlookup (hworded.automata _ (List.mem_of_getElem? hlookup)) e
  rw [slashed_declarations hworded e, comments_mainFunc, List.append_nil, programNotes]
  refine List.rel_append (List.rel_append (List.rel_append (.cons hclock.writes .nil) ?_) hhelpers)
    hworkers
  exact Fallible.forall₂_map fun r hr => ⟨isNote_channelNote (hworded.routes r hr), 1, rfl⟩

/-- The end of a block comment stands once in a program, but for the name of its package. -/
theorem occurrences_fileText {p : Program} (hp : p.Analyzed) (hworded : p.Worded) (e : Emission) :
    Text.occurrences terminator (fileText p e).toList =
      Text.occurrences terminator e.package.toList + 1 := by
  have hpackage : ((slashed ["package " ++ e.package]).map fun l =>
      Text.occurrences terminator l.toList).sum = Text.occurrences terminator e.package.toList := by
    rw [sum_slashed, List.map_singleton, List.sum_singleton, String.toList_append, terminator,
      Text.occurrences_append_of_not_mem (by decide)]
  have hhead : (["// Code generated by ctac. DO NOT EDIT."].map fun l =>
      Text.occurrences terminator l.toList).sum = 0 := by decide
  have hothers : (["\t\"math/rand\"", "\t\"sync/atomic\"", "/* Automata:", "*/"].map fun l =>
      Text.occurrences terminator l.toList).sum = 1 := by decide
  calc Text.occurrences terminator (fileText p e).toList
      = ((slashed (fileLines p e)).map fun l => Text.occurrences terminator l.toList).sum := by
        rw [fileText, Text.occurrences_join (by decide) (by decide), sum_slashed]
    _ = Text.occurrences terminator e.package.toList + 1 := by
        rw [slashed_fileLines hworded e]
        simp only [List.map_append, List.sum_append, hhead, hpackage, hothers,
          sum_occurrences (writes_declarations hp hworded e), Nat.zero_add, Nat.add_zero]

/-- The comments of a program are those it writes, and those in the name of its package. -/
theorem comments_fileText {p : Program} (hp : p.Analyzed) (hworded : p.Worded) (e : Emission) :
    comments (fileText p e) = ["// Code generated by ctac. DO NOT EDIT."] ++
      comments ("package " ++ e.package) ++ (programNotes p).map Text.trimmed := by
  have hhead : comments "// Code generated by ctac. DO NOT EDIT." =
      ["// Code generated by ctac. DO NOT EDIT."] := by decide +kernel
  have hpackage : (slashed ["package " ++ e.package]).flatMap comments =
      comments ("package " ++ e.package) := by
    rw [flatMap_slashed fun _ => comments_of_bare, List.flatMap_singleton]
  have hothers : ["\t\"math/rand\"", "\t\"sync/atomic\"", "/* Automata:", "*/"].flatMap
      comments = [] := by decide +kernel
  calc comments (fileText p e)
      = (slashed (fileLines p e)).flatMap comments := by
        rw [fileText, comments_join, flatMap_slashed fun _ => comments_of_bare]
    _ = ["// Code generated by ctac. DO NOT EDIT."] ++ comments ("package " ++ e.package) ++
          (programNotes p).map Text.trimmed := by
        rw [slashed_fileLines hworded e]
        simp only [List.flatMap_append, List.flatMap_singleton, hhead, hpackage, hothers,
          flatMap_comments (writes_declarations hp hworded e), List.append_nil]

/-- The characters of a declaration. -/
def IsSourceChar (c : Char) : Prop :=
  Text.isBlank c = true ∨ c.isAlphanum = true ∨ c ∈ "_=;!?(),\x7b\x7d<>&|".toList

theorem isSourceChar_of_read {text : String} {net : Network} (h : Network.read text = .ok net)
    {a : Automaton} (ha : a ∈ net) {c : Char} (hc : c ∈ a.source.toList) : IsSourceChar c := by
  rcases Spelling.exists_declaration_of_read h ha with ⟨d, hd, hda⟩
  rcases (hda.worded hd).source c hc with hclause | rfl
  · simp only [isClauseChar, isWordChar, Bool.or_eq_true, beq_iff_eq] at hclause
    rcases hclause with (hblank | hword | rfl) | hpunctuation
    · exact .inl hblank
    · exact .inr (.inl hword)
    · exact .inr (.inr (by decide))
    · have hall : punctuation.all ("_=;!?(),\x7b\x7d<>&|".toList.contains ·) = true := by decide
      have hmem := List.all_eq_true.1 hall c (List.contains_iff_mem.1 hpunctuation)
      exact .inr (.inr (List.contains_iff_mem.1 hmem))
  · exact .inr (.inr (by decide))

/-- What users write stays in the comments of a generated program. The declarations that are read
from a text are written in few characters, neither a slash nor an asterisk among them. In a program
generated from them, whatever it was configured to be, a block comment ends once more than in the
name of the package; and the lines of comment are the first line, those in the name of the package,
and those that the program writes. -/
theorem emit_confines_sources (text : String) :
    (∀ net, Network.read text = .ok net →
      ∀ a ∈ net, ∀ c ∈ a.source.toList, IsSourceChar c) ∧
    ∀ c p e go, analyze text c = .ok p → emit p e = .ok go →
      Text.occurrences terminator go.toList =
        Text.occurrences terminator e.package.toList + 1 ∧
      comments go = ["// Code generated by ctac. DO NOT EDIT."] ++
        comments ("package " ++ e.package) ++ (programNotes p).map Text.trimmed := by
  constructor
  · intro net hnet a ha c hc
    exact isSourceChar_of_read hnet ha hc
  · intro c p e go hp hgo
    rcases emit_eq_ok_iff.1 hgo with ⟨-, rfl⟩
    have hanalyzed := analyzed_of_analyze hp
    have hworded := worded_of_analyze hp
    exact ⟨occurrences_fileText hanalyzed hworded e, comments_fileText hanalyzed hworded e⟩

/-- A declaration of two lines, and a package with comments in its name. -/
theorem emit_confines_sources_package_comment : ∃ p go,
    analyze "Cta A=Init s;\n\ts B!m(x<5,\x7bx\x7d)s;Cta B=Init s;s A?m()s;" .default = .ok p ∧
      emit p { Emission.default with package := "main // one */\n // two */" } = .ok go ∧
      Text.occurrences terminator go.toList = 3 ∧
      comments go = ["// Code generated by ctac. DO NOT EDIT.", "// two */"] ++
        (programNotes p).map Text.trimmed ∧
      p.network.flatMap workerNotes =
        ["// run_A executes automaton A:", "//", "//\tCta A=Init s;",
          "//\ts B!m(x<5,\x7bx\x7d)s;", "// send m to B",
          "// run_B executes automaton B:", "//", "//\tCta B=Init s;s A?m()s;",
          "// receive m from A"] ∧
      ∀ a ∈ p.network, ∀ c ∈ a.source.toList, IsSourceChar c := by
  rcases Fallible.exists_ok_of_any
    (x := analyze "Cta A=Init s;\n\ts B!m(x<5,\x7bx\x7d)s;Cta B=Init s;s A?m()s;" .default)
    (P := fun p => collisions p = [] ∧ p.network.flatMap workerNotes =
      ["// run_A executes automaton A:", "//", "//\tCta A=Init s;",
        "//\ts B!m(x<5,\x7bx\x7d)s;", "// send m to B",
        "// run_B executes automaton B:", "//", "//\tCta B=Init s;s A?m()s;",
        "// receive m from A"])
    (by decide +kernel) with ⟨p, hp, hnames, hnotes⟩
  have hgo : emit p { Emission.default with package := "main // one */\n // two */" } = .ok _ :=
    emit_eq_ok_iff.2 ⟨hnames, rfl⟩
  have hends : Text.occurrences terminator "main // one */\n // two */".toList = 2 := by
    decide +kernel
  have hpackage : comments ("package " ++ "main // one */\n // two */") = ["// two */"] := by
    decide +kernel
  rcases emit_confines_sources
    "Cta A=Init s;\n\ts B!m(x<5,\x7bx\x7d)s;Cta B=Init s;s A?m()s;" with ⟨hsources, hconfined⟩
  rcases hconfined _ _ _ _ hp hgo with ⟨hoccurrences, hcomments⟩
  refine ⟨p, _, hp, hgo, ?_, ?_, hnotes, hsources p.network (analyze_eq_ok_iff.1 hp).1⟩
  · rw [hoccurrences, hends]
  · rw [hcomments, hpackage, List.singleton_append]

end Generation
end TimedAutomata
