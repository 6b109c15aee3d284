import TimedAutomata.Proofs.Arbiter.Priority
import TimedAutomata.Proofs.Generation.Outline
import TimedAutomata.Proofs.Generation.Refinement

/-!
# State switches

A worker acts on its state in a switch, which can be read off the text of a generated program: the
states with outgoing transitions have cases of their own, where the enabled transitions are found,
one is chosen, and it is performed; the end states share a case, where the worker returns. No state
is missing and none comes twice, and neither does an ordinal.

* `StateCase`, `switches?`: reading the state switches of a program
* `read?_branch`, `read?_ends`: cases are read as they were written
* `block?_workerBody`, `read_worker`: so is the switch of a worker
* `switches?_join`: so are the switches of all workers
* `Complete`: what a state switch has to be
* `switches_complete`: the switches of every generated program are that
-/

namespace TimedAutomata
namespace Generation

open Grammar

/-! ## Reading -/

/-- A case of a state switch, as it stands in a program. -/
structure StateCase where
  labels : List String
  /-- The conditions in the list of enabled transitions. -/
  enabled : List String
  /-- The candidates that are passed to the helpers, call by call. -/
  tiers : List Tier
  /-- The cases of the choice, and the states that are assigned in them. -/
  arms : List (Nat × List String)
  /-- Whether the last statement is a return. -/
  returns : Bool
  deriving DecidableEq, Repr

/-- The call of the helper that breaks ties, up to the candidates. -/
def callOf : TieBreak → String
  | .first => "pickFirst(enabled, "
  | .random => "pickRandom(rng, enabled, "

/-- The candidates of a call. -/
def tierOf? (tieBreak : TieBreak) (l : String) : Option Tier := do
  let candidates ← enclosed? (indented 4 ("choice = " ++ callOf tieBreak)) ")" l
  return ⟨tieBreak, ← (items candidates).mapM numeral?⟩

def tier? (l : String) : Option Tier :=
  (tierOf? .first l).or (tierOf? .random l)

def arm? (c : String × List String) : Option (Nat × List String) := do
  return (← numeral? c.1, c.2.filterMap (enclosed? (indented 4 "state = \"") "\""))

def StateCase.read? (c : String × List String) : Option StateCase := do
  let labels ← (items c.1).mapM (enclosed? "\"" "\"")
  let flags ← block? 3 "enabled := []bool\x7b" c.2
  let enabled ← flags.mapM (enclosed? (indented 4 "") ",")
  let tiers ← (blocks 3 "if choice < 0 \x7b" c.2).flatten.mapM tier?
  let choice ← block? 3 "switch choice \x7b" c.2
  let arms ← (casesAt 3 choice).mapM arm?
  return ⟨labels, enabled, tiers, arms, c.2.getLast? = some (indented 3 "return")⟩

/-- The workers of a program, and the cases of their state switches. -/
def switches? (text : String) : Option (List (String × List StateCase)) :=
  (sections workerLabel? (closes 0) (rows text)).mapM fun w => do
    let cases ← block? 2 "switch state \x7b" w.2
    return (w.1, ← (casesAt 2 cases).mapM StateCase.read?)

/-! ## Lists -/

theorem isWord_repr (n : Nat) : IsWord n.repr.toList := by
  rw [Nat.toList_repr]
  refine ⟨Nat.toDigits_ne_nil, fun c hc => ?_⟩
  have hdigit := Nat.isDigit_of_mem_toDigits (by decide) (by decide) hc
  simp [isWordChar, Char.isAlphanum, hdigit]

/-- The states of a case are read as they were written. -/
theorem labels_listText {names : List String} (hne : names ≠ [])
    (h : ∀ name ∈ names, IsWord name.toList) :
    (items (Expr.listText (names.map .string))).mapM (enclosed? "\"" "\"") = some names := by
  have hitems : items (Expr.listText (names.map .string)) =
      names.map fun name => "\"" ++ name ++ "\"" := by
    rw [items_listText (by simpa using hne), List.map_map]
    · rfl
    · simp only [List.forall_mem_map]
      intro name hname
      have hcomma : ',' ∉ name.toList := (h name hname).not_mem (by decide)
      simp [Expr.text, hcomma, StartsDense, isSpace]
  rw [hitems, Fallible.mapM_eq_some_iff, List.forall₂_map_left_iff, List.forall₂_same]
  exact fun name _ => enclosed?_append _ _ _

/-- Numbers are read as they were written. -/
theorem numerals_listText {ns : List Nat} (hne : ns ≠ []) :
    (items (Expr.listText (ns.map fun n : Nat => .int n))).mapM numeral? = some ns := by
  have hitems : items (Expr.listText (ns.map fun n : Nat => .int n)) = ns.map Nat.repr := by
    rw [items_listText (by simpa using hne), List.map_map]
    · rfl
    · simp only [List.forall_mem_map]
      intro n _
      have hdense := (isWord_repr n).startsDense []
      rw [List.append_nil] at hdense
      exact ⟨(isWord_repr n).not_mem (by decide), hdense⟩
  rw [hitems, Fallible.mapM_eq_some_iff, List.forall₂_map_left_iff, List.forall₂_same]
  exact fun n _ => numeral?_repr n

/-! ## Tiers -/

/-- The line that makes the choice of a tier. -/
def pickLine (t : Tier) : String :=
  indented 4 ("choice = " ++ callOf t.tieBreak) ++
    Expr.listText (t.ordinals.map fun i : Nat => .int i) ++ ")"

theorem lines_pick {t : Tier} (ht : t.ordinals ≠ []) :
    (pick t).lines 3 =
      indented 3 "if choice < 0 \x7b" :: ([pickLine t] ++ [indented 3 "\x7d"]) := by
  rcases t with ⟨tieBreak, _ | ⟨i, is⟩⟩
  · exact absurd rfl ht
  have hcondition : indented 3 ("if " ++ (Expr.binary .lt (.name "choice") (.int 0)).text ++
      " \x7b") = indented 3 "if choice < 0 \x7b" := by decide
  simp only [pick, Stmt.lines, Stmt.blockLines, hcondition, List.append_nil, List.cons_append,
    List.nil_append, List.cons.injEq, and_true, true_and, pickLine]
  apply String.toList_inj.1
  cases tieBreak <;> simp [callOf, indented, Expr.text, Expr.listText]

theorem tierOf?_pickLine {t : Tier} (ht : t.ordinals ≠ []) :
    tierOf? t.tieBreak (pickLine t) = some t := by
  simp [tierOf?, pickLine, enclosed?_append, numerals_listText ht]

theorem tier?_pickLine {t : Tier} (ht : t.ordinals ≠ []) : tier? (pickLine t) = some t := by
  have hread := tierOf?_pickLine ht
  unfold tier?
  cases hbreak : t.tieBreak with
  | first => rw [← hbreak, hread, Option.some_or]
  | random =>
    -- the names of the helpers differ
    have hother : tierOf? .first (pickLine t) = none := by
      rw [tierOf?, enclosed?_eq_none]
      · rfl
      · simp [pickLine, hbreak, callOf, indented]
    rw [hother, Option.none_or, ← hbreak, hread]

/-! ## Cases of states -/

/-- The lines of the conditions of some transitions. -/
def flagLines (p : Program) (aid : AutomatonId) (xs : List (TransitionId × Transition)) :
    List String :=
  xs.map fun x => indented 4 ((enabledEntry p aid x).text ++ ",")

/-- What blocks stand in the case of a state: the conditions, the tiers, and the choice. -/
theorem yields_branch (p : Program) (aid : AutomatonId) (a : Automaton) (arbiter : Arbiter)
    (s : State) {head : String} (hhead : Opening head) :
    Yields (opens? 3 head) (closes 3) (Stmt.blockLines 3 (branchBody p aid a arbiter s))
      ((if "enabled := []bool\x7b" = head then [((), flagLines p aid (leaving a s))] else []) ++
        arbiter.tiers.flatMap
          (fun t => if "if choice < 0 \x7b" = head then [((), [pickLine t])] else []) ++
        if "switch choice \x7b" = head then
          [((), Stmt.caseLines 3 ((leaving a s).zipIdx.map (arm p aid a)))] else []) := by
  -- each statement is one block, and `head` tells which of them are found
  have hflags : Yields (opens? 3 head) (closes 3)
      ((Stmt.defineFlags "enabled" ((leaving a s).map (enabledEntry p aid))).lines 3)
      (if "enabled := []bool\x7b" = head then [((), flagLines p aid (leaving a s))] else []) := by
    have hlines : (Stmt.defineFlags "enabled" ((leaving a s).map (enabledEntry p aid))).lines 3 =
        indented 3 "enabled := []bool\x7b" ::
          (flagLines p aid (leaving a s) ++ [indented 3 "\x7d"]) := by
      simp [Stmt.lines, flagLines, Function.comp_def]
    rw [hlines]
    refine yields_braced hhead fun l hl => .inl ?_
    rcases List.mem_map.1 hl with ⟨x, -, rfl⟩
    exact indented_indented 4 _
  have hpicks : ∀ t ∈ arbiter.tiers, Yields (opens? 3 head) (closes 3) ((pick t).lines 3)
      (if "if choice < 0 \x7b" = head then [((), [pickLine t])] else []) := by
    intro t ht
    rw [lines_pick ((Arbiter.layered_tiers arbiter.classes).nonempty t ht)]
    refine yields_braced hhead fun l hl => .inl ?_
    rw [List.mem_singleton.1 hl, pickLine, indented_append, indented_append]
    exact indented_indented 4 _
  have hswitch : Yields (opens? 3 head) (closes 3)
      ((Stmt.switch "choice" ((leaving a s).zipIdx.map (arm p aid a))).lines 3)
      (if "switch choice \x7b" = head then
        [((), Stmt.caseLines 3 ((leaving a s).zipIdx.map (arm p aid a)))] else []) := by
    exact yields_braced hhead (inner_caseLines 3 _)
  have hall := (hflags.append (yields_flatMap hpicks)).append hswitch
  simpa only [Stmt.blockLines_eq, branchBody, List.flatMap_append, List.flatMap_cons,
    List.flatMap_nil, List.append_nil, List.flatMap_map] using hall

theorem blocks_branch (p : Program) (aid : AutomatonId) (a : Automaton) (arbiter : Arbiter)
    (s : State) :
    block? 3 "enabled := []bool\x7b" (Stmt.blockLines 3 (branchBody p aid a arbiter s)) =
        some (flagLines p aid (leaving a s)) ∧
      (blocks 3 "if choice < 0 \x7b" (Stmt.blockLines 3 (branchBody p aid a arbiter s))).flatten =
        arbiter.tiers.map pickLine ∧
      block? 3 "switch choice \x7b" (Stmt.blockLines 3 (branchBody p aid a arbiter s)) =
        some (Stmt.caseLines 3 ((leaving a s).zipIdx.map (arm p aid a))) := by
  have hsections {head : String} (hhead : Opening head) :=
    (yields_branch p aid a arbiter s hhead).sections_eq
  have hnothing : arbiter.tiers.flatMap (fun _ => ([] : List (Unit × List String))) = [] :=
    List.flatMap_eq_nil_iff.2 fun _ _ => rfl
  refine ⟨?_, ?_, ?_⟩
  · rw [block?, blocks, hsections (by decide)]
    simp [hnothing]
  · rw [blocks, hsections (by decide)]
    simp only [String.reduceEq, ↓reduceIte, List.nil_append, List.append_nil,
      ← List.map_eq_flatMap, List.map_map, Function.comp_def]
    rw [← List.flatMap_def, ← List.map_eq_flatMap]
  · rw [block?, blocks, hsections (by decide)]
    simp [hnothing]

/-- What the case of a state is read as. -/
def StateCase.ofState (p : Program) (aid : AutomatonId) (a : Automaton) (sid : StateId)
    (s : State) : StateCase where
  labels := [s.name]
  enabled := (leaving a s).map fun x => (enabledEntry p aid x).text
  tiers := (arbiterOf p aid sid s.outgoing.length).tiers
  arms := (leaving a s).zipIdx.map fun x => (x.2, [a.stateName x.1.2.target])
  returns := false

/-- What the case of the end states is read as. -/
def StateCase.ofEnds (names : List String) : StateCase :=
  ⟨names, [], [], [], true⟩

section

variable {p : Program} (hp : p.Analyzed) {aid : AutomatonId} {a : Automaton}
  (ha : p.network[aid]? = some a)

include hp ha

/-- Of the lines of an arm one assigns a state, the target of the transition. -/
theorem assigned_armBody {x : (TransitionId × Transition) × Nat}
    (hx : a.transitions[x.1.1]? = some x.1.2) :
    (Stmt.blockLines 4 (armBody p aid a x)).filterMap
      (enclosed? (indented 4 "state = \"") "\"") = [a.stateName x.1.2.target] := by
  have hassign : enclosed? (indented 4 "state = \"") "\""
      (indented 4 ("state" ++ " = " ++ (Expr.string (a.stateName x.1.2.target)).text)) =
        some (a.stateName x.1.2.target) := by
    rw [enclosed?_eq_some_iff]
    apply String.toList_inj.1
    simp [indented, Expr.text]
  -- the other lines start with a comment, a channel or the epoch
  have hother : ∀ s : String, ¬ "state = \"".toList <+: s.toList →
      enclosed? (indented 4 "state = \"") "\"" (indented 4 s) = none := by
    intro s hs
    refine enclosed?_eq_none (fun hprefix => hs ?_) _
    simpa only [indented, String.toList_append, List.prefix_append_right_inj] using hprefix
  have hcommunicate : (Stmt.blockLines 4 (communicate x.1.2.comm
      (x.1.2.comm.route a.label).name)).filterMap
        (enclosed? (indented 4 "state = \"") "\"") = [] := by
    unfold communicate
    cases x.1.2.comm.direction <;>
      simp [Stmt.blockLines, Stmt.lines, Expr.text, Route.name, hother]
  have hreset : (Stmt.blockLines 4 (if x.1.2.resets = true then
      [.assign "epoch" (.name "now")] else [])).filterMap
        (enclosed? (indented 4 "state = \"") "\"") = [] := by
    split
    · simp [Stmt.blockLines, Stmt.lines, Expr.text, hother]
    · rfl
  simp only [Stmt.blockLines_eq] at hcommunicate hreset
  simp only [armBody, channelName?_eq hp ha hx, Stmt.blockLines_eq, List.flatMap_append,
    List.filterMap_append, hcommunicate, hreset, List.flatMap_cons, List.flatMap_nil, Stmt.lines,
    List.append_nil, List.nil_append, List.filterMap_cons, hassign, List.filterMap_nil]

theorem arms_read (s : State) :
    (casesAt 3 (Stmt.caseLines 3 ((leaving a s).zipIdx.map (arm p aid a)))).mapM arm? =
      some ((leaving a s).zipIdx.map fun x => (x.2, [a.stateName x.1.2.target])) := by
  rw [casesAt_caseLines, List.map_map, Fallible.mapM_eq_some_iff]
  apply Fallible.forall₂_map
  intro x hx
  have hassigned := assigned_armBody hp ha
    (getElem?_of_mem_leaving (List.fst_mem_of_mem_zipIdx hx))
  have hnumeral : numeral? (Expr.listText [.int x.2]) = some x.2 := numeral?_repr x.2
  simp [arm_eq, arm?, hnumeral, hassigned]

theorem read?_branch (hworded : a.Worded) {sid : StateId} {s : State}
    (hs : a.states[sid]? = some s) :
    StateCase.read? (Expr.listText [.string s.name], Stmt.blockLines 3
      (branchBody p aid a (arbiterOf p aid sid s.outgoing.length) s)) =
        some (.ofState p aid a sid s) := by
  have hname : IsWord s.name.toList :=
    hworded.states _ (List.mem_map_of_mem (List.mem_of_getElem? hs))
  have hlabels := @labels_listText [s.name] (List.cons_ne_nil _ []) (by simpa using hname)
  rw [List.map_singleton] at hlabels
  have henabled : (flagLines p aid (leaving a s)).mapM (enclosed? (indented 4 "") ",") =
      some ((leaving a s).map fun x => (enabledEntry p aid x).text) := by
    rw [Fallible.mapM_eq_some_iff]
    refine Fallible.forall₂_map fun x _ => ?_
    rw [enclosed?_eq_some_iff, indented_append, indented_append, String.empty_append]
  have htiers : ((arbiterOf p aid sid s.outgoing.length).tiers.map pickLine).mapM tier? =
      some (arbiterOf p aid sid s.outgoing.length).tiers := by
    rw [Fallible.mapM_eq_some_iff, List.forall₂_map_left_iff, List.forall₂_same]
    exact fun t ht => tier?_pickLine ((Arbiter.layered_tiers _).nonempty t ht)
  -- the last line closes the choice, and returns nothing
  have hlast : (Stmt.blockLines 3 (branchBody p aid a (arbiterOf p aid sid s.outgoing.length)
      s)).getLast? = some (indented 3 "\x7d") := by
    simp [Stmt.blockLines_eq, branchBody, Stmt.lines, List.getLast?_append, List.getLast?_cons]
  have hreturns : indented 3 "\x7d" ≠ indented 3 "return" := by decide
  rcases blocks_branch p aid a (arbiterOf p aid sid s.outgoing.length) s with
    ⟨hflags, hpicks, hchoice⟩
  simp only [StateCase.read?, hflags, hpicks, hchoice, hlast, hlabels, htiers]
  simp [StateCase.ofState, hreturns, henabled, arms_read hp ha s]

end

/-! ## Cases of end states -/

/-- The names of the states that no transition leaves. -/
def endNames (a : Automaton) : List String :=
  (a.states.filter fun s => s.outgoing.isEmpty).map State.name

/-- The list of end states is up to date in automata that are read. -/
theorem map_stateName_endStates {p : Program} (hp : p.Analyzed) {aid : AutomatonId} {a : Automaton}
    (ha : p.network[aid]? = some a) : a.endStates.map a.stateName = endNames a := by
  have hends : a.endStates = Automaton.deadEnds a.states := by
    rcases hp.parts ha with ⟨q, -, rfl⟩
    exact Automaton.endStates_ofEdges ..
  have hnames : ∀ x ∈ a.states.zipIdx.filter (fun s => s.1.outgoing.isEmpty),
      a.stateName x.2 = x.1.name := by
    rintro ⟨s, id⟩ hx
    have hs := List.mk_mem_zipIdx_iff_getElem?.1 (List.mem_of_mem_filter hx)
    simp [Automaton.stateName, Automaton.stateName?, hs]
  calc a.endStates.map a.stateName
      = (a.states.zipIdx.filter fun s => s.1.outgoing.isEmpty).map (fun s => s.1.name) := by
        rw [hends, Automaton.deadEnds, List.map_map]
        exact List.map_congr_left hnames
    _ = ((a.states.zipIdx.map Prod.fst).filter fun s => s.outgoing.isEmpty).map State.name := by
        rw [List.filter_map, List.map_map]
        rfl
    _ = endNames a := by rw [List.zipIdx_map_fst, endNames]

/-- A line that reports a state calls a function. -/
theorem exists_of_mem_traced {e : Emission} {label text l : String} {n : Nat}
    (hl : l ∈ Stmt.blockLines n (traced e (report label text))) :
    ∃ s, l = indented n ("fmt.Printf(" ++ s) := by
  unfold traced at hl
  split at hl
  · have hline : l = indented n ("fmt.Printf" ++ "(" ++ Expr.listText
        [.string (label ++ ": " ++ text ++ " %s\\n"), .name "state"] ++ ")") := by
      simpa [report, Stmt.blockLines, Stmt.lines, Expr.text] using hl
    exact ⟨_, hline.trans (by rw [String.append_assoc]; rfl)⟩
  · simp [Stmt.blockLines] at hl

theorem yields_traced {e : Emission} {label text head : String} {n : Nat}
    (hhead : head.toList.head? ≠ some 'f') :
    Yields (opens? n head) (closes n) (Stmt.blockLines n (traced e (report label text))) [] := by
  refine yields_of_none fun l hl => opens?_of_ne fun heq => ?_
  rcases exists_of_mem_traced hl with ⟨s, rfl⟩
  rw [← indented_inj.1 heq] at hhead
  simp at hhead

theorem read?_ends {names : List String} (hne : names ≠ [])
    (h : ∀ name ∈ names, IsWord name.toList) (e : Emission) (label : String) :
    StateCase.read? (Expr.listText (names.map .string), Stmt.blockLines 3
      (traced e (report label "halted in state") ++ [.giveBack none])) = some (.ofEnds names) := by
  have hlines : Stmt.blockLines 3 (traced e (report label "halted in state") ++
      [.giveBack none]) = Stmt.blockLines 3 (traced e (report label "halted in state")) ++
        [indented 3 "return"] := by
    simp [Stmt.blockLines_eq, Stmt.lines]
  have hnone : ∀ head : String, head.toList.head? ≠ some 'f' → head ≠ "return" →
      blocks 3 head (Stmt.blockLines 3 (traced e (report label "halted in state")) ++
        [indented 3 "return"]) = [] := by
    intro head hf hreturn
    have hlast : Yields (opens? 3 head) (closes 3) [indented 3 "return"] [] :=
      yields_of_none (by simpa [indented_inj, eq_comm, opens?] using hreturn)
    rw [blocks, ((yields_traced hf).append hlast).sections_eq]
    rfl
  have hflags := hnone "enabled := []bool\x7b" (by decide) (by decide)
  have hpicks := hnone "if choice < 0 \x7b" (by decide) (by decide)
  have hchoice := hnone "switch choice \x7b" (by decide) (by decide)
  simp only [StateCase.read?, hlines, labels_listText hne h, block?, hflags, hpicks, hchoice,
    List.getLast?_concat]
  rfl

/-! ## Workers -/

/-- What the state switch of a worker is read as. -/
def switchOf (p : Program) (aid : AutomatonId) (a : Automaton) : List StateCase :=
  (a.states.zipIdx.filter fun s => !s.1.outgoing.isEmpty).map
      (fun s => .ofState p aid a s.2 s.1) ++
    if endNames a = [] then [] else [.ofEnds (endNames a)]

theorem opens?_of_shallow {n : Nat} {head s : String} (hs : s.toList.head? ≠ some '\t') :
    opens? (n + 1) head (indented n s) = none := by
  apply opens?_of_ne
  intro heq
  have hlist := congrArg String.toList heq
  rw [indented, indented, List.replicate_succ', String.ofList_append, String.append_assoc,
    String.toList_append, String.toList_append, List.append_cancel_left_eq] at hlist
  simp [hlist] at hs

/-- In a worker one block is a state switch. -/
theorem block?_workerBody (p : Program) (e : Emission) (aid : AutomatonId) (a : Automaton) :
    block? 2 "switch state \x7b" (Stmt.blockLines 1 (workerBody p e aid a)) =
      some (Stmt.caseLines 2 (stateCases p e aid a)) := by
  -- what stands before the loop is not deep enough
  have hstart : Yields (opens? 2 "switch state \x7b") (closes 2) (Stmt.blockLines 1
      [.deferred (.call "wg.Done" []), .define "state" (.string (a.stateName a.initial)),
        .define "epoch" (.call "clock.Load" [])]) [] := by
    apply yields_of_none
    simp only [Stmt.blockLines, Stmt.lines, List.cons_append, List.nil_append,
      List.forall_mem_cons]
    exact ⟨opens?_of_shallow (by decide), opens?_of_shallow (by simp),
      opens?_of_shallow (by decide), by simp⟩
  have hinitial : Yields (opens? 2 "switch state \x7b") (closes 2)
      (Stmt.blockLines 1 (traced e (report a.label "initial state"))) [] := by
    refine yields_of_none fun l hl => ?_
    rcases exists_of_mem_traced hl with ⟨s, rfl⟩
    exact opens?_of_shallow (by simp)
  have hclock : Yields (opens? 2 "switch state \x7b") (closes 2) (indented 1 "for \x7b" ::
      Stmt.blockLines 2 [.define "now" (.call "clock.Load" []),
        .define "x" (.binary .sub (.name "now") (.name "epoch")), .assign "_" (.name "x"),
        .define "choice" (.int (-1))]) [] :=
    yields_of_none (by decide)
  have hswitch : Yields (opens? 2 "switch state \x7b") (closes 2)
      ((Stmt.switch "state" (stateCases p e aid a)).lines 2)
      [((), Stmt.caseLines 2 (stateCases p e aid a))] :=
    yields_braced (by decide) (inner_caseLines 2 _)
  -- behind the switch nothing else is switched on
  have hsleep : Yields (opens? 2 "switch state \x7b") (closes 2)
      ((Stmt.when (.binary .lt (.name "choice") (.int 0))
        [.call (.call "time.Sleep" [.name "pollInterval"]), .next]).lines 2) [] :=
    yields_of_none (by decide)
  have hmoved : Yields (opens? 2 "switch state \x7b") (closes 2)
      (Stmt.blockLines 2 (traced e (report a.label "moved to state"))) [] :=
    yields_traced (by decide)
  have hend : Yields (opens? 2 "switch state \x7b") (closes 2) [indented 1 "\x7d"] [] :=
    yields_of_none (by decide)
  have hall := (hstart.append hinitial).append
    ((((hclock.append hswitch).append hsleep).append hmoved).append hend)
  have hblocks : blocks 2 "switch state \x7b" (Stmt.blockLines 1 (workerBody p e aid a)) =
      [Stmt.caseLines 2 (stateCases p e aid a)] := by
    have hsections := congrArg (List.map Prod.snd) hall.sections_eq
    simpa [blocks, workerBody, Stmt.blockLines_eq, Stmt.lines] using hsections
  rw [block?, hblocks]

theorem isWord_endNames {a : Automaton} (h : a.Worded) :
    ∀ name ∈ endNames a, IsWord name.toList := by
  intro name hname
  rcases List.mem_map.1 hname with ⟨s, hs, rfl⟩
  exact h.states _ (List.mem_map_of_mem (List.mem_of_mem_filter hs))

/-- The state switch of a worker is read as it was written. -/
theorem read_worker {p : Program} (hp : p.Analyzed) {aid : AutomatonId} {a : Automaton}
    (ha : p.network[aid]? = some a) (hworded : a.Worded) (e : Emission) :
    (casesAt 2 (Stmt.caseLines 2 (stateCases p e aid a))).mapM StateCase.read? =
      some (switchOf p aid a) := by
  have hends := map_stateName_endStates hp ha
  rw [casesAt_caseLines, stateCases, List.map_append, switchOf, Fallible.mapM_eq_some_iff]
  apply List.rel_append
  · rw [List.map_map]
    apply Fallible.forall₂_map
    rintro ⟨s, sid⟩ hx
    exact read?_branch hp ha hworded
      (List.mk_mem_zipIdx_iff_getElem?.1 (List.mem_of_mem_filter hx))
  · have hlabels : a.endStates.map (fun s => Expr.string (a.stateName s)) =
        (endNames a).map .string := by
      rw [← hends, List.map_map]
      rfl
    have hempty : a.endStates.isEmpty = true ↔ endNames a = [] := by
      rw [← hends, List.map_eq_nil_iff, List.isEmpty_iff]
    unfold haltCases
    -- the list of end states and the outgoing lists agree on whether there are any
    by_cases hnone : endNames a = []
    · rw [if_pos hnone, if_pos (hempty.2 hnone)]
      exact .nil
    · rw [if_neg hnone, if_neg (mt hempty.1 hnone), hlabels]
      exact .cons (read?_ends hnone (isWord_endNames hworded) e a.label) .nil

/-! ## Programs -/

/-- What is read off some lines that the workers of a program are found in. -/
theorem switches?_join {p : Program} (hp : p.Analyzed) (hworded : p.Worded) {e : Emission}
    {ls : List String} (hls : ∀ l ∈ ls, '\n' ∉ l.toList)
    (hworkers : Yields workerLabel? (closes 0) ls (workersOf p e)) :
    switches? (String.join (ls.map (· ++ "\n"))) =
      some (p.network.zipIdx.map fun a => (a.1.label, switchOf p a.2 a.1)) := by
  have hempty : sections workerLabel? (closes 0) [""] = [] := by decide
  rw [switches?, rows_join hls, hworkers, hempty, List.append_nil, workersOf,
    Fallible.mapM_eq_some_iff]
  apply Fallible.forall₂_map
  rintro ⟨a, aid⟩ ha
  have ha := List.mk_mem_zipIdx_iff_getElem?.1 ha
  simp [block?_workerBody, read_worker hp ha (hworded.automata a (List.mem_of_getElem? ha)) e]

/-! ## Complete switches -/

/-- What the case of a state with outgoing transitions has to be: it has a condition and an arm for
each of them, in order, and the tiers hold every ordinal once. -/
structure StateCase.Serves (p : Program) (aid : AutomatonId) (a : Automaton) (s : State)
    (c : StateCase) : Prop where
  labels : c.labels = [s.name]
  enabled : List.Forall₂ (fun tid entry => ∃ t, a.transitions[tid]? = some t ∧
    entry = (enabledEntry p aid (tid, t)).text) s.outgoing c.enabled
  tiers : c.tiers ≠ []
  candidates : (c.tiers.flatMap Tier.ordinals).Perm (List.range s.outgoing.length)
  ordinals : c.arms.map Prod.fst = List.range s.outgoing.length
  targets : List.Forall₂ (fun tid arm => ∃ t, a.transitions[tid]? = some t ∧
    arm.2 = [a.stateName t.target]) s.outgoing c.arms
  returns : c.returns = false

/-- What a state switch has to be: it has a case for each state with outgoing transitions, in
order, and a last one for all end states, if there are any. Every state has one label, and only
states that have one are assigned. -/
structure Complete (p : Program) (aid : AutomatonId) (a : Automaton) (cases : List StateCase) :
    Prop where
  nodup : a.stateNames.Nodup
  labels : (cases.flatMap StateCase.labels).Perm a.stateNames
  split : ∃ own, List.Forall₂ (StateCase.Serves p aid a)
      (a.states.filter fun s => !s.outgoing.isEmpty) own ∧
    cases = own ++ if endNames a = [] then [] else [.ofEnds (endNames a)]
  assigned : ∀ c ∈ cases, ∀ arm ∈ c.arms, ∃ name ∈ cases.flatMap StateCase.labels, arm.2 = [name]

/-- Every state leads somewhere or is an end state. -/
theorem labels_switchOf (p : Program) (aid : AutomatonId) (a : Automaton) :
    ((switchOf p aid a).flatMap StateCase.labels).Perm a.stateNames := by
  have hown : ((a.states.zipIdx.filter fun s => !s.1.outgoing.isEmpty).map
      fun s => StateCase.ofState p aid a s.2 s.1).flatMap StateCase.labels =
        (a.states.filter fun s => !s.outgoing.isEmpty).map State.name := by
    rw [List.flatMap_map, ← List.zipIdx_map_fst 0 a.states, List.filter_map, List.map_map,
      List.zipIdx_map_fst, List.map_eq_flatMap]
    rfl
  have hends : (if endNames a = [] then [] else [StateCase.ofEnds (endNames a)]).flatMap
      StateCase.labels = endNames a := by
    split
    · next hnone => exact hnone.symm
    · simp [StateCase.ofEnds]
  rw [switchOf, List.flatMap_append, hown, hends, endNames, ← List.map_append]
  exact (List.perm_append_comm.trans
    (List.filter_append_perm (fun s => s.outgoing.isEmpty) a.states)).map State.name

/-- No outgoing transition is dropped. -/
theorem forall₂_leaving {a : Automaton} (h : a.WellFormed) {sid : StateId} {s : State}
    (hs : a.states[sid]? = some s) :
    List.Forall₂ (fun tid x => x.1 = tid ∧ a.transitions[tid]? = some x.2) s.outgoing
      (leaving a s) := by
  have hvalid := fun tid (hmem : tid ∈ s.outgoing) => h.exists_transition hs hmem
  unfold leaving
  generalize s.outgoing = tids at hvalid
  induction tids with
  | nil => exact .nil
  | cons tid tids ih =>
    rw [List.forall_mem_cons] at hvalid
    rcases hvalid with ⟨⟨t, ht⟩, hvalid⟩
    simpa [ht] using ih hvalid

section

variable {p : Program} (hp : p.Analyzed) {aid : AutomatonId} {a : Automaton}
  (ha : p.network[aid]? = some a)

include hp ha

theorem serves_ofState {sid : StateId} {s : State} (hs : a.states[sid]? = some s)
    (hout : s.outgoing ≠ []) : (StateCase.ofState p aid a sid s).Serves p aid a s := by
  rcases hp.arbiter ha hs hout with ⟨arbiter, harbiter, hclasses⟩
  have htiers : (StateCase.ofState p aid a sid s).tiers = arbiter.tiers := by
    simp [StateCase.ofState, arbiterOf, harbiter]
  have hperm : (arbiter.tiers.flatMap Tier.ordinals).Perm (List.range s.outgoing.length) := by
    rw [← hclasses]
    exact (Arbiter.layered_tiers arbiter.classes).perm
  have hleaving := forall₂_leaving (hp.wellFormed ha) hs
  have hzip := hleaving
  rw [← List.zipIdx_map_fst 0 (leaving a s), List.forall₂_map_right_iff] at hzip
  refine ⟨rfl, ?_, ?_, ?_, ?_, ?_, rfl⟩
  · refine List.forall₂_map_right_iff.2 (hleaving.imp ?_)
    rintro tid ⟨_, t⟩ ⟨rfl, ht⟩
    exact ⟨t, ht, rfl⟩
  · -- the ordinals of no tiers at all would be none
    rw [htiers]
    intro hnil
    rw [hnil, List.flatMap_nil, List.nil_perm, List.range_eq_nil, List.length_eq_zero_iff] at hperm
    exact hout hperm
  · rw [htiers]
    exact hperm
  · rw [StateCase.ofState, List.map_map, hleaving.length_eq, List.range_eq_range',
      ← List.zipIdx_map_snd 0 (leaving a s)]
    rfl
  · refine List.forall₂_map_right_iff.2 (hzip.imp ?_)
    rintro tid ⟨⟨_, t⟩, ordinal⟩ ⟨rfl, ht⟩
    exact ⟨t, ht, rfl⟩

theorem stateName_target_mem {tid : TransitionId} {t : Transition}
    (ht : a.transitions[tid]? = some t) : a.stateName t.target ∈ a.stateNames := by
  have htarget := ((hp.wellFormed ha).endpoints t (List.mem_of_getElem? ht)).2
  rw [← Automaton.length_stateNames] at htarget
  rw [Automaton.stateName, Automaton.stateName?_eq, List.getElem?_eq_getElem htarget]
  exact List.getElem_mem htarget

theorem complete_switchOf : Complete p aid a (switchOf p aid a) where
  nodup := (hp.wellFormed ha).names
  labels := labels_switchOf p aid a
  split := by
    refine ⟨_, ?_, rfl⟩
    have hstates : (a.states.filter fun s => !s.outgoing.isEmpty) =
        (a.states.zipIdx.filter fun s => !s.1.outgoing.isEmpty).map Prod.fst := by
      rw [← List.zipIdx_map_fst 0 a.states, List.filter_map, List.zipIdx_map_fst]
      rfl
    rw [hstates]
    apply Fallible.forall₂_map
    rintro ⟨s, sid⟩ hx
    rcases List.mem_filter.1 hx with ⟨hmem, hout⟩
    exact serves_ofState hp ha (List.mk_mem_zipIdx_iff_getElem?.1 hmem) (by simpa using hout)
  assigned := by
    intro c hc arm harm
    rcases List.mem_append.1 hc with hown | hends
    · rcases List.mem_map.1 hown with ⟨⟨s, sid⟩, hx, rfl⟩
      rcases List.mem_map.1 harm with ⟨⟨⟨tid, t⟩, ordinal⟩, hleaving, rfl⟩
      have ht := getElem?_of_mem_leaving (List.fst_mem_of_mem_zipIdx hleaving)
      exact ⟨_, (labels_switchOf p aid a).mem_iff.2 (stateName_target_mem hp ha ht), rfl⟩
    · -- nothing is assigned in an end state
      split at hends
      · simp at hends
      · rw [List.mem_singleton.1 hends] at harm
        simp [StateCase.ofEnds] at harm

end

/-- State switches are complete. Behind the name of its package, a program that is generated for an
analysed network has a worker for each automaton, in order, and the state switch of every worker is
complete: each state has one label, states with outgoing transitions have their own cases, in order,
and all end states share a last case that returns. A state with `k` outgoing transitions has their
`k` conditions in order, at least one tier, every candidate below `k` once, and an arm for each
ordinal below `k` in order, which assigns a state with a label of its own. -/
theorem switches_complete {text : String} {c : Config} {p : Program} (h : analyze text c = .ok p)
    {e : Emission} {go : String} (hgo : emit p e = .ok go) :
    ∃ body switches,
      go = "// Code generated by ctac. DO NOT EDIT.\n\npackage " ++ e.package ++ "\n" ++ body ∧
      switches? body = some switches ∧
      ('\n' ∉ e.package.toList → switches? go = some switches) ∧
      List.Forall₂ (fun a w => w.1 = a.1.label ∧ Complete p a.2 a.1 w.2) p.network.zipIdx
        switches := by
  have hp := analyzed_of_analyze h
  have hworded := worded_of_analyze h
  have hbody := yields_bodyLines hworded e
  have hlines := not_mem_bodyLines hp hworded e
  obtain ⟨-, rfl⟩ := emit_eq_ok_iff.1 hgo
  refine ⟨_, _, ?_, switches?_join hp hworded hlines hbody, ?_, ?_⟩
  · apply String.toList_inj.1
    simp [fileText, fileLines_eq, String.join_cons]
  · intro hpackage
    have hhead : Yields workerLabel? (closes 0)
        ["// Code generated by ctac. DO NOT EDIT.", "", "package " ++ e.package] [] := by
      apply yields_of_none
      simp [workerLabel?_eq_none]
    rw [fileText, fileLines_eq]
    refine switches?_join hp hworded ?_ (hhead.append hbody)
    simp only [List.forall_mem_append, List.forall_mem_cons]
    exact ⟨⟨by decide, by decide, by simpa using hpackage, by simp⟩, hlines⟩
  · rw [List.forall₂_map_right_iff, List.forall₂_same]
    rintro ⟨a, aid⟩ ha
    exact ⟨rfl, complete_switchOf hp (List.mk_mem_zipIdx_iff_getElem?.1 ha)⟩

/-- The first automaton ends in its second state, and the second one never ends. -/
theorem switches_complete_two_messages : ∃ p go switches,
    analyze "Cta A=Init s;s B!m(x<5)s;s B!n()t;Cta B=Init s;s A?m()s;s A?n()s;"
      ⟨.default, [⟨"A", "s", [⟨0, .default, none⟩, ⟨1, .default, none⟩]⟩,
        ⟨"B", "s", [⟨0, .exclusive, none⟩, ⟨1, .ranked, some 3⟩]⟩]⟩ = .ok p ∧
    emit p .default = .ok go ∧ switches? go = some switches ∧
    List.Forall₂ (fun a w => w.1 = a.1.label ∧ Complete p a.2 a.1 w.2) p.network.zipIdx switches ∧
    p.network.map Automaton.stateNames = [["s", "t"], ["s"]] ∧
    p.network.map endNames = [["t"], []] := by
  rcases Fallible.exists_ok_of_any
    (x := analyze "Cta A=Init s;s B!m(x<5)s;s B!n()t;Cta B=Init s;s A?m()s;s A?n()s;"
      ⟨.default, [⟨"A", "s", [⟨0, .default, none⟩, ⟨1, .default, none⟩]⟩,
        ⟨"B", "s", [⟨0, .exclusive, none⟩, ⟨1, .ranked, some 3⟩]⟩]⟩)
    (P := fun p => collisions p = [] ∧
      p.network.map Automaton.stateNames = [["s", "t"], ["s"]] ∧
      p.network.map endNames = [["t"], []])
    (by decide +kernel) with ⟨p, hp, hnames, hstates, hends⟩
  have hgo : emit p .default = .ok _ := emit_eq_ok_iff.2 ⟨hnames, rfl⟩
  rcases switches_complete hp hgo with ⟨_, switches, -, -, hread, hcomplete⟩
  exact ⟨p, _, switches, hp, hgo, hread (by decide), hcomplete, hstates, hends⟩

end Generation
end TimedAutomata
