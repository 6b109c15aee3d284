import TimedAutomata.Proofs.Compilation.Analysis
import TimedAutomata.Proofs.Generation.Silence
import TimedAutomata.Proofs.Notation.Acceptance
import TimedAutomata.Proofs.Topology.Channels

/-!
# Channels recovered from a program

The routes recovered from a generated program are those of its channels, in order. A program
holds text that others chose: labels, payloads, states, the name of the package, and the
declarations of the automata, which stand in comments. None but the name of the package can be
mistaken for a note: words hold no slash, and declarations hold neither a slash nor a hyphen.

* `Automaton.Worded`, `Program.Worded`: the names are words and the sources are in the alphabet
* `worded_of_analyze`: they are in every analysed program
* `quiet_worker`, `quiet_mainFunc`, `quiet_helpers`: no line of a function is a note
* `slashed_declarations`, `slashed_fileLines`: the lines with a slash are comments and imports
* `recover_fileText`: whole programs
* `recover_of_emit`: the same, from the text of the automata
-/

namespace TimedAutomata

open Grammar

/-! ## Names and sources -/

/-- The names in an automaton are words, and its source is written in the notation's alphabet. -/
structure Automaton.Worded (a : Automaton) : Prop where
  label : IsWord a.label.toList
  states : ∀ name ∈ a.stateNames, IsWord name.toList
  partner : ∀ t ∈ a.transitions, IsWord t.comm.partner.toList
  payload : ∀ t ∈ a.transitions, IsWord t.comm.payload.toList
  source : ∀ c ∈ a.source.toList, isClauseChar c = true ∨ c = ';'

theorem Grammar.Word.isWord_text (w : Word) : IsWord w.text.toList := by
  simpa [Word.text] using w.word

theorem Spelling.Declaration.Denotes.worded {d : Spelling.Declaration} {a : Automaton}
    (h : d.Denotes a) (hd : d.Guarded) : a.Worded where
  label := h.label ▸ d.header.label.isWord_text
  states name hname := by
    rw [h.states, List.mem_eraseDups, List.mem_cons, List.mem_flatMap] at hname
    rcases hname with rfl | ⟨e, -, he⟩
    · exact d.header.initial.isWord_text
    · rcases List.mem_pair.1 he with rfl | rfl
      · exact e.edge.start.isWord_text
      · exact e.edge.target.isWord_text
  partner t ht := by
    rcases Fallible.exists_of_mem_right h.transitions ht with ⟨e, -, he⟩
    rw [he.comm]
    exact e.edge.partner.isWord_text
  payload t ht := by
    rcases Fallible.exists_of_mem_right h.transitions ht with ⟨e, -, he⟩
    rw [he.comm]
    exact e.edge.payload.isWord_text
  source c hc := by
    rw [h.source, String.toList_ofList] at hc
    exact Declaration.isClauseChar_or_of_mem hd (Text.mem_of_mem_trim hc)

theorem Automaton.Worded.not_mem_source {a : Automaton} (h : a.Worded) {c : Char}
    (hc : isClauseChar c = false) (hsemi : c ≠ ';') : c ∉ a.source.toList := by
  intro hmem
  rcases h.source c hmem with hclause | heq
  · simp [hclause] at hc
  · exact hsemi heq

theorem Communication.written_route {c : Communication} {label : String}
    (hlabel : IsWord label.toList) (hpartner : IsWord c.partner.toList)
    (hpayload : IsWord c.payload.toList) : (c.route label).Written := by
  unfold Communication.route
  cases c.direction with
  | send => exact ⟨hlabel, hpartner, hpayload⟩
  | receive => exact ⟨hpartner, hlabel, hpayload⟩

structure Program.Worded (p : Program) : Prop where
  automata : ∀ a ∈ p.network, a.Worded
  routes : ∀ r ∈ p.topology.routes, r.Written

theorem Program.Worded.payload {p : Program} (hp : p.Worded) {payload : String}
    (h : payload ∈ p.topology.payloads) : IsWord payload.toList := by
  rw [Topology.payloads, List.mem_eraseDups] at h
  rcases List.mem_map.1 h with ⟨r, hr, rfl⟩
  exact (hp.routes r hr).payload

/-- The names in an analysed program are words. -/
theorem worded_of_analyze {text : String} {c : Config} {p : Program}
    (h : analyze text c = .ok p) : p.Worded := by
  rcases analyze_eq_ok_iff.1 h with ⟨hnet, htopology, -⟩
  have hautomata : ∀ a ∈ p.network, a.Worded := by
    intro a ha
    rcases Spelling.exists_declaration_of_read hnet ha with ⟨d, hd, hda⟩
    exact hda.worded hd
  refine ⟨hautomata, ?_⟩
  intro r hr
  rcases Network.mem_routes.1 ((Topology.mem_routes_of_resolve htopology).1 hr) with
    ⟨a, ha, t, ht, rfl⟩
  have hworded := hautomata a ha
  exact Communication.written_route hworded.label (hworded.partner t ht) (hworded.payload t ht)

namespace Generation

theorem bare_stateName {a : Automaton} (ha : a.Worded) (id : StateId) :
    Bare (a.stateName id) := by
  unfold Automaton.stateName
  rw [Automaton.stateName?_eq]
  cases h : a.stateNames[id]? with
  | none => decide
  | some name => exact bare_of_isWord (ha.states name (List.mem_of_getElem? h))

theorem bare_routeName {r : Route} (hr : r.Written) : Bare r.name := by
  have hsender := bare_of_isWord hr.sender
  have hreceiver := bare_of_isWord hr.receiver
  have hpayload := bare_of_isWord hr.payload
  simp +decide [Route.name, hsender, hreceiver, hpayload]

theorem bare_payloadType {payload : String} (h : IsWord payload.toList) :
    Bare (payloadType payload) :=
  bare_append.2 ⟨by decide, bare_of_isWord h⟩

theorem bare_workerName {label : String} (h : IsWord label.toList) :
    Bare (workerName label) :=
  bare_append.2 ⟨by decide, bare_of_isWord h⟩

theorem bare_channelName {p : Program} (hp : p.Worded) {aid : AutomatonId}
    {tid : TransitionId} {name : String} (h : channelName? p aid tid = some name) :
    Bare name := by
  simp only [channelName?, Option.bind_eq_bind, Option.bind_eq_some_iff, Option.pure_def,
    Option.some.injEq] at h
  rcases h with ⟨c, -, ch, hch, rfl⟩
  exact bare_routeName (hp.routes _ (List.mem_map_of_mem (List.mem_of_getElem? hch)))

/-! ## Guards and choices -/

@[simp] theorem bare_parenthesized (wrap : Bool) (e : Expr) :
    (parenthesized wrap e).Bare ↔ e.Bare := by
  cases wrap <;> simp [parenthesized, Expr.Bare]

theorem bare_ofTerm (t : Term) : (Expr.ofTerm t).Bare := by
  cases t with
  | clock => exact (by decide : Bare "x")
  | number n => exact trivial

theorem bare_ofGuardAt (least : Nat) (g : Guard.Expr) :
    (Expr.ofGuardAt least g).Bare := by
  induction g generalizing least with
  | const b =>
    cases b with
    | false =>
      rw [Expr.ofGuardAt, bare_parenthesized]
      exact (by decide : Bare "false")
    | true =>
      rw [Expr.ofGuardAt, bare_parenthesized]
      exact (by decide : Bare "true")
  | compare r left right =>
    rw [Expr.ofGuardAt, bare_parenthesized]
    exact ⟨bare_ofTerm left, bare_ofTerm right⟩
  | not inner ih =>
    cases inner with
    | const b =>
      rw [Expr.ofGuardAt, bare_parenthesized]
      exact ih 0
    | compare | not | and | or =>
      rw [Expr.ofGuardAt, bare_parenthesized]
      · exact ih 0
      · simp
  | and left right ihl ihr =>
    rw [Expr.ofGuardAt, bare_parenthesized]
    exact ⟨ihl 2, ihr 3⟩
  | or left right ihl ihr =>
    rw [Expr.ofGuardAt, bare_parenthesized]
    exact ⟨ihl 1, ihr 2⟩

theorem bare_enabledEntry {p : Program} (hp : p.Worded) (aid : AutomatonId)
    (x : TransitionId × Transition) : (enabledEntry p aid x).Bare := by
  refine ⟨bare_ofGuardAt 0 _, ?_⟩
  cases hname : channelName? p aid x.1 with
  | none => exact (by decide : Bare "false")
  | some name =>
    have hname := bare_channelName hp hname
    cases x.2.comm.direction <;> simp +decide [ready, Expr.Bare, hname]

theorem quiet_pick (t : Tier) : (pick t).Quiet := by
  unfold pick
  cases t.tieBreak <;> simp +decide [Stmt.Quiet, Expr.Bare]

/-! ## Workers -/

section Worker

variable {p : Program} (hp : p.Worded) (aid : AutomatonId) {a : Automaton} (ha : a.Worded)

include ha in
theorem quiet_communicate {t : Transition} (ht : t ∈ a.transitions) {channel : String}
    (hchannel : Bare channel) : ∀ s ∈ communicate t.comm channel, s.Quiet := by
  have harrow : isWordChar '>' = false := by decide
  have hpartner := (ha.partner t ht).not_mem harrow
  have hpayload := (ha.payload t ht).not_mem harrow
  have htype := bare_payloadType (ha.payload t ht)
  unfold communicate
  cases t.comm.direction with
  | send => simp [Stmt.Quiet, Expr.Bare, hpartner, hpayload, htype, hchannel]
  | receive => simp [Stmt.Quiet, Expr.Bare, hpartner, hpayload, hchannel]

theorem getElem?_of_mem_leaving {s : State} {x : TransitionId × Transition}
    (hx : x ∈ leaving a s) : a.transitions[x.1]? = some x.2 := by
  rcases List.mem_filterMap.1 hx with ⟨tid, -, ht⟩
  rcases Option.map_eq_some_iff.1 ht with ⟨t, htid, rfl⟩
  exact htid

include hp ha

theorem quiet_arm {x : (TransitionId × Transition) × Nat} (hx : x.1.2 ∈ a.transitions) :
    (arm p aid a x).Quiet := by
  rcases x with ⟨⟨tid, t⟩, ordinal⟩
  have htarget := bare_stateName ha t.target
  refine ⟨by simp [Expr.Bare], ?_⟩
  intro s hs
  rcases List.mem_append.1 hs with hs | hs
  · rcases List.mem_append.1 hs with hs | hs
    · cases hname : channelName? p aid tid with
      | none => simp [hname] at hs
      | some name =>
        rw [hname] at hs
        exact quiet_communicate ha hx (bare_channelName hp hname) s hs
    · obtain rfl := List.mem_singleton.1 hs
      exact ⟨by decide, htarget⟩
  · split at hs
    · obtain rfl := List.mem_singleton.1 hs
      exact (by decide : Bare "epoch" ∧ Bare "now")
    · simp at hs

theorem quiet_branch (sid : StateId) {s : State} (hs : s ∈ a.states) :
    (branch p aid a sid s).Quiet := by
  have hname := bare_of_isWord (ha.states s.name (List.mem_map_of_mem hs))
  have harm : ∀ x ∈ (leaving a s).zipIdx, (arm p aid a x).Quiet := fun x hx =>
    quiet_arm hp aid ha
      (List.mem_of_getElem? (getElem?_of_mem_leaving (List.fst_mem_of_mem_zipIdx hx)))
  refine ⟨by simpa [Expr.Bare] using hname, ?_⟩
  simp only [List.forall_mem_append, List.forall_mem_map, List.forall_mem_singleton]
  refine ⟨⟨⟨by decide, ?_⟩, fun t _ => quiet_pick t⟩, by decide, ?_⟩
  · rw [List.forall_mem_map]
    exact fun x _ => bare_enabledEntry hp aid x
  · rw [Stmt.casesQuiet_iff, List.forall_mem_map]
    exact harm

omit hp

theorem quiet_report {text : String} (htext : Bare text) : (report a.label text).Quiet := by
  have hlabel := bare_of_isWord ha.label
  simp +decide [report, Stmt.Quiet, Expr.Bare, hlabel, htext]

omit ha in
theorem quiet_traced (e : Emission) {s : Stmt} (hs : s.Quiet) : ∀ x ∈ traced e s, x.Quiet := by
  unfold traced
  split <;> simp [hs]

theorem quiet_haltCases (e : Emission) : ∀ c ∈ haltCases e a, c.Quiet := by
  have hreport : (report a.label "halted in state").Quiet := quiet_report ha (by decide)
  unfold haltCases
  split
  · simp
  · rw [List.forall_mem_singleton]
    refine ⟨?_, ?_⟩
    · rw [List.forall_mem_map]
      exact fun s _ => bare_stateName ha s
    · rw [List.forall_mem_append, List.forall_mem_singleton]
      exact ⟨quiet_traced e hreport, by simp [Stmt.Quiet]⟩

include hp

theorem quiet_stateCases (e : Emission) : ∀ c ∈ stateCases p e aid a, c.Quiet := by
  unfold stateCases
  rw [List.forall_mem_append, List.forall_mem_map]
  refine ⟨?_, quiet_haltCases ha e⟩
  intro s hs
  exact quiet_branch hp aid ha s.2 (List.fst_mem_of_mem_zipIdx (List.mem_filter.1 hs).1)

theorem quiet_workerBody (e : Emission) : ∀ s ∈ workerBody p e aid a, s.Quiet := by
  have hinitial := bare_stateName ha a.initial
  have hcases := quiet_stateCases hp aid ha e
  have hstarted : ∀ s ∈ traced e (report a.label "initial state"), s.Quiet :=
    quiet_traced e (quiet_report ha (by decide))
  have hmoved : ∀ s ∈ traced e (report a.label "moved to state"), s.Quiet :=
    quiet_traced e (quiet_report ha (by decide))
  simpa +decide [workerBody, Stmt.Quiet, Expr.Bare, or_imp, forall_and, hinitial] using
    ⟨hstarted, hcases, hmoved⟩

theorem quiet_worker (e : Emission) : (worker p e aid a).Quiet where
  doc line hline := by
    have harrow : '>' ∉ a.label.toList := ha.label.not_mem (by decide)
    have hsource : '-' ∉ a.source.toList := ha.not_mem_source (by decide) (by decide)
    rcases List.mem_append.1 hline with hline | hline
    · rcases List.mem_pair.1 hline with rfl | rfl
      · exact .inl (by simp [workerName, harrow])
      · exact .inl (by decide)
    · -- guards are written with arrows, but no declaration holds a hyphen
      rcases List.mem_map.1 hline with ⟨l, hl, rfl⟩
      refine .inr ?_
      intro hmem
      have hmem : '-' ∈ Text.trim l.toList := by simpa [Text.trimmed] using hmem
      exact hsource (Text.mem_of_mem_linesOf hl (Text.mem_of_mem_trim hmem))
  name := bare_workerName ha.label
  params := (by decide : Bare "rng *rand.Rand, wg *sync.WaitGroup")
  result := (by decide : Bare "")
  body := quiet_workerBody hp aid ha e

end Worker

/-! ## Other functions -/

theorem quiet_helpers : ∀ f ∈ helpers, f.Quiet := by
  have hfirst : pickFirst.Quiet := by
    refine ⟨by decide, by decide, by decide, by decide, ?_⟩
    simp +decide [pickFirst, isEnabled, Stmt.Quiet, Expr.Bare]
  have hrandom : pickRandom.Quiet := by
    refine ⟨by decide, by decide, by decide, by decide, ?_⟩
    simp +decide [pickRandom, isEnabled, Stmt.Quiet, Expr.Bare]
  simp [helpers, hfirst, hrandom]

theorem quiet_mainFunc {p : Program} (hp : p.Worded) (e : Emission) : (mainFunc p e).Quiet where
  doc := by simp [mainFunc]
  name := (by decide : Bare "main")
  params := (by decide : Bare "")
  result := (by decide : Bare "")
  body := by
    have hworkers : ∀ a ∈ p.network.zipIdx, Bare (workerName a.1.label) := fun a ha =>
      bare_workerName (hp.automata _ (List.fst_mem_of_mem_zipIdx ha)).label
    simp only [mainFunc, List.forall_mem_append, List.forall_mem_map]
    refine ⟨⟨?_, ?_⟩, ?_⟩
    · cases e.seed <;> simp +decide [Stmt.Quiet, Expr.Bare]
    · intro a ha
      have hname := hworkers a ha
      simp +decide [Stmt.Quiet, Expr.Bare, hname]
    · simp +decide [Stmt.Quiet, Expr.Bare, Case.Quiet]

/-! ## Declarations -/

/-- The slashed lines of a group are those of its members. -/
theorem slashed_group {keyword : String} (hkeyword : Bare keyword) (entries : List Entry) :
    slashed (Decl.group keyword entries) = slashed (entries.flatMap Entry.lines) := by
  have hopen : Bare (keyword ++ " (") := bare_append.2 ⟨hkeyword, by decide⟩
  have hclose : Bare ")" := by decide
  simp [Decl.group, slashed_cons hopen, slashed_cons hclose]

theorem slashed_consts (e : Emission) : slashed (Decl.consts (constants e)).lines = [] := by
  rw [Decl.lines, slashed_group (by decide), constants]
  cases e.seed <;> simp +decide [Entry.lines, slashed_indented]

theorem slashed_empties {p : Program} (hp : p.Worded) :
    slashed (Decl.empties (p.topology.payloads.map payloadType)).lines = [] := by
  apply slashed_eq_nil
  simp only [Decl.lines, List.forall_mem_map]
  intro payload hpayload
  have htype := bare_payloadType (hp.payload hpayload)
  simp +decide [htype]

theorem slashed_channelEntry {r : Route} (hr : r.Written) :
    slashed (channelEntry r).lines = [indented 1 (channelNote r)] := by
  have hname := bare_routeName hr
  have hmade : (Expr.makeChan (payloadType r.payload) (some "channelDepth")).Bare :=
    ⟨bare_payloadType hr.payload, (by decide : Bare "channelDepth")⟩
  have hline : Bare (r.name ++ (channelEntry r).meaning) := by
    simp +decide [channelEntry, hname, Expr.bare_text hmade]
  have hnote : slashed [indented 1 (channelNote r)] = [indented 1 (channelNote r)] := by
    apply slashed_eq_self
    simp [Bare, indented, channelNote]
  calc slashed (channelEntry r).lines
      = slashed [indented 1 (channelNote r)] ++
          slashed [indented 1 (r.name ++ (channelEntry r).meaning)] := slashed_append _ _
    _ = [indented 1 (channelNote r)] := by
        rw [hnote, slashed_indented 1 hline, slashed_nil, List.append_nil]

/-- The slashed lines of the channels are the notes above them. -/
theorem slashed_vars {rs : List Route} (hrs : ∀ r ∈ rs, r.Written) :
    slashed (Decl.vars (rs.map channelEntry)).lines =
      rs.map fun r => indented 1 (channelNote r) := by
  rw [Decl.lines, slashed_group (by decide)]
  induction rs with
  | nil => rfl
  | cons r rs ih =>
    simp only [List.forall_mem_cons] at hrs
    rw [List.map_cons, List.flatMap_cons, slashed_append, slashed_channelEntry hrs.1, ih hrs.2]
    rfl

/-- The slashed lines of all declarations are comments. -/
theorem slashed_declarations {p : Program} (hp : p.Worded) (e : Emission) :
    (declarations p e).flatMap (fun d => slashed d.lines) =
      ["// global time in ticks, advanced by main"] ++
        p.topology.routes.map (fun r => indented 1 (channelNote r)) ++
        helpers.flatMap Func.comments ++
        p.network.zipIdx.flatMap (fun a => (worker p e a.2 a.1).comments) ++
        (mainFunc p e).comments := by
  have hclock : slashed (Decl.var "// global time in ticks, advanced by main" "clock"
      "atomic.Int64").lines = ["// global time in ticks, advanced by main"] := by decide
  have hhelpers : (helpers.map Decl.func).flatMap (fun d => slashed d.lines) =
      helpers.flatMap Func.comments := by
    rw [List.flatMap_map]
    exact List.flatMap_congr fun f hf => Func.slashed_lines (quiet_helpers f hf)
  have hworkers : (p.network.zipIdx.map fun a => Decl.func (worker p e a.2 a.1)).flatMap
      (fun d => slashed d.lines) =
        p.network.zipIdx.flatMap (fun a => (worker p e a.2 a.1).comments) := by
    rw [List.flatMap_map]
    refine List.flatMap_congr fun a ha => ?_
    have hworded := hp.automata a.1 (List.fst_mem_of_mem_zipIdx ha)
    exact Func.slashed_lines (quiet_worker hp a.2 hworded e)
  have hmain : slashed (Decl.func (mainFunc p e)).lines = (mainFunc p e).comments :=
    Func.slashed_lines (quiet_mainFunc hp e)
  simp only [declarations, List.flatMap_append, List.flatMap_cons, List.flatMap_nil,
    slashed_consts, hclock, slashed_empties hp, slashed_vars hp.routes, hhelpers, hworkers, hmain,
    List.nil_append, List.append_nil, List.append_assoc]

/-- Of all declarations, those of the channels are the only ones with notes. -/
theorem recover_declarations {p : Program} (hp : p.Worded) (e : Emission) :
    ((declarations p e).flatMap fun d => slashed d.lines).flatMap recover = p.topology.routes := by
  have hclock : recover "// global time in ticks, advanced by main" = [] :=
    recover_of_not_mem_arrow (by decide)
  have hroutes : (p.topology.routes.map fun r => indented 1 (channelNote r)).flatMap recover =
      p.topology.routes := by
    calc (p.topology.routes.map fun r => indented 1 (channelNote r)).flatMap recover
        = p.topology.routes.flatMap (fun r => recover (indented 1 (channelNote r))) :=
          List.flatMap_map _ _ _
      _ = p.topology.routes.flatMap (fun r => [r]) :=
          List.flatMap_congr fun r hr => recover_channelNote (hp.routes r hr)
      _ = p.topology.routes := List.flatMap_singleton' _
  have hhelpers : (helpers.flatMap Func.comments).flatMap recover = [] := by
    rw [List.flatMap_assoc, List.flatMap_eq_nil_iff]
    exact fun f hf => Func.recover_comments (quiet_helpers f hf)
  have hworkers : (p.network.zipIdx.flatMap fun a => (worker p e a.2 a.1).comments).flatMap
      recover = [] := by
    rw [List.flatMap_assoc, List.flatMap_eq_nil_iff]
    intro a ha
    have hworded := hp.automata a.1 (List.fst_mem_of_mem_zipIdx ha)
    exact Func.recover_comments (quiet_worker hp a.2 hworded e)
  have hmain := Func.recover_comments (quiet_mainFunc hp e)
  rw [slashed_declarations hp e]
  simp only [List.flatMap_append, List.flatMap_cons, List.flatMap_nil, hclock, hroutes, hhelpers,
    hworkers, hmain, List.nil_append, List.append_nil]

/-! ## Files -/

theorem slashed_sourceLines {p : Program} (hp : p.Worded) :
    slashed (sourceLines p) = ["/* Automata:", "*/"] := by
  have hends : slashed ["/* Automata:"] = ["/* Automata:"] ∧ slashed ["*/"] = ["*/"] := by decide
  have hlines : slashed (p.network.flatMap fun a =>
      (Text.linesOf a.source).map ("\t" ++ ·)) = [] := by
    apply slashed_eq_nil
    intro line hline
    rcases List.mem_flatMap.1 hline with ⟨a, ha, hline⟩
    rcases List.mem_map.1 hline with ⟨l, hl, rfl⟩
    have hsource : '/' ∉ a.source.toList :=
      (hp.automata a ha).not_mem_source (by decide) (by decide)
    have hl : Bare l :=
      ⟨fun hmem => hsource (Text.mem_of_mem_linesOf hl hmem), Text.not_mem_of_mem_linesOf hl⟩
    exact bare_append.2 ⟨by decide, hl⟩
  rw [sourceLines, slashed_append, slashed_append, hends.1, hlines, hends.2]
  rfl

/-- Empty lines between blocks make no difference. -/
theorem slashed_intercalate (blocks : List (List String)) :
    slashed ([""].intercalate blocks) = blocks.flatMap slashed := by
  have hempty : slashed [""] = [] := by decide
  induction blocks with
  | nil => rfl
  | cons b blocks ih =>
    cases blocks with
    | nil => simp
    | cons b' blocks =>
      rw [List.intercalate_cons_cons, slashed_append, slashed_append, ih, hempty]
      simp

/-- The lines of a program with a slash: comments, two imports, and perhaps the name of the
package. -/
theorem slashed_fileLines {p : Program} (hp : p.Worded) (e : Emission) :
    slashed (fileLines p e) =
      ["// Code generated by ctac. DO NOT EDIT."] ++ slashed ["package " ++ e.package] ++
        ["\t\"math/rand\"", "\t\"sync/atomic\"", "/* Automata:", "*/"] ++
        (declarations p e).flatMap fun d => slashed d.lines := by
  have hhead : slashed ["// Code generated by ctac. DO NOT EDIT."] =
      ["// Code generated by ctac. DO NOT EDIT."] := by decide
  have himports : slashed importLines = ["\t\"math/rand\"", "\t\"sync/atomic\""] := by decide
  rw [fileLines, slashed_intercalate]
  simp only [List.flatMap_cons, List.flatMap_map, hhead, himports, slashed_sourceLines hp,
    List.append_assoc, List.cons_append, List.nil_append]

/-- The routes recovered from a program are those in the line of the package, if it is more than
one line, and those of the channels. -/
theorem recover_fileText {p : Program} (hp : p.Worded) (e : Emission) :
    recover (fileText p e) = recover ("package " ++ e.package) ++ p.topology.routes := by
  have hhead : recover "// Code generated by ctac. DO NOT EDIT." = [] :=
    recover_of_not_mem_arrow (by decide)
  have hpackage : (slashed ["package " ++ e.package]).flatMap recover =
      recover ("package " ++ e.package) := by
    rw [flatMap_slashed fun _ => recover_of_bare, List.flatMap_singleton]
  have hothers : ["\t\"math/rand\"", "\t\"sync/atomic\"", "/* Automata:", "*/"].flatMap recover =
      [] := flatMap_recover_eq_nil (by decide)
  calc recover (fileText p e)
      = (slashed (fileLines p e)).flatMap recover := by
        rw [fileText, recover_join, flatMap_slashed fun _ => recover_of_bare]
    _ = recover ("package " ++ e.package) ++ p.topology.routes := by
        rw [slashed_fileLines hp e]
        simp only [List.flatMap_append, hpackage, hothers, recover_declarations hp e,
          List.flatMap_singleton, hhead, List.nil_append, List.append_nil]

theorem emit_eq_ok_iff {p : Program} {e : Emission} {go : String} :
    emit p e = .ok go ↔ collisions p = [] ∧ fileText p e = go := by
  unfold emit
  cases collisions p <;> simp

/-- From every generated program, whatever it was configured to be, the routes of its channels are
recovered, in order. What comes before them is in the name of the package, and there is nothing
before them if that name has no line feed. -/
theorem recover_of_emit {text : String} {c : Config} {p : Program} {e : Emission} {go : String}
    (h : analyze text c = .ok p) (hgo : emit p e = .ok go) :
    recover go = recover ("package " ++ e.package) ++ p.topology.routes ∧
      ('\n' ∉ e.package.toList →
        recover ("package " ++ e.package) = [] ∧ recover go = p.topology.routes) := by
  rcases emit_eq_ok_iff.1 hgo with ⟨-, rfl⟩
  have hfile := recover_fileText (worded_of_analyze h) e
  refine ⟨hfile, ?_⟩
  intro hpackage
  have hnone := recover_package hpackage
  exact ⟨hnone, by rw [hfile, hnone, List.nil_append]⟩

/-- Two channels, in a package with a note in its name and in one without. -/
theorem recover_of_emit_note_in_package :
    ∃ p go go', analyze "Cta A=Init s;s B!m(x<5)t;t B?k()s;Cta B=Init s;s A?m()t;t A!k()s;"
        .default = .ok p ∧
      emit p { Emission.default with package := "main\n// X -> Y : z" } = .ok go ∧
      emit p .default = .ok go' ∧
      recover go = [⟨"X", "Y", "z"⟩, ⟨"A", "B", "m"⟩, ⟨"B", "A", "k"⟩] ∧
      recover go' = [⟨"A", "B", "m"⟩, ⟨"B", "A", "k"⟩] := by
  rcases Fallible.exists_ok_of_any
    (x := analyze "Cta A=Init s;s B!m(x<5)t;t B?k()s;Cta B=Init s;s A?m()t;t A!k()s;"
      .default)
    (P := fun p => p.topology.routes = [⟨"A", "B", "m"⟩, ⟨"B", "A", "k"⟩] ∧ collisions p = [])
    (by decide +kernel) with ⟨p, hp, hroutes, hnames⟩
  have hnote : recover ("package " ++ "main\n// X -> Y : z") = [⟨"X", "Y", "z"⟩] := by
    decide +kernel
  have hgo : emit p { Emission.default with package := "main\n// X -> Y : z" } = .ok _ :=
    emit_eq_ok_iff.2 ⟨hnames, rfl⟩
  have hgo' : emit p .default = .ok _ := emit_eq_ok_iff.2 ⟨hnames, rfl⟩
  refine ⟨p, _, _, hp, hgo, hgo', ?_, ?_⟩
  · rw [(recover_of_emit hp hgo).1, hnote, hroutes, List.singleton_append]
  · rw [((recover_of_emit hp hgo').2 (by decide)).2, hroutes]

end Generation
end TimedAutomata
