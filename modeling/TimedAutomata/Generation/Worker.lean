import TimedAutomata.Generation.Names
import TimedAutomata.Generation.Tree
import TimedAutomata.Text.Blank
import TimedAutomata.Text.Lines

/-!
# Workers

The function that runs one automaton. It loops: it samples the clock, finds out which transitions
of the current state are enabled, lets the tiers of the arbiter choose one, and performs it.

- `Expr.ofGuard`: guards as Go conditions, with the parentheses of their canonical text
- `ready`, `enabledEntry`: when a transition can be taken
- `pick`: the choice of one tier
- `arm`: performing a transition
- `branch`: the case of one state
- `worker`: the whole function
- `pickFirst`, `pickRandom`: the functions that workers choose with
-/

namespace TimedAutomata
namespace Generation

/-! ## Guards -/

def operatorOf : Relation → Operator
  | .lt => .lt
  | .le => .le
  | .gt => .gt
  | .ge => .ge
  | .eq => .eq
  | .ne => .ne

def Expr.ofTerm : Term → Expr
  | .clock => .name "x"
  | .number n => .int n

def parenthesized (wrap : Bool) (e : Expr) : Expr :=
  if wrap then .paren e else e

/-- A guard where only guards of precedence at least `least` stand without parentheses. -/
def Expr.ofGuardAt (least : Nat) (g : Guard.Expr) : Expr :=
  parenthesized (g.precedence < least) <|
    match g with
    | .const true => .name "true"
    | .const false => .name "false"
    | .compare r left right => .binary (operatorOf r) (.ofTerm left) (.ofTerm right)
    | .not (.const b) => .not (Expr.ofGuardAt 0 (.const b))
    | .not inner => .not (.paren (Expr.ofGuardAt 0 inner))
    | .and left right => .binary .and (Expr.ofGuardAt 2 left) (Expr.ofGuardAt 3 right)
    | .or left right => .binary .or (Expr.ofGuardAt 1 left) (Expr.ofGuardAt 2 right)

def Expr.ofGuard (g : Guard.Expr) : Expr :=
  .ofGuardAt 0 g

/-! ## One state -/

/-- The channel of a transition, by its name in the program. -/
def channelName? (p : Program) (aid : AutomatonId) (tid : TransitionId) : Option String := do
  let c ← p.topology.channels[← p.topology.channelOf? aid tid]?
  return c.route.name

/-- Whether a channel has room for a message, or has a message. -/
def ready (d : Direction) (channel : String) : Expr :=
  match d with
  | .send => .binary .lt (.call "len" [.name channel]) (.call "cap" [.name channel])
  | .receive => .binary .gt (.call "len" [.name channel]) (.int 0)

/-- Whether a transition can be taken; never, without a channel. -/
def enabledEntry (p : Program) (aid : AutomatonId) (x : TransitionId × Transition) : Expr :=
  let channel := match channelName? p aid x.1 with
    | some c => ready x.2.comm.direction c
    | none => .name "false"
  .binary .and (.paren (.ofGuard x.2.guard.expr)) channel

/-- If no transition has been chosen yet, the choice of a tier. -/
def pick (t : Tier) : Stmt :=
  let candidates := t.ordinals.map fun i : Nat => Expr.int i
  let call := match t.tieBreak with
    | .first => Expr.call "pickFirst" (.name "enabled" :: candidates)
    | .random => Expr.call "pickRandom" (.name "rng" :: .name "enabled" :: candidates)
  .when (.binary .lt (.name "choice") (.int 0)) [.assign "choice" call]

/-- The communication of a transition over its channel. -/
def communicate (c : Communication) (channel : String) : List Stmt :=
  match c.direction with
  | .send =>
    [.comment ("send " ++ c.payload ++ " to " ++ c.partner),
     .send channel (.struct (payloadType c.payload))]
  | .receive =>
    [.comment ("receive " ++ c.payload ++ " from " ++ c.partner), .call (.receive channel)]

/-- Performing the transition with a given ordinal. -/
def arm (p : Program) (aid : AutomatonId) (a : Automaton)
    (x : (TransitionId × Transition) × Nat) : Case :=
  let ((tid, t), ordinal) := x
  .mk [.int ordinal] <|
    (match channelName? p aid tid with
      | some c => communicate t.comm c
      | none => []) ++
    [.assign "state" (.string (a.stateName t.target))] ++
    (if t.resets then [.assign "epoch" (.name "now")] else [])

/-- The transitions that leave a state, by ordinal. -/
def leaving (a : Automaton) (s : State) : List (TransitionId × Transition) :=
  s.outgoing.filterMap fun tid => a.transitions[tid]?.map fun t => (tid, t)

/-- The arbiter of a state; without one, chance decides among all transitions. -/
def arbiterOf (p : Program) (aid : AutomatonId) (sid : StateId) (n : Nat) : Arbiter :=
  (p.policy.arbiter? aid sid).getD ⟨List.replicate n .default⟩

/-- The case of a state with outgoing transitions. -/
def branch (p : Program) (aid : AutomatonId) (a : Automaton) (sid : StateId) (s : State) : Case :=
  let transitions := leaving a s
  .mk [.string s.name] <|
    [.defineFlags "enabled" (transitions.map (enabledEntry p aid))] ++
    (arbiterOf p aid sid s.outgoing.length).tiers.map pick ++
    [.switch "choice" (transitions.zipIdx.map (arm p aid a))]

/-! ## Whole functions -/

/-- A line of output of the generated program, about the current state. -/
def report (label text : String) : Stmt :=
  .call (.call "fmt.Printf" [.string (label ++ ": " ++ text ++ " %s\\n"), .name "state"])

/-- Statements that are there only in a program that reports its state changes. -/
def traced (e : Emission) (s : Stmt) : List Stmt :=
  if e.trace then [s] else []

/-- The case of the end states, if there are any. -/
def haltCases (e : Emission) (a : Automaton) : List Case :=
  if a.endStates.isEmpty then []
  else
    [.mk (a.endStates.map fun s => .string (a.stateName s)) <|
      traced e (report a.label "halted in state") ++ [.giveBack none]]

/-- The cases of all states: those with outgoing transitions one by one, then the end states. -/
def stateCases (p : Program) (e : Emission) (aid : AutomatonId) (a : Automaton) : List Case :=
  (a.states.zipIdx.filter fun s => !s.1.outgoing.isEmpty).map
      (fun s => branch p aid a s.2 s.1) ++
    haltCases e a

def workerBody (p : Program) (e : Emission) (aid : AutomatonId) (a : Automaton) : List Stmt :=
  [.deferred (.call "wg.Done" []),
   .define "state" (.string (a.stateName a.initial)),
   .define "epoch" (.call "clock.Load" [])] ++
  traced e (report a.label "initial state") ++
  [.forever <|
    [.define "now" (.call "clock.Load" []),
     .define "x" (.binary .sub (.name "now") (.name "epoch")),
     .assign "_" (.name "x"),
     .define "choice" (.int (-1)),
     .switch "state" (stateCases p e aid a),
     .when (.binary .lt (.name "choice") (.int 0))
      [.call (.call "time.Sleep" [.name "pollInterval"]), .next]] ++
    traced e (report a.label "moved to state")]

/-- The function that runs an automaton. -/
def worker (p : Program) (e : Emission) (aid : AutomatonId) (a : Automaton) : Func where
  doc :=
    [" " ++ workerName a.label ++ " executes automaton " ++ a.label ++ ":", ""] ++
    (Text.linesOf a.source).map fun line => "\t" ++ Text.trimmed line
  name := workerName a.label
  params := "rng *rand.Rand, wg *sync.WaitGroup"
  result := none
  body := workerBody p e aid a

/-! ## Helpers -/

/-- Whether the candidate `c` is enabled. -/
def isEnabled : Expr :=
  .index (.name "enabled") (.name "c")

/-- Chooses the first enabled candidate. -/
def pickFirst : Func where
  doc := [" pickFirst returns the first enabled candidate, or -1."]
  name := "pickFirst"
  params := "enabled []bool, candidates ...int"
  result := some "int"
  body :=
    [.forEach "c" "candidates" [.when isEnabled [.giveBack (some (.name "c"))]],
     .giveBack (some (.int (-1)))]

/-- Chooses one of the enabled candidates at random. -/
def pickRandom : Func where
  doc := [" pickRandom returns an enabled candidate chosen uniformly at random, or -1."]
  name := "pickRandom"
  params := "rng *rand.Rand, enabled []bool, candidates ...int"
  result := some "int"
  body :=
    let live := Expr.call "len" [.name "live"]
    [.declare "live" "[]int",
     .forEach "c" "candidates"
      [.when isEnabled [.assign "live" (.call "append" [.name "live", .name "c"])]],
     .when (.binary .eq live (.int 0)) [.giveBack (some (.int (-1)))],
     .giveBack (some (.index (.name "live") (.call "rng.Intn" [live])))]

/-- The functions that workers choose with. Both give `-1` if no candidate is enabled. -/
def helpers : List Func :=
  [pickFirst, pickRandom]

end Generation
end TimedAutomata
