import TimedAutomata.Journal
import TimedAutomata.Program.Basic
import TimedAutomata.Random.Keystream

/-!
# Simulation

The reference execution of a program. Time advances in ticks; in each tick every automaton has one
turn, in the order of declaration. Clocks are not stored: an automaton keeps the tick of its last
reset, and its clock shows the time since then.

- `Simulation.enabled`: which transitions of an automaton can be taken now
- `Simulation.turn`: one turn of one automaton. It has no result if the draw that breaks a tie has
  no end; then neither has the tick or the run that it belongs to.
- `Simulation.tick`, `Simulation.run`: one tick, and ticks until all automata have halted
- `Simulation.Event`: what happened in a turn; `Step` is a transition taken
- `Simulation.Report`: what is reported about a run
-/

namespace TimedAutomata

namespace Simulation

/-- How many messages a channel holds, and the seed of the random choices. -/
structure Options where
  depth : Nat
  seed : UInt64
  deriving DecidableEq, Repr

namespace Options

def default : Options := ⟨2, 0⟩

instance : Inhabited Options := ⟨default⟩

/-- The options of a generated program. A negative seed stands for its two's complement. -/
def ofEmission (e : Emission) : Options :=
  ⟨e.channelDepth, UInt64.ofInt (e.seed.getD 0)⟩

end Options

/-- Where an automaton is: its state, the tick of its last reset, and whether it has halted. -/
structure Runner where
  state : StateId
  epoch : Nat
  halted : Bool
  deriving DecidableEq, Repr, Inhabited

/-- A transition taken. -/
structure Step where
  tick : Nat
  automaton : String
  source : String
  target : String
  comm : Communication
  /-- What the clock of the automaton showed. -/
  clock : Nat
  deriving DecidableEq, Repr

namespace Step

def text (s : Step) : String :=
  let tick := String.ofList ((toString s.tick).toList.leftpad 4 ' ')
  "[" ++ tick ++ "] " ++ s.automaton ++ ": " ++ s.source ++ " --" ++ s.comm.text ++ "--> " ++
    s.target ++ " (x = " ++ toString s.clock ++ ")"

end Step

/-- What happened in a turn, if anything did. -/
inductive Event where
  | halted (automaton state : String)
  | moved (step : Step)
  deriving DecidableEq, Repr

namespace Event

def step? : Event → Option Step
  | .halted .. => none
  | .moved s => some s

def record : Event → Journal.Record
  | .halted automaton state => ⟨.debug, .simulation, automaton ++ " halted in " ++ state⟩
  | .moved s => ⟨.debug, .simulation, s.text⟩

end Event

end Simulation

/-- The state of an execution. -/
structure Simulation where
  depth : Nat
  source : Random.Source
  now : Nat
  runners : List Simulation.Runner
  /-- The number of messages in each channel. -/
  fill : List Nat

namespace Simulation

/-- Every automaton in its initial state, all channels empty. -/
def start (p : Program) (o : Options) : Simulation where
  depth := o.depth
  source := .ofSeed o.seed
  now := 0
  runners := p.network.map fun a => ⟨a.initial, 0, false⟩
  fill := p.topology.channels.map fun _ => 0

def runner (s : Simulation) (aid : AutomatonId) : Runner :=
  s.runners.getD aid default

def fillOf (s : Simulation) (c : ChannelId) : Nat :=
  s.fill.getD c 0

def allHalted (s : Simulation) : Bool :=
  s.runners.all Runner.halted

/-- Label and state of every automaton. -/
def states (p : Program) (s : Simulation) : List (String × String) :=
  p.network.zipIdx.map fun (a, aid) => (a.label, a.stateName (s.runner aid).state)

/-! ## Turns -/

/-- Whether a channel is ready for a communication. -/
def ready (s : Simulation) (d : Direction) (c : ChannelId) : Bool :=
  match d with
  | .send => s.fillOf c < s.depth
  | .receive => 0 < s.fillOf c

/-- Whether a transition can be taken when its automaton's clock shows `x`. -/
def canTake (p : Program) (s : Simulation) (aid : AutomatonId) (a : Automaton) (x : Nat)
    (tid : TransitionId) : Bool :=
  match a.transitions[tid]?, p.topology.channelOf? aid tid with
  | some t, some c => s.ready t.comm.direction c && t.guard.holds x
  | _, _ => false

/-- Which transitions of the current state can be taken, by ordinal. -/
def enabled (p : Program) (s : Simulation) (aid : AutomatonId) (a : Automaton) (x : Nat) :
    List Bool :=
  (a.outgoing (s.runner aid).state).map (s.canTake p aid a x)

/-- The number of messages in a channel after a communication. -/
def transfer (d : Direction) (n : Nat) : Nat :=
  match d with
  | .send => n + 1
  | .receive => n - 1

/-- Performs a transition: the channel, the state, and the reset. -/
def perform (p : Program) (s : Simulation) (aid : AutomatonId) (tid : TransitionId)
    (t : Transition) : Simulation :=
  let r := s.runner aid
  let fill := match p.topology.channelOf? aid tid with
    | some c => s.fill.set c (transfer t.comm.direction (s.fillOf c))
    | none => s.fill
  let epoch := if t.resets then s.now else r.epoch
  { s with fill, runners := s.runners.set aid { r with state := t.target, epoch } }

/-- Takes the transition with the selected ordinal, when the clock of its automaton shows `x`. -/
def follow (p : Program) (s : Simulation) (aid : AutomatonId) (a : Automaton) (x : Nat)
    (choice : Option Nat) : Simulation × Option Event :=
  let state := (s.runner aid).state
  match choice with
  | none => (s, none)
  | some ordinal =>
    match (a.outgoing state)[ordinal]? with
    | none => (s, none)
    | some tid =>
      match a.transitions[tid]? with
      | none => (s, none)
      | some t =>
        (s.perform p aid tid t,
          some (.moved ⟨s.now, a.label, a.stateName state, a.stateName t.target, t.comm, x⟩))

/-- One turn of an automaton. One that has arrived in an end state halts. -/
def turn (p : Program) (s : Simulation) (aid : AutomatonId) (a : Automaton) :
    Option (Simulation × Option Event) :=
  let r := s.runner aid
  if r.halted then some (s, none)
  else if (a.outgoing r.state).isEmpty then
    some ({ s with runners := s.runners.set aid { r with halted := true } },
      some (.halted a.label (a.stateName r.state)))
  else
    let x := s.now - r.epoch
    match p.policy.arbiter? aid r.state with
    | none => some (s, none)
    | some arbiter => do
      let (choice, source) ← arbiter.select (s.enabled p aid a x) s.source
      return { s with source }.follow p aid a x choice

/-- The turns of the given automata, in order. -/
def turns (p : Program) :
    Simulation → List (Automaton × AutomatonId) → Option (Simulation × List Event)
  | s, [] => some (s, [])
  | s, (a, aid) :: rest => do
    let (s, event) ← s.turn p aid a
    let (s, events) ← turns p s rest
    return (s, event.toList ++ events)

/-! ## Ticks -/

/-- A turn of every automaton, and then time advances. -/
def tick (p : Program) (s : Simulation) : Option (Simulation × List Event) := do
  let (s, events) ← turns p s p.network.zipIdx
  return ({ s with now := s.now + 1 }, events)

/-- Ticks until all automata have halted, or `limit` ticks have been made since the time `begin`. -/
def runSince (p : Program) (begin limit : Nat) (s : Simulation) :
    Option (Simulation × List Event) := do
  if !s.allHalted && s.now - begin < limit then
    let (s, first) ← s.tick p
    let (s, more) ← s |>.runSince p begin limit
    return (s, first ++ more)
  else return (s, [])
partial_fixpoint

/-- Ticks until all automata have halted, at most `limit`. -/
def run (p : Program) (limit : Nat) (s : Simulation) : Option (Simulation × List Event) :=
  s.runSince p s.now limit

/-- The transitions among the events. -/
def steps (events : List Event) : List Step :=
  events.filterMap Event.step?

/-- What a run reports: the transitions taken, the number of ticks, and whether all automata have
halted. -/
structure Report where
  steps : List Step
  ticks : Nat
  halted : Bool
  deriving DecidableEq, Repr

/-- The report of a run that led from `before` to `after`. -/
def Report.of (before after : Simulation) (events : List Event) : Report :=
  ⟨Simulation.steps events, after.now - before.now, after.allHalted⟩

end Simulation
end TimedAutomata
