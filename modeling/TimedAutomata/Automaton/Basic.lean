import TimedAutomata.Guard.Basic
import TimedAutomata.Text.Bytes

/-!
# Communicating timed automata

An automaton has named states and transitions between them. Each transition sends a payload to a
partner automaton or receives one from it, under a guard on the automaton's clock, which it may
reset. States and transitions are referred to by their positions.

- `Automaton.single`: an automaton with its initial state only
- `Automaton.addState`, `Automaton.addTransition`: growing an automaton
- `Automaton.violations`: what keeps an automaton from being well formed

The list of end states is kept as of the last transition added: a state added later is not in it
yet.
-/

namespace TimedAutomata

/-! ## Transitions -/

abbrev StateId := Nat
abbrev TransitionId := Nat

inductive Direction where
  | send
  | receive
  deriving DecidableEq, Repr, Inhabited

namespace Direction

def symbol : Direction → String
  | .send => "!"
  | .receive => "?"

def opposite : Direction → Direction
  | .send => .receive
  | .receive => .send

end Direction

/-- A payload sent to, or received from, a partner. -/
structure Communication where
  direction : Direction
  partner : String
  payload : String
  deriving DecidableEq, Repr, Inhabited

namespace Communication

/-- `partner!payload` or `partner?payload`. -/
def text (c : Communication) : String :=
  c.partner ++ c.direction.symbol ++ c.payload

end Communication

structure Transition where
  start : StateId
  target : StateId
  comm : Communication
  guard : Guard
  resets : Bool
  span : Span
  deriving DecidableEq, Repr, Inhabited

/-! ## States and automata -/

/-- A state and the transitions that leave it, in the order they were added. The position of a
transition in this list is its ordinal. -/
structure State where
  name : String
  outgoing : List TransitionId
  deriving DecidableEq, Repr, Inhabited

structure Automaton where
  label : String
  initial : StateId
  states : List State
  /-- The states by name. -/
  index : List (String × StateId)
  transitions : List Transition
  /-- The states without outgoing transitions, as of the last transition added. -/
  endStates : List StateId
  /-- The declaration the automaton was read from, and where it stands. -/
  source : String
  span : Span
  deriving DecidableEq, Repr, Inhabited

namespace Automaton

/-- The automaton with one state and no transitions. -/
def single (label initial source : String) (span : Span) : Automaton where
  label
  initial := 0
  states := [⟨initial, []⟩]
  index := [(initial, 0)]
  transitions := []
  endStates := [0]
  source
  span

/-! ## Looking up -/

def stateNames (a : Automaton) : List String :=
  a.states.map State.name

/-- The state with a given name. -/
def stateId? (a : Automaton) (name : String) : Option StateId :=
  a.index.lookup name

def stateName? (a : Automaton) (id : StateId) : Option String :=
  a.states[id]?.map State.name

def outgoing? (a : Automaton) (id : StateId) : Option (List TransitionId) :=
  a.states[id]?.map State.outgoing

/-- Whether a state has no outgoing transition. -/
def isEnd? (a : Automaton) (id : StateId) : Option Bool :=
  a.states[id]?.map fun s => s.outgoing.isEmpty

/-- The name of a state that is known to exist. -/
def stateName (a : Automaton) (id : StateId) : String :=
  (a.stateName? id).getD ""

/-- The transitions that leave a state, in order of their ordinals. -/
def outgoing (a : Automaton) (id : StateId) : List TransitionId :=
  (a.outgoing? id).getD []

/-! ## Growing -/

/-- The state with a given name, added if there is none. -/
def addState (a : Automaton) (name : String) : Automaton × StateId :=
  match a.stateId? name with
  | some id => (a, id)
  | none =>
    let id := a.states.length
    ({ a with states := a.states ++ [⟨name, []⟩], index := a.index ++ [(name, id)] }, id)

/-- The states from which no transition leaves. -/
def deadEnds (states : List State) : List StateId :=
  (states.zipIdx.filter fun s => s.1.outgoing.isEmpty).map Prod.snd

/-- Adds a transition. If its start is not a state of the automaton, the transition is stored but
leaves no state, and there is no result. -/
def addTransition (a : Automaton) (t : Transition) : Automaton × Option TransitionId :=
  let id := a.transitions.length
  let transitions := a.transitions ++ [t]
  match a.states[t.start]? with
  | none => ({ a with transitions }, none)
  | some s =>
    let states := a.states.set t.start { s with outgoing := s.outgoing ++ [id] }
    ({ a with transitions, states, endStates := deadEnds states }, some id)

/-! ## Well-formedness -/

inductive Violation where
  | unknownInitial
  | internedTwice (state : String)
  | repeatedState
  | unknownEndpoint (transition : TransitionId)
  | notOutgoing (transition : TransitionId) (state : String)
  | wrongEnd (state : String)
  deriving DecidableEq, Repr

namespace Violation

/-- What is wrong with the automaton labelled `label`. -/
def message (label : String) : Violation → String
  | .unknownInitial => label ++ ": initial state is not a known state"
  | .internedTwice s => label ++ ": state `" ++ s ++ "` is interned twice"
  | .repeatedState => label ++ ": state list contains duplicates"
  | .unknownEndpoint t => label ++ ": tr" ++ toString t ++ " has an unknown endpoint"
  | .notOutgoing t s =>
    label ++ ": tr" ++ toString t ++ " is missing from the outgoing list of `" ++ s ++ "`"
  | .wrongEnd s => label ++ ": end-state record for `" ++ s ++ "` disagrees with its transitions"

end Violation

/-- An entry of the index has to name the state that it leads to. -/
def indexViolation? (a : Automaton) (name : String) (id : StateId) : Option Violation :=
  if a.stateName? id = some name then none else some (.internedTwice name)

def transitionViolation? (a : Automaton) (id : TransitionId) (t : Transition) :
    Option Violation :=
  match a.states[t.start]?, a.states[t.target]? with
  | some start, some _ =>
    if start.outgoing.contains id then none else some (.notOutgoing id start.name)
  | _, _ => some (.unknownEndpoint id)

def stateViolation? (a : Automaton) (id : StateId) (s : State) : Option Violation :=
  if a.endStates.contains id = s.outgoing.isEmpty then none else some (.wrongEnd s.name)

/-- Everything that keeps the automaton from being well formed. -/
def violations (a : Automaton) : List Violation :=
  (if a.initial < a.states.length then [] else [.unknownInitial]) ++
  (a.index.filterMap fun (name, id) => a.indexViolation? name id) ++
  (if a.index.length = a.states.length then [] else [.repeatedState]) ++
  (a.transitions.zipIdx.filterMap fun (t, id) => a.transitionViolation? id t) ++
  (a.states.zipIdx.filterMap fun (s, id) => a.stateViolation? id s)

end Automaton
end TimedAutomata
