import TimedAutomata.Arbiter.Basic
import TimedAutomata.Config.Basic
import TimedAutomata.Topology.Basic

/-!
# Arbitration policies

A policy gives arbiters to the states of a network. A state with several outgoing transitions
takes its arbiter from an entry of the configuration; one with a single transition needs none.

- `Policy.Fault`: what can be wrong with the entries
- `slots`: the classes that one entry assigns, with its faults
- `Policy.resolve`: the policy of a network, or all faults
-/

namespace TimedAutomata

/-- An automaton of a network and a state of it. -/
abbrev StateKey := AutomatonId × StateId

structure Policy where
  arbiters : List (StateKey × Arbiter)
  deriving DecidableEq, Repr, Inhabited

namespace Policy

def empty : Policy := ⟨[]⟩

def arbiter? (p : Policy) (a : AutomatonId) (s : StateId) : Option Arbiter :=
  p.arbiters.lookup (a, s)

/-! ## Faults -/

inductive Fault where
  /-- A state with several transitions and no entry; the span of the first transition. -/
  | missingArbitration (automaton state : String) (transitions : Nat) (span : Span)
  | unknownAutomaton (automaton : String)
  | unknownState (automaton state : String)
  | duplicateEntry (automaton state : String)
  | ordinalOutOfRange (automaton state : String) (ordinal transitions : Nat)
  | duplicateOrdinal (automaton state : String) (ordinal : Nat)
  | unassignedTransition (automaton state : String) (ordinal : Nat)
  | missingRank (automaton state : String) (ordinal : Nat)
  deriving DecidableEq, Repr

namespace Fault

private def quoted (automaton state : String) : String :=
  "`" ++ automaton ++ "." ++ state ++ "`"

def message : Fault → String
  | .missingArbitration a s n _ =>
    "state " ++ quoted a s ++ " has " ++ toString n ++
      " outgoing transitions but no arbitration entry"
  | .unknownAutomaton a => "arbitration entry refers to unknown automaton `" ++ a ++ "`"
  | .unknownState a s => "arbitration entry refers to unknown state " ++ quoted a s
  | .duplicateEntry a s => "arbitration for " ++ quoted a s ++ " is given more than once"
  | .ordinalOutOfRange a s o n =>
    quoted a s ++ " has " ++ toString n ++ " outgoing transitions, ordinal " ++ toString o ++
      " is out of range"
  | .duplicateOrdinal a s o =>
    "ordinal " ++ toString o ++ " of " ++ quoted a s ++ " is assigned more than once"
  | .unassignedTransition a s o =>
    "ordinal " ++ toString o ++ " of " ++ quoted a s ++ " has no priority class"
  | .missingRank a s o =>
    "ordinal " ++ toString o ++ " of " ++ quoted a s ++ " is ranked but has no `rank`"

/-- The place in the text that a fault points to, if it points to one. -/
def span? : Fault → Option Span
  | .missingArbitration _ _ _ span => some span
  | _ => none

end Fault

/-! ## Entries -/

/-- The classes assigned so far, by ordinal, and the faults found. -/
structure Slots where
  classes : List (Option PriorityClass)
  faults : List Fault
  deriving DecidableEq, Repr

/-- The class that an assignment names; none for a rank that is not given. -/
def assignedClass? (x : Assignment) : Option PriorityClass :=
  match x.className, x.rank with
  | .exclusive, _ => some .exclusive
  | .default, _ => some .default
  | .ranked, r => r.map .ranked

/-- One assignment of an entry. A faulty one leaves the classes as they are. -/
def assign (entry : ArbitrationEntry) (slots : Slots) (x : Assignment) : Slots :=
  let fault (f : Fault) : Slots := { slots with faults := slots.faults ++ [f] }
  match slots.classes[x.ordinal]? with
  | none =>
    fault (.ordinalOutOfRange entry.automaton entry.state x.ordinal slots.classes.length)
  | some (some _) => fault (.duplicateOrdinal entry.automaton entry.state x.ordinal)
  | some none =>
    match assignedClass? x with
    | none => fault (.missingRank entry.automaton entry.state x.ordinal)
    | some c => { slots with classes := slots.classes.set x.ordinal (some c) }

/-- The classes that an entry assigns to `n` transitions, and its faults, the transitions left out
among them. -/
def slots (entry : ArbitrationEntry) (n : Nat) : Slots :=
  let assigned := entry.assignments.foldl (assign entry) ⟨List.replicate n none, []⟩
  let missing := assigned.classes.zipIdx.filterMap fun
    | (none, i) => some (Fault.unassignedTransition entry.automaton entry.state i)
    | (some _, _) => none
  { assigned with faults := assigned.faults ++ missing }

/-! ## Resolution -/

/-- The arbiters found so far, in order, and the faults. -/
structure Draft where
  arbiters : List (StateKey × Arbiter)
  faults : List Fault
  deriving DecidableEq, Repr

namespace Draft

def fault (d : Draft) (f : Fault) : Draft :=
  { d with faults := d.faults ++ [f] }

def has (d : Draft) (k : StateKey) : Bool :=
  (d.arbiters.lookup k).isSome

def settle (d : Draft) (k : StateKey) (a : Arbiter) : Draft :=
  { d with arbiters := d.arbiters ++ [(k, a)] }

end Draft

/-- The first automaton with a given label. -/
def firstWithLabel? (net : Network) (label : String) : Option (Automaton × AutomatonId) :=
  net.zipIdx.find? fun a => a.1.label == label

/-- One entry. Only an entry without faults settles its state. -/
def addEntry (net : Network) (d : Draft) (entry : ArbitrationEntry) : Draft :=
  match firstWithLabel? net entry.automaton with
  | none => d.fault (.unknownAutomaton entry.automaton)
  | some (a, aid) =>
    match a.stateId? entry.state with
    | none => d.fault (.unknownState entry.automaton entry.state)
    | some sid =>
      if d.has (aid, sid) then d.fault (.duplicateEntry entry.automaton entry.state)
      else
        let s := slots entry (a.outgoing sid).length
        match s.faults with
        | [] => d.settle (aid, sid) ⟨s.classes.filterMap id⟩
        | faults => { d with faults := d.faults ++ faults }

/-- A state that no entry has settled. -/
def addState (a : Automaton) (aid : AutomatonId) (d : Draft) (s : State × StateId) : Draft :=
  match s.1.outgoing with
  | [] => d
  | [_] => if d.has (aid, s.2) then d else d.settle (aid, s.2) ⟨[.default]⟩
  | first :: more =>
    if d.has (aid, s.2) then d
    else
      let span := (a.transitions[first]?.map Transition.span).getD ⟨0, 0⟩
      d.fault (.missingArbitration a.label s.1.name (more.length + 1) span)

/-- The entries, in order. -/
def entryDraft (net : Network) (entries : List ArbitrationEntry) : Draft :=
  entries.foldl (addEntry net) ⟨[], []⟩

/-- The entries and then the states that are left, in order. -/
def draft (net : Network) (entries : List ArbitrationEntry) : Draft :=
  net.zipIdx.foldl (fun d a => a.1.states.zipIdx.foldl (addState a.1 a.2) d)
    (entryDraft net entries)

/-- The policy of a network under the given entries. All faults are reported together. -/
def resolve (net : Network) (entries : List ArbitrationEntry) : Except (List Fault) Policy :=
  let d := draft net entries
  match d.faults with
  | [] => .ok ⟨d.arbiters⟩
  | faults => .error faults

end Policy
end TimedAutomata
