import TimedAutomata.Journal
import TimedAutomata.Topology.Basic

/-!
# Resolution of channels

The channels of a network are found by going through its transitions in order. A transition takes
the channel of its route, which is opened when the route is new, provided that its partner has a
transition to go with it. After the transitions of an automaton come its warnings.

- `Resolver`: what has been found so far
- `Resolver.channel`, `Resolver.addTransition`, `Resolver.addAutomaton`: the steps
- `Topology.resolve`: the topology of a network, or all transitions without a counterpart
- `Topology.journal`: what resolving reports
-/

namespace TimedAutomata

structure Resolver where
  /-- The channels by route. -/
  index : List (Route × ChannelId)
  topology : Topology
  unmatched : List Unmatched
  records : List Journal.Record
  deriving DecidableEq, Repr

namespace Resolver

def empty : Resolver := ⟨[], .empty, [], []⟩

/-- Reports something. -/
def log (r : Resolver) (level : Journal.Level) (text : String) : Resolver :=
  { r with records := r.records ++ [⟨level, .channels, text⟩] }

/-- Opens a channel for a route. -/
def openChannel (r : Resolver) (net : Network) (route : Route) : Resolver :=
  let channel : Channel := ⟨route, net.endpoint route.sender, net.endpoint route.receiver⟩
  { r with
    index := r.index ++ [(route, r.topology.channels.length)]
    topology := { r.topology with channels := r.topology.channels ++ [channel] } }

/-- The channel of a route, opened if there is none. -/
def channel (r : Resolver) (net : Network) (route : Route) : Resolver × ChannelId :=
  match r.index.lookup route with
  | some id => (r, id)
  | none =>
    let report := "channel " ++ route.name ++ ": " ++ route.sender ++ " -> " ++ route.receiver ++
      " carrying `" ++ route.payload ++ "`"
    ((r.openChannel net route).log .info report, r.topology.channels.length)

/-- Binds a transition to a channel. -/
def bind (r : Resolver) (aid : AutomatonId) (tid : TransitionId) (id : ChannelId) : Resolver :=
  let bindings := r.topology.bindings ++ [((aid, tid), id)]
  { r with topology := { r.topology with bindings } }

/-- One transition. It is bound to the channel of its route if it has a counterpart. -/
def addTransition (net : Network) (a : Automaton) (aid : AutomatonId) (r : Resolver)
    (x : Transition × TransitionId) : Resolver :=
  let t := x.1
  if net.isMatched a.label t.comm then
    let (r, id) := r.channel net (t.comm.route a.label)
    let report := a.label ++ ": " ++ (a.transitionText? t).getD "" ++ " uses chan" ++ toString id
    (r.log .debug report).bind aid x.2 id
  else
    let declared := (net.withLabel? t.comm.partner).isSome
    let unmatched : Unmatched := ⟨a.label, a.stateName t.start, t.comm, declared, t.span⟩
    { r with unmatched := r.unmatched ++ [unmatched] }

/-- A warning. -/
def warn (r : Resolver) (w : Ambiguity) : Resolver :=
  let warned := r.log .warn w.message
  { warned with topology := { r.topology with warnings := r.topology.warnings ++ [w] } }

/-- The transitions of an automaton, and then its warnings. -/
def addAutomaton (net : Network) (r : Resolver) (a : Automaton × AutomatonId) : Resolver :=
  a.1.ambiguities.foldl warn (a.1.transitions.zipIdx.foldl (addTransition net a.1 a.2) r)

/-- All automata, in order. -/
def run (net : Network) : Resolver :=
  net.zipIdx.foldl (addAutomaton net) empty

end Resolver

namespace Topology

/-- The topology of a network. All unmatched transitions are reported together, in the order of
their positions in the text. -/
def resolve (net : Network) : Except (List Unmatched) Topology :=
  let r := Resolver.run net
  match r.unmatched with
  | [] => .ok r.topology
  | us => .error (us.mergeSort fun u v => u.span.le v.span)

/-- What resolving the channels of a network reports. -/
def journal (net : Network) : List Journal.Record :=
  let r := Resolver.run net
  let summary := "resolved " ++ toString r.topology.channels.length ++ " channel(s)"
  if r.unmatched.isEmpty then (r.log .info summary).records else r.records

end Topology
end TimedAutomata
