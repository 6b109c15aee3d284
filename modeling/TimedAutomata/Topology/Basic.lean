import TimedAutomata.Automaton.Printer
import TimedAutomata.Sequence

/-!
# Channels

Every communication runs over a channel, which carries one payload from one automaton to another.

- `Route`, `Channel`: what a channel connects
- `Network.isMatched`: whether the partner of a transition has one to go with it
- `Ambiguity`: transitions of one automaton that compete for the same end of a channel
- `Topology`: the channels of a network and the channel of each transition
-/

namespace TimedAutomata

abbrev AutomatonId := Nat
abbrev ChannelId := Nat

/-! ## Routes -/

structure Route where
  sender : String
  receiver : String
  payload : String
  deriving DecidableEq, Repr, Inhabited

namespace Route

/-- The name of the channel in generated code. Different routes may share one: an underscore can
stand in a label as well as between labels. -/
def name (r : Route) : String :=
  "chan_" ++ r.sender ++ "_" ++ r.receiver ++ "_" ++ r.payload

end Route

namespace Communication

/-- The route of a communication performed by the automaton labelled `label`. -/
def route (c : Communication) (label : String) : Route :=
  match c.direction with
  | .send => ⟨label, c.partner, c.payload⟩
  | .receive => ⟨c.partner, label, c.payload⟩

/-- Whether `d`, performed by the partner, completes `c` as performed by `label`. -/
def completedBy (c : Communication) (label : String) (d : Communication) : Bool :=
  d.direction != c.direction && d.partner == label && d.payload == c.payload

end Communication

/-! ## Matching -/

namespace Network

/-- The automaton with a given label; of several, the last. -/
def withLabel? (net : Network) (label : String) : Option (Automaton × AutomatonId) :=
  net.zipIdx.reverse.find? fun a => a.1.label == label

/-- Whether the partner of `c` has a transition that completes it. -/
def isMatched (net : Network) (label : String) (c : Communication) : Bool :=
  match net.withLabel? c.partner with
  | none => false
  | some (partner, _) => partner.transitions.any fun t => c.completedBy label t.comm

/-- The automaton with a given label, as an end of a channel. -/
def endpoint (net : Network) (label : String) : AutomatonId :=
  ((net.withLabel? label).map Prod.snd).getD 0

end Network

/-- A transition whose partner has no transition to go with it. -/
structure Unmatched where
  automaton : String
  state : String
  comm : Communication
  partnerDeclared : Bool
  span : Span
  deriving DecidableEq, Repr

namespace Unmatched

def message (u : Unmatched) : String :=
  let (verb, preposition, counterpart) := match u.comm.direction with
    | .send => ("send of", "to", "receive")
    | .receive => ("receive of", "from", "send")
  u.automaton ++ "." ++ u.state ++ ": " ++ verb ++ " `" ++ u.comm.payload ++ "` " ++ preposition ++
    " `" ++ u.comm.partner ++ "` has no matching " ++ counterpart ++
    (if u.partnerDeclared then "" else " (no such automaton is declared)")

end Unmatched

/-! ## Ambiguity -/

/-- Transitions of one automaton that are candidates for the same end of a channel. The first
declared is the primary one. -/
structure Ambiguity where
  automaton : String
  /-- The start states of the candidates, in order of declaration. -/
  states : List String
  comm : Communication
  candidates : Nat
  span : Span
  deriving DecidableEq, Repr

def Ambiguity.message (w : Ambiguity) : String :=
  w.automaton ++ "." ++ Sequence.joinWith "/" w.states.eraseDups ++ ": " ++
    toString w.candidates ++ " transitions perform `" ++ w.comm.text ++
    "`, the first declared one is the primary endpoint"

/-- What two competing transitions agree on: receives compete across the whole automaton, sends
only when they leave the same state. -/
def Transition.contest (t : Transition) : Communication × Option StateId :=
  match t.comm.direction with
  | .receive => (t.comm, none)
  | .send => (t.comm, some t.start)

namespace Automaton

/-- The transitions by what they compete for, in the order of the first competitors. -/
def rivals (a : Automaton) : List ((Communication × Option StateId) × List TransitionId) :=
  a.transitions.zipIdx.foldl (fun groups x => Sequence.addTo x.1.contest x.2 groups) []

/-- The warning about transitions that compete. -/
def ambiguity (a : Automaton) (comm : Communication) (members : List TransitionId) : Ambiguity :=
  let transitions := members.filterMap fun tid => a.transitions[tid]?
  { automaton := a.label
    states := transitions.map fun t => a.stateName t.start
    comm
    candidates := members.length
    span := (transitions.head?.map Transition.span).getD ⟨0, 0⟩ }

/-- A warning for each group of several. -/
def ambiguities (a : Automaton) : List Ambiguity :=
  (a.rivals.filter fun g => 1 < g.2.length).map fun g => a.ambiguity g.1.1 g.2

end Automaton

/-! ## Topologies -/

/-- A route and the automata at its ends. -/
structure Channel where
  route : Route
  sender : AutomatonId
  receiver : AutomatonId
  deriving DecidableEq, Repr, Inhabited

structure Topology where
  /-- The channels, in the order in which the transitions first use them. -/
  channels : List Channel
  /-- The channels of the transitions. -/
  bindings : List ((AutomatonId × TransitionId) × ChannelId)
  warnings : List Ambiguity
  deriving DecidableEq, Repr, Inhabited

namespace Topology

def empty : Topology := ⟨[], [], []⟩

def routes (t : Topology) : List Route :=
  t.channels.map Channel.route

/-- The channel that a transition communicates over. -/
def channelOf? (t : Topology) (a : AutomatonId) (tr : TransitionId) : Option ChannelId :=
  t.bindings.lookup (a, tr)

/-- The channel with a given route. -/
def find? (t : Topology) (r : Route) : Option ChannelId :=
  t.routes.idxOf? r

/-- The payloads of the channels, each once, in order of first appearance. -/
def payloads (t : Topology) : List String :=
  (t.routes.map Route.payload).eraseDups

end Topology
end TimedAutomata
