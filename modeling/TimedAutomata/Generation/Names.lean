import TimedAutomata.Program.Basic

/-!
# Names in generated programs

Workers, message types and channels have names made from labels and payloads. A name must stand
for one thing only.

- `workerName`, `payloadType`, `Route.name`: the names
- `Owner`: what a name stands for
- `Collision`, `collisions`: names that would stand for two things
-/

namespace TimedAutomata
namespace Generation

/-- The function that runs the automaton with a given label. -/
def workerName (label : String) : String :=
  "run_" ++ label

/-- The type of the messages with a given payload. -/
def payloadType (payload : String) : String :=
  "msg_" ++ payload

/-- What a generated name stands for. -/
inductive Owner where
  | worker (label : String)
  | message (payload : String)
  | channel (route : Route)
  deriving DecidableEq, Repr

namespace Owner

def name : Owner → String
  | .worker label => workerName label
  | .message payload => payloadType payload
  | .channel r => r.name

def describe : Owner → String
  | .worker label => "automaton `" ++ label ++ "`"
  | .message payload => "payload `" ++ payload ++ "`"
  | .channel r => "channel " ++ r.sender ++ " -> " ++ r.receiver ++ " : " ++ r.payload

end Owner

/-- Two different things with the same name. -/
structure Collision where
  first : Owner
  second : Owner
  deriving DecidableEq, Repr

namespace Collision

def message (c : Collision) : String :=
  "generated name `" ++ c.second.name ++ "` is used by both " ++ c.first.describe ++ " and " ++
    c.second.describe

end Collision

/-- Everything in a program that gets a name. -/
def owners (p : Program) : List Owner :=
  p.network.map (fun a => .worker a.label) ++ p.topology.payloads.map .message ++
    p.topology.routes.map .channel

/-- One collision for each owner whose name belongs to another one before it. The first owner
keeps the name. -/
def collisionsFrom (known : List Owner) : List Owner → List Collision
  | [] => []
  | o :: os =>
    match known.find? fun k => k.name == o.name with
    | none => collisionsFrom (known ++ [o]) os
    | some k => if k = o then collisionsFrom known os else ⟨k, o⟩ :: collisionsFrom known os

def collisions (p : Program) : List Collision :=
  collisionsFrom [] (owners p)

end Generation
end TimedAutomata
