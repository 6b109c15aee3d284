import TimedAutomata.Journal
import TimedAutomata.Network.Reader

/-!
# The journal of reading

One record for each edge read, one for each automaton, and the number of declarations before
them. Reading stops at the first error, and so does its journal.
-/

namespace TimedAutomata
namespace Network

open Journal (Record)

private def reading (level : Journal.Level) (text : String) : Record :=
  ⟨level, .reading, text⟩

def edgeRecord (label : String) (e : Edge) : Record :=
  reading .debug (label ++ ": parsed " ++ e.text)

def automatonRecord (a : Automaton) : Record :=
  reading .info <|
    "parsed automaton " ++ a.label ++ ": " ++ toString a.states.length ++ " state(s), " ++
      toString a.transitions.length ++ " transition(s), end states [" ++
      Sequence.joinWith ", " (a.endStates.map a.stateName) ++ "]"

/-- The edges of a declaration before the first clause at fault. -/
def readableEdges : List Clause → List Edge
  | [] => []
  | c :: cs =>
    match c.edge with
    | .ok e => e :: readableEdges cs
    | .error _ => []

/-- The records of the declarations that follow `net`. -/
def declarationRecords : Network → List Declaration → List Record
  | _, [] => []
  | net, d :: ds =>
    let edges := match d.header.header with
      | .ok h => (readableEdges d.edges).map (edgeRecord h.label)
      | .error _ => []
    match net.declare d with
    | .ok net => edges ++ (net.getLast?.map automatonRecord).toList ++ declarationRecords net ds
    | .error _ => edges

/-- What reading a text reports. -/
def readJournal (text : String) : List Record :=
  match Declaration.scan text.toList with
  | .error _ => []
  | .ok declarations =>
    reading .info ("found " ++ toString declarations.length ++ " automaton declaration(s)") ::
      declarationRecords [] declarations

end Network
end TimedAutomata
