import TimedAutomata.Clause.Reader
import TimedAutomata.Declaration

/-!
# Reading networks

From a text in the notation to the automata it declares.

- `Automaton.addEdge`: the states of an edge, then its transition
- `Declaration.automaton`: one declaration
- `Network.read`: a whole text; labels have to be pairwise different
-/

namespace TimedAutomata

namespace Automaton

/-- Adds the states of an edge that are new, then its transition. -/
def addEdge (a : Automaton) (e : Edge) : Automaton :=
  let (a, start) := a.addState e.start
  let (a, target) := a.addState e.target
  (a.addTransition ⟨start, target, e.comm, e.guard, e.resets, e.span⟩).1

/-- The automaton with the given edges, in order. -/
def ofEdges (header : Header) (source : Clause) (edges : List Edge) : Automaton :=
  edges.foldl addEdge
    (single header.label header.initial (String.ofList source.text) source.span)

end Automaton

namespace Declaration

/-- The automaton that a declaration describes; the first clause at fault is reported. -/
def automaton (d : Declaration) : Except ReadError Automaton := do
  let header ← d.header.header
  let edges ← d.edges.mapM Clause.edge
  return Automaton.ofEdges header d.whole edges

end Declaration

namespace Network

/-- Adds the automaton of a declaration to those before it. -/
def declare (net : Network) (d : Declaration) : Except ReadError Network := do
  let a ← d.automaton
  if net.any (·.label == a.label) then throw ⟨.duplicateLabel a.label, d.header⟩
  return net ++ [a]

/-- The automata declared in a text, in order. -/
def read (text : String) : Except ReadError Network := do
  let declarations ← Declaration.scan text.toList
  declarations.foldlM declare []

end Network
end TimedAutomata
