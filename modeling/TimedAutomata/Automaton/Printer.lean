import TimedAutomata.Automaton.Basic
import TimedAutomata.Guard.Printer
import TimedAutomata.Sequence

/-!
# Printing automata

Automata in their own notation: a header clause and one clause for each transition, each closed
by a semicolon.

- `edgeText`: a transition, with its states given by name
- `Automaton.text?`: an automaton; there is none if it mentions a state it does not have
- `Network.text?`: several automata, with an empty line between them
-/

namespace TimedAutomata

/-- A transition from `start` to `target`, as in `a0 B!x(x < 3,{x}) a1`. -/
def edgeText (start target : String) (comm : Communication) (guard : Guard.Expr)
    (resets : Bool) : String :=
  start ++ " " ++ comm.text ++ "(" ++ guard.text ++ (if resets then ",\x7bx\x7d" else "") ++ ") "
    ++ target

namespace Automaton

def transitionText? (a : Automaton) (t : Transition) : Option String := do
  let start ← a.stateName? t.start
  let target ← a.stateName? t.target
  return edgeText start target t.comm t.guard.expr t.resets

/-- The text of the transition with a given position. -/
def edgeText? (a : Automaton) (id : TransitionId) : Option String := do
  a.transitionText? (← a.transitions[id]?)

def text? (a : Automaton) : Option String := do
  let initial ← a.stateName? a.initial
  let edges ← a.transitions.mapM a.transitionText?
  return "Cta " ++ a.label ++ " = Init " ++ initial ++ ";\n" ++
    String.join (edges.map fun e => "    " ++ e ++ ";\n")

end Automaton

/-- Automata that talk to each other, in the order they were declared. -/
abbrev Network := List Automaton

namespace Network

def text? (net : Network) : Option String := do
  return Sequence.joinWith "\n" (← net.mapM Automaton.text?)

end Network
end TimedAutomata
