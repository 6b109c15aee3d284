import TimedAutomata.Compilation.Basic
import TimedAutomata.Network.Journal
import TimedAutomata.Policy.Journal
import TimedAutomata.Topology.Resolver

/-!
# The journal of a compilation

The journals of the stages one after another, up to the one that fails.
-/

namespace TimedAutomata

open Journal (Record)

/-- The number of automata and channels of an analysed program. -/
def analysisRecord (p : Program) : Record :=
  ⟨.info, .compilation, "analyzed " ++ toString p.network.length ++ " automata with " ++
    toString p.topology.channels.length ++ " channel(s)"⟩

/-- What analysing a text reports. -/
def analysisJournal (text : String) (c : Config) : List Record :=
  Network.readJournal text ++
    match Network.read text with
    | .error _ => []
    | .ok net =>
      Topology.journal net ++
        match Topology.resolve net with
        | .error _ => []
        | .ok topology =>
          Policy.journal net c.arbitration ++
            match Policy.resolve net c.arbitration with
            | .error _ => []
            | .ok policy => [analysisRecord ⟨net, topology, policy⟩]

/-- What compiling a text reports. -/
def compileJournal (text : String) (c : Config) : List Record :=
  analysisJournal text c ++
    match analyze text c with
    | .error _ => []
    | .ok p => Generation.journal p c.emission

end TimedAutomata
