import TimedAutomata.Journal
import TimedAutomata.Policy.Basic

/-!
# The journal of arbitration

One record for each entry that settles a state, and the number of arbiters at the end.
-/

namespace TimedAutomata
namespace Policy

open Journal (Record)

/-- The record of a state that an entry has settled. -/
def settledRecord (net : Network) (x : StateKey × Arbiter) : Record :=
  let a := net.getD x.1.1 default
  ⟨.debug, .arbitration, a.label ++ "." ++ a.stateName x.1.2 ++ ": [" ++
    Sequence.joinWith ", " (x.2.classes.map PriorityClass.text) ++ "]"⟩

/-- What resolving the policy of a network reports. -/
def journal (net : Network) (entries : List ArbitrationEntry) : List Record :=
  (entryDraft net entries).arbiters.map (settledRecord net) ++
    match resolve net entries with
    | .ok p =>
      [⟨.info, .arbitration,
        "arbitration resolved for " ++ toString p.arbiters.length ++ " state(s)"⟩]
    | .error _ => []

end Policy
end TimedAutomata
