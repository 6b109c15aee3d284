import TimedAutomata.Policy.Basic

/-!
# Programs

A network with its channels and arbiters: what is simulated, and what code is generated from.
-/

namespace TimedAutomata

structure Program where
  network : Network
  topology : Topology
  policy : Policy
  deriving DecidableEq, Repr, Inhabited

end TimedAutomata
