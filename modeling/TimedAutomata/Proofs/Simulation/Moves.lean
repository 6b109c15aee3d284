import TimedAutomata.Proofs.Compilation.Analysis
import TimedAutomata.Simulation.Basic

/-!
# Moves

A turn of an automaton in a state with outgoing transitions: the arbiter selects an enabled
transition, and the simulation moves along it.

* `Move`, `Move.ofOrdinal?`: what a transition does, and the transition with a given ordinal
* `Simulation.move?`: the move that an automaton makes, by its source of random words
* `Simulation.turn_eq_moved`: a turn makes this move and no other change
-/

namespace TimedAutomata

/-! ## Outgoing transitions -/

namespace Automaton

theorem outgoing_eq {a : Automaton} {sid : StateId} {s : State} (hs : a.states[sid]? = some s) :
    a.outgoing sid = s.outgoing := by
  simp [outgoing, outgoing?, hs]

end Automaton

/-! ## Moves -/

namespace Simulation

/-- A transition taken: its ordinal, what it does over which channel, and where it leads. -/
structure Move where
  ordinal : Nat
  direction : Direction
  channel : ChannelId
  target : StateId
  resets : Bool
  deriving DecidableEq, Repr

/-- The move along the transition with a given ordinal. -/
def Move.ofOrdinal? (p : Program) (aid : AutomatonId) (a : Automaton) (sid : StateId)
    (ordinal : Nat) : Option Move := do
  let tid ← (a.outgoing sid)[ordinal]?
  let t ← a.transitions[tid]?
  let channel ← p.topology.channelOf? aid tid
  return ⟨ordinal, t.comm.direction, channel, t.target, t.resets⟩

/-- The move that an automaton makes in its turn, if it makes one, when random words come from
`source`. There is no answer if the draw among them has no end. -/
def move? (p : Program) (s : Simulation) (aid : AutomatonId) (a : Automaton)
    (source : Random.Source) : Option (Option Move) :=
  let r := s.runner aid
  match p.policy.arbiter? aid r.state with
  | none => some none
  | some arbiter =>
    (arbiter.select (s.enabled p aid a (s.now - r.epoch)) source).map fun d =>
      d.1.bind (Move.ofOrdinal? p aid a r.state)

/-- The simulation after a move of an automaton. -/
def moved (s : Simulation) (aid : AutomatonId) : Option Move → Simulation
  | none => s
  | some v =>
    let r := s.runner aid
    let epoch := if v.resets then s.now else r.epoch
    { s with
      fill := s.fill.set v.channel (transfer v.direction (s.fillOf v.channel))
      runners := s.runners.set aid { r with state := v.target, epoch } }

/-- A choice is followed by the move along it. -/
theorem follow_eq_moved {p : Program} (hp : p.Analyzed) {aid : AutomatonId} {a : Automaton}
    (ha : p.network[aid]? = some a) {sid : StateId} {s : State} (hs : a.states[sid]? = some s)
    {sim : Simulation} (hsid : (sim.runner aid).state = sid) (x : Nat) (choice : Option Nat) :
    (sim.follow p aid a x choice).1 = sim.moved aid (choice.bind (Move.ofOrdinal? p aid a sid)) ∧
      (sim.follow p aid a x choice).2.isSome =
        (choice.bind (Move.ofOrdinal? p aid a sid)).isSome := by
  have houtgoing := Automaton.outgoing_eq hs
  cases choice with
  | none => exact ⟨rfl, rfl⟩
  | some ordinal =>
    simp only [follow, hsid, Option.bind_some, Move.ofOrdinal?, houtgoing, Option.bind_eq_bind]
    cases htid : s.outgoing[ordinal]? with
    | none => exact ⟨rfl, rfl⟩
    | some tid =>
      -- a transition has a channel, so the move exists whenever the transition does
      rcases (hp.wellFormed ha).exists_transition hs (List.mem_of_getElem? htid) with ⟨t, ht⟩
      rcases hp.binds.bound ha ht with ⟨c, hc, -⟩
      simp only [Option.bind_some, ht, hc, perform]
      exact ⟨rfl, rfl⟩

/-- Up to the words drawn, a turn is the move of the automaton; without an answer to what the move
is, the turn has no result. -/
theorem turn_eq_moved {p : Program} (hp : p.Analyzed) {aid : AutomatonId} {a : Automaton}
    (ha : p.network[aid]? = some a) {sid : StateId} {s : State} (hs : a.states[sid]? = some s)
    (hout : s.outgoing ≠ []) {sim : Simulation} {epoch : Nat}
    (hrunner : sim.runner aid = ⟨sid, epoch, false⟩) (source : Random.Source) :
    (sim.move? p aid a source = none → { sim with source }.turn p aid a = none) ∧
    ∀ v, sim.move? p aid a source = some v →
      ∃ rest event, { sim with source }.turn p aid a =
        some ({ sim.moved aid v with source := rest }, event) ∧ event.isSome = v.isSome := by
  have hrunner' : { sim with source }.runner aid = ⟨sid, epoch, false⟩ := hrunner
  rcases hp.arbiter ha hs hout with ⟨arbiter, harbiter, -⟩
  have henabled : { sim with source }.enabled p aid a (sim.now - epoch) =
      sim.enabled p aid a (sim.now - epoch) := rfl
  have hnotEmpty : s.outgoing.isEmpty = false := by simpa using hout
  unfold turn move?
  simp only [hrunner', hrunner, Automaton.outgoing_eq hs, hnotEmpty, harbiter, henabled,
    Bool.false_eq_true, if_false]
  cases hselect : arbiter.select (sim.enabled p aid a (sim.now - epoch)) source with
  | none => exact ⟨fun _ => rfl, by simp⟩
  | some decision =>
    rcases decision with ⟨choice, rest⟩
    refine ⟨by simp, ?_⟩
    rintro v hv
    obtain rfl : choice.bind (Move.ofOrdinal? p aid a sid) = v := by simpa using hv
    have hstate : ({ sim with source := rest }.runner aid).state = sid :=
      congrArg Runner.state hrunner
    rcases follow_eq_moved hp ha hs hstate (sim.now - epoch) choice with ⟨hmoved, hsome⟩
    refine ⟨rest, _, congrArg some (Prod.ext ?_ rfl), hsome⟩
    rw [hmoved]
    cases choice.bind (Move.ofOrdinal? p aid a sid) <;> rfl

end Simulation
end TimedAutomata
