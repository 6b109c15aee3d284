import TimedAutomata.Proofs.Fallible
import TimedAutomata.Proofs.Simulation.Runs

/-!
# Turns with all checks

The simulation computes with words of 64 bits and looks things up by position. Here every
subtraction, addition and lookup is checked, and so is the length of the mask that an arbiter
gets. In an analysed program no check ever fails, and the results are those without checks; where
a draw has no end, there is no result either way. Runners and counters need no check of their
positions: a map with a default value holds them.

* `Fault`: what a check can find
* `Checked.turn`, `Checked.tick`, `Checked.ticks`, `Checked.run`: the simulation with checks
* `Checked.turn_eq_lift`: what a turn needs for its checks to succeed
* `Checked.ticks_eq_lift`, `Checked.run_eq_lift`: so do ticks and runs, up to a time
-/

namespace TimedAutomata

namespace Simulation

inductive Fault where
  | underflow
  | overflow
  | outOfRange
  /-- A mask does not have one entry for each transition. -/
  | mask
  deriving DecidableEq, Repr

/-- A computation with checks, and with draws that may have no end. -/
abbrev Check := ExceptT Fault Option

namespace Checked

/-! ## Checked operations -/

def sub (m n : Nat) : Except Fault Nat :=
  if n ≤ m then .ok (m - n) else .error .underflow

def add (m n : Nat) : Except Fault Nat :=
  if m + n < UInt64.size then .ok (m + n) else .error .overflow

def get {α : Type} (xs : List α) (i : Nat) : Except Fault α :=
  match xs[i]? with
  | some x => .ok x
  | none => .error .outOfRange

theorem sub_eq_ok {m n : Nat} (h : n ≤ m) : sub m n = .ok (m - n) :=
  if_pos h

theorem add_eq_ok {m n : Nat} (h : m + n < UInt64.size) : add m n = .ok (m + n) :=
  if_pos h

theorem get_eq_ok {α : Type} {xs : List α} {i : Nat} {x : α} (h : xs[i]? = some x) :
    get xs i = .ok x := by
  simp [get, h]

/-! ## The simulation with checks -/

def selectFrom (enabled : List Bool) (s : Random.Source) :
    List Tier → Check (Option Nat × Random.Source)
  | [] => return (none, s)
  | t :: ts =>
    let is := Arbiter.candidates enabled t
    match is.length, t.tieBreak with
    | 0, _ => selectFrom enabled s ts
    | 1, _ => do return (some (← get is 0), s)
    | _, .first => do return (some (← get is 0), s)
    | n, .random => do
      let (k, s) ← s.below? n
      return (some (← get is k), s)

def select (arbiter : Arbiter) (enabled : List Bool) (s : Random.Source) :
    Check (Option Nat × Random.Source) :=
  if enabled.length = arbiter.classes.length then selectFrom enabled s arbiter.tiers
  else throw .mask

def canTake (p : Program) (s : Simulation) (aid : AutomatonId) (a : Automaton) (x : Nat)
    (tid : TransitionId) : Except Fault Bool := do
  let t ← get a.transitions tid
  match p.topology.channelOf? aid tid with
  | some c => return s.ready t.comm.direction c && t.guard.holds x
  | none => return false

def enabled (p : Program) (s : Simulation) (aid : AutomatonId) (a : Automaton) (x : Nat)
    (tids : List TransitionId) : Except Fault (List Bool) :=
  tids.mapM (canTake p s aid a x)

def transfer (d : Direction) (n : Nat) : Except Fault Nat :=
  match d with
  | .send => add n 1
  | .receive => sub n 1

def perform (p : Program) (s : Simulation) (aid : AutomatonId) (tid : TransitionId)
    (t : Transition) : Except Fault Simulation := do
  let r := s.runner aid
  let fill ← match p.topology.channelOf? aid tid with
    | some c => (transfer t.comm.direction (s.fillOf c)).map (s.fill.set c)
    | none => .ok s.fill
  let epoch := if t.resets then s.now else r.epoch
  return { s with fill, runners := s.runners.set aid { r with state := t.target, epoch } }

def turn (p : Program) (s : Simulation) (aid : AutomatonId) (a : Automaton) :
    Check (Simulation × Option Event) := do
  let r := s.runner aid
  if r.halted then return (s, none)
  else
    let state ← get a.states r.state
    if state.outgoing.isEmpty then
      return (s.halt aid, some (.halted a.label state.name))
    else
      let x ← sub s.now r.epoch
      let enabled ← enabled p s aid a x state.outgoing
      match p.policy.arbiter? aid r.state with
      | none => return (s, none)
      | some arbiter =>
        let (choice, source) ← select arbiter enabled s.source
        match choice with
        | none => return ({ s with source }, none)
        | some ordinal =>
          let tid ← get state.outgoing ordinal
          let t ← get a.transitions tid
          let after ← perform p { s with source } aid tid t
          let target ← get a.states t.target
          return (after, some (.moved ⟨s.now, a.label, state.name, target.name, t.comm, x⟩))

def turns (p : Program) :
    Simulation → List (Automaton × AutomatonId) → Check (Simulation × List Event)
  | s, [] => return (s, [])
  | s, (a, aid) :: rest => do
    let (s, event) ← turn p s aid a
    let (s, events) ← turns p s rest
    return (s, event.toList ++ events)

def tick (p : Program) (s : Simulation) : Check (Simulation × List Event) := do
  let (s, events) ← turns p s p.network.zipIdx
  return ({ s with now := ← add s.now 1 }, events)

def ticks (p : Program) : (n : Nat) → Simulation → Check (Simulation × List Event)
  | 0, s => return (s, [])
  | n + 1, s => do
    let (s, first) ← tick p s
    let (s, more) ← ticks p n s
    return (s, first ++ more)

end Checked

/-- The loop of a run with checks. -/
def runSinceChecked (p : Program) (begin limit : Nat) (s : Simulation) :
    Check (Simulation × List Event) := do
  if s.allHalted then return (s, [])
  else if (← Checked.sub s.now begin) < limit then
    let (s, first) ← Checked.tick p s
    let (s, more) ← s |>.runSinceChecked p begin limit
    return (s, first ++ more)
  else return (s, [])
partial_fixpoint

namespace Checked

def run (p : Program) (limit : Nat) (s : Simulation) : Check (Simulation × List Event) :=
  s.runSinceChecked p s.now limit

/-! ## No check fails -/

section Lifting

variable {α β : Type}

/-- A check that succeeds is no step of its own. -/
@[simp] theorem liftM_ok_bind (a : α) (f : α → Check β) :
    (liftM (Except.ok a : Except Fault α) >>= f) = f a := rfl

@[simp] theorem lift_some_bind (a : α) (f : α → Check β) :
    (ExceptT.lift (some a) >>= f) = f a := rfl

/-- No check fails in two parts if none fails in the first, nor in the second from its results. -/
theorem lift_bind_eq_lift {x : Option α} {f : α → Check β} {g : α → Option β}
    (h : ∀ a, x = some a → f a = ExceptT.lift (g a)) :
    (ExceptT.lift x >>= f) = ExceptT.lift (x >>= g) := by
  cases x with
  | none => rfl
  | some a => exact h a rfl

end Lifting

/-- The candidate that chance decides on is one of the candidates. -/
theorem selectFrom_eq_lift (enabled : List Bool) (s : Random.Source) (ts : List Tier) :
    selectFrom enabled s ts = ExceptT.lift (Arbiter.selectFrom enabled s ts) := by
  induction ts with
  | nil => rfl
  | cons t ts ih =>
    unfold selectFrom Arbiter.selectFrom
    cases hcand : Arbiter.candidates enabled t with
    | nil => exact ih
    | cons i is =>
      cases is with
      | nil => cases t.tieBreak <;> rfl
      | cons j is =>
        cases t.tieBreak with
        | first => rfl
        | random =>
          simp only [List.length_cons]
          cases hbelow : s.below? (is.length + 1 + 1) with
          | none => rfl
          | some r =>
            -- chance gives a position below the number of candidates
            have hlt := Random.below?_lt (Nat.succ_pos _) hbelow
            have hget : (i :: j :: is)[r.1]? = some (i :: j :: is)[r.1] :=
              List.getElem?_eq_getElem hlt
            simp only [Option.bind_eq_bind, Option.bind_some, hget]
            exact congrArg (fun x : Except Fault Nat => (liftM x : Check Nat) >>= fun k =>
              pure (some k, r.2)) (get_eq_ok hget)

variable {p : Program} {s : Simulation} {aid : AutomatonId} {a : Automaton}

theorem canTake_eq_ok {tid : TransitionId} {t : Transition} (ht : a.transitions[tid]? = some t)
    (x : Nat) : canTake p s aid a x tid = .ok (s.canTake p aid a x tid) := by
  unfold canTake Simulation.canTake
  rw [get_eq_ok ht, ht]
  cases p.topology.channelOf? aid tid <;> rfl

theorem enabled_eq_ok {tids : List TransitionId}
    (h : ∀ tid ∈ tids, ∃ t, a.transitions[tid]? = some t) (x : Nat) :
    enabled p s aid a x tids = .ok (tids.map (s.canTake p aid a x)) := by
  rw [enabled, Fallible.mapM_eq_ok_iff, List.forall₂_map_right_iff, List.forall₂_same]
  intro tid htid
  rcases h tid htid with ⟨t, ht⟩
  exact canTake_eq_ok ht x

/-- A channel that is ready for a communication neither runs over nor dry. -/
theorem transfer_eq_ok {d : Direction} {c : ChannelId} (hready : s.ready d c = true)
    (hdepth : s.depth < UInt64.size) :
    transfer d (s.fillOf c) = .ok (Simulation.transfer d (s.fillOf c)) := by
  cases d with
  | send =>
    have hroom : s.fillOf c < s.depth := by simpa [ready] using hready
    exact add_eq_ok (Nat.lt_of_le_of_lt hroom hdepth)
  | receive =>
    have hsome : 0 < s.fillOf c := by simpa [ready] using hready
    exact sub_eq_ok hsome

theorem perform_eq_ok {tid : TransitionId} {t : Transition} {c : ChannelId}
    (hc : p.topology.channelOf? aid tid = some c) (hready : s.ready t.comm.direction c = true)
    (hdepth : s.depth < UInt64.size) : perform p s aid tid t = .ok (s.perform p aid tid t) := by
  unfold perform Simulation.perform
  simp only [hc, transfer_eq_ok hready hdepth]
  rfl

/-- In an analysed program, the checks of a turn succeed if the automaton is in a state of its
own, its last reset does not lie ahead, and the depth of channels is a word. -/
theorem turn_eq_lift (hp : p.Analyzed) (ha : p.network[aid]? = some a) (hs : s.Placed p)
    (hdepth : s.depth < UInt64.size) : turn p s aid a = ExceptT.lift (s.turn p aid a) := by
  obtain ⟨state, hstate⟩ : ∃ state, a.states[(s.runner aid).state]? = some state :=
    ⟨_, List.getElem?_eq_getElem (hs.state ha)⟩
  have hout := Automaton.outgoing_eq hstate
  have hname := Automaton.stateName_eq hstate
  cases hhalted : (s.runner aid).halted with
  | true =>
    simp only [turn, Simulation.turn, hhalted, if_true]
    rfl
  | false =>
    by_cases hnil : state.outgoing = []
    · simp only [turn, Simulation.turn, hhalted, Bool.false_eq_true, if_false, get_eq_ok hstate,
        liftM_ok_bind, hout, hname, hnil, List.isEmpty_nil, if_true]
      rfl
    · -- the arbiter gets a mask of the right length and selects what can be taken
      have hleaves : a.outgoing (s.runner aid).state ≠ [] := by rwa [hout]
      rcases exists_mask hp ha hleaves with ⟨arbiter, harbiter, hlength⟩
      have hnotEmpty : state.outgoing.isEmpty = false := by simpa using hnil
      have hmask : ∀ x, enabled p s aid a x state.outgoing = .ok (s.enabled p aid a x) := by
        intro x
        rw [Simulation.enabled, hout]
        exact enabled_eq_ok (fun tid htid => (hp.wellFormed ha).exists_transition hstate htid) x
      have hselect : ∀ x, select arbiter (s.enabled p aid a x) s.source =
          ExceptT.lift (arbiter.select (s.enabled p aid a x) s.source) := by
        intro x
        rw [select, if_pos (hlength x), selectFrom_eq_lift, Arbiter.select]
      rw [turn_eq_map hhalted hleaves harbiter]
      simp only [turn, hhalted, get_eq_ok hstate, hnotEmpty, Bool.false_eq_true, if_false,
        sub_eq_ok (hs.epoch aid), liftM_ok_bind, hmask, harbiter, hselect, clock]
      cases hdecision : arbiter.select
        (s.enabled p aid a (s.now - (s.runner aid).epoch)) s.source with
      | none => rfl
      | some d =>
        rcases d with ⟨choice, rest⟩
        rcases decision_cases (hlength _) hdecision with
          ⟨-, rfl, rfl⟩ | ⟨ordinal, tid, t, c, rfl, htid, ht, hc, -, hready⟩
        · rfl
        · -- the transition leads to a state of the automaton, over a channel that is ready
          have htarget := (hp.wellFormed ha).endpoints t (List.mem_of_getElem? ht)
          have hget := List.getElem?_eq_getElem htarget.2
          have hperform := perform_eq_ok (s := { s with source := rest }) hc hready hdepth
          have hordinal : state.outgoing[ordinal]? = some tid := by rwa [← hout]
          simp only [lift_some_bind, get_eq_ok hordinal, get_eq_ok ht, liftM_ok_bind, hperform,
            get_eq_ok hget, Option.map_some, follow, runner_withSource, htid, ht, hname,
            Automaton.stateName_eq hget]
          rfl

/-- Turns succeed one after another. -/
theorem turns_eq_lift (hp : p.Analyzed) {order : List (Automaton × AutomatonId)}
    (horder : ∀ x ∈ order, p.network[x.2]? = some x.1) (hs : s.Placed p)
    (hdepth : s.depth < UInt64.size) :
    turns p s order = ExceptT.lift (Simulation.turns p s order) := by
  induction order generalizing s with
  | nil => rfl
  | cons x order ih =>
    rcases x with ⟨a, aid⟩
    simp only [List.forall_mem_cons] at horder
    rw [turns, Simulation.turns, turn_eq_lift hp horder.1 hs hdepth]
    refine lift_bind_eq_lift fun r hturn => ?_
    have hframe := frame_turn hturn
    rcases r with ⟨middle, event⟩
    dsimp only
    rw [ih horder.2 (hs.turn hp horder.1 hturn) (by rwa [hframe.2])]
    exact lift_bind_eq_lift fun _ _ => rfl

theorem tick_eq_lift (hp : p.Analyzed) {o : Options} {n : Nat} {legs : List Leg}
    (h : Moment p o n 0 s legs) (hdepth : o.depth < UInt64.size) (hn : n + 1 < UInt64.size) :
    tick p s = ExceptT.lift (s.tick p) := by
  rcases h.frame with ⟨rfl, hdepths⟩
  have hturns := turns_eq_lift hp (fun x hx => List.mk_mem_zipIdx_iff_getElem?.1 hx) (h.placed hp)
    (by rwa [hdepths])
  rw [tick, Simulation.tick, hturns]
  refine lift_bind_eq_lift fun r hlast => ?_
  -- turns take no time
  rw [← now_turns hlast] at hn
  simp only [add_eq_ok hn]
  rfl

/-- Fewer than `2 ^ 64` ticks succeed. -/
theorem ticks_eq_lift (hp : p.Analyzed) {o : Options} {n k : Nat} {legs : List Leg}
    (h : Moment p o n 0 s legs) (hdepth : o.depth < UInt64.size) (hk : n + k < UInt64.size) :
    ticks p k s = ExceptT.lift (Simulation.ticks p k s) := by
  induction k generalizing n s legs with
  | zero => rfl
  | succ k ih =>
    rw [ticks, Simulation.ticks, tick_eq_lift hp h hdepth (by omega)]
    refine lift_bind_eq_lift fun r htick => ?_
    rcases r with ⟨middle, events⟩
    rcases h.tick hp htick with ⟨first, hfirst, -⟩
    dsimp only
    rw [ih hfirst (by omega)]
    exact lift_bind_eq_lift fun _ _ => rfl

end Checked
end Simulation
end TimedAutomata
