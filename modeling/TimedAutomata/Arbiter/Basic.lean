import TimedAutomata.Random.Source

/-!
# Arbiters

An arbiter decides which of the enabled transitions of a state is taken. Each transition has a
priority class; transitions of equal class form a tier, and the first tier with an enabled member
decides.

- `PriorityClass`: exclusive transitions come first, then ranks from low to high, then the rest
- `Tier`, `Arbiter.tiers`: the order in which the transitions are considered
- `Arbiter.select`: the decision. Ties among exclusive transitions go to the earliest declared,
  other ties to chance; if chance never decides, there is no decision.
-/

namespace TimedAutomata

inductive PriorityClass where
  | exclusive
  | ranked (rank : Nat)
  | default
  deriving DecidableEq, Repr, Inhabited

namespace PriorityClass

def rank? : PriorityClass → Option Nat
  | .ranked r => some r
  | _ => none

/-- The class as it is written in the journal. -/
def text : PriorityClass → String
  | .exclusive => "Exclusive"
  | .ranked r => "Ranked(" ++ toString r ++ ")"
  | .default => "Default"

end PriorityClass

inductive TieBreak where
  | first
  | random
  deriving DecidableEq, Repr, Inhabited

/-- Transitions of equal priority, by their ordinals in ascending order. -/
structure Tier where
  tieBreak : TieBreak
  ordinals : List Nat
  deriving DecidableEq, Repr, Inhabited

/-- The class of each outgoing transition of a state. -/
structure Arbiter where
  classes : List PriorityClass
  deriving DecidableEq, Repr, Inhabited

namespace Arbiter

/-- The ordinals of the transitions with a given class. -/
def ordinalsOf (classes : List PriorityClass) (c : PriorityClass) : List Nat :=
  (classes.zipIdx.filter fun x => x.1 = c).map Prod.snd

/-- The ranks that occur, each once, ascending. -/
def ranks (classes : List PriorityClass) : List Nat :=
  (classes.filterMap PriorityClass.rank?).mergeSort.eraseReps

/-- The classes that can occur, in order of priority. -/
def priorities (classes : List PriorityClass) : List PriorityClass :=
  .exclusive :: (ranks classes).map .ranked ++ [.default]

def tieBreakOf : PriorityClass → TieBreak
  | .exclusive => .first
  | _ => .random

/-- The tiers in order of priority; a class without members has none. -/
def tiers (a : Arbiter) : List Tier :=
  ((priorities a.classes).map fun c => ⟨tieBreakOf c, ordinalsOf a.classes c⟩).filter
    fun t => !t.ordinals.isEmpty

/-- The enabled members of a tier. -/
def candidates (enabled : List Bool) (t : Tier) : List Nat :=
  t.ordinals.filter fun i => enabled.getD i false

/-- The decision among tiers, and the random words that it leaves. The source is drawn from only
where chance breaks a tie; there the draw may have no end. -/
def selectFrom (enabled : List Bool) (s : Random.Source) :
    List Tier → Option (Option Nat × Random.Source)
  | [] => some (none, s)
  | t :: ts =>
    match candidates enabled t, t.tieBreak with
    | [], _ => selectFrom enabled s ts
    | [i], _ => some (some i, s)
    | i :: _, .first => some (some i, s)
    | is, .random => do
      let (k, s) ← s.below? is.length
      return (is[k]?, s)

/-- The ordinal of the transition to take, if any transition is enabled. -/
def select (a : Arbiter) (enabled : List Bool) (s : Random.Source) :
    Option (Option Nat × Random.Source) :=
  selectFrom enabled s a.tiers

/-- `select`, if the mask has one entry for each transition. -/
def select? (a : Arbiter) (enabled : List Bool) (s : Random.Source) :
    Option (Option (Option Nat × Random.Source)) :=
  if enabled.length = a.classes.length then some (a.select enabled s) else none

end Arbiter
end TimedAutomata
