/-!
# Guards

Conditions on the clock of an automaton.

- `Relation`, `Term`: comparisons of the clock `x` and natural numbers
- `Guard.Expr`: constants and comparisons under negation, conjunction and disjunction
- `Guard.Expr.holds`: the meaning of a guard at a clock value
- `Guard`: an expression together with the text it was written as
-/

namespace TimedAutomata

inductive Relation where
  | lt | le | gt | ge | eq | ne
  deriving DecidableEq, Repr, Inhabited

namespace Relation

def symbol : Relation → List Char
  | .lt => ['<']
  | .le => ['<', '=']
  | .gt => ['>']
  | .ge => ['>', '=']
  | .eq => ['=', '=']
  | .ne => ['!', '=']

def holds : Relation → Nat → Nat → Bool
  | .lt, a, b => a < b
  | .le, a, b => a ≤ b
  | .gt, a, b => a > b
  | .ge, a, b => a ≥ b
  | .eq, a, b => a == b
  | .ne, a, b => a != b

end Relation

/-- One side of a comparison. -/
inductive Term where
  | clock
  | number (value : Nat)
  deriving DecidableEq, Repr, Inhabited

namespace Term

/-- The value of a term when the clock shows `x`. -/
def value (x : Nat) : Term → Nat
  | .clock => x
  | .number n => n

end Term

namespace Guard

inductive Expr where
  | const (value : Bool)
  | compare (relation : Relation) (left right : Term)
  | not (inner : Expr)
  | and (left right : Expr)
  | or (left right : Expr)
  deriving DecidableEq, Repr, Inhabited

namespace Expr

/-- Whether the guard holds when the clock shows `x`. -/
def holds (x : Nat) : Expr → Bool
  | .const b => b
  | .compare r left right => r.holds (left.value x) (right.value x)
  | .not e => !e.holds x
  | .and left right => left.holds x && right.holds x
  | .or left right => left.holds x || right.holds x

end Expr

end Guard

/-- A guard as written, without blank ends, and what it says. -/
structure Guard where
  text : String
  expr : Guard.Expr
  deriving DecidableEq, Repr, Inhabited

namespace Guard

/-- The guard of empty parentheses. -/
def always : Guard := ⟨"", .const true⟩

/-- Whether the guard holds when the clock shows `x`. -/
def holds (g : Guard) (x : Nat) : Bool :=
  g.expr.holds x

end Guard
end TimedAutomata
