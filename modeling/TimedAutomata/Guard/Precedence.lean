import TimedAutomata.Guard.Basic

/-!
# Operator precedence

A guard without its parentheses is a flat sequence: operands, each behind some number of `!`, with
`&&` or `||` between neighbours. Which connective takes which operands is decided afterwards, by
climbing through the sequence with the powers of a table.

- `Connective.table`: the connectives, from the loosest to the tightest
- `Factor`: an operand behind its negations
- `climb`, `extend`: one part of a sequence, as far as its connectives bind tightly enough
- `grouped`: the guard that a whole sequence stands for

Operands may have failed to stand for anything. Of two failures, the one further left wins.
-/

namespace TimedAutomata
namespace Guard

/-- What stands between two operands. -/
inductive Join where
  | or
  | and
  deriving DecidableEq, Repr

namespace Join

def symbol : Join → List Char
  | .or => ['|', '|']
  | .and => ['&', '&']

def apply : Join → Expr → Expr → Expr
  | .or => .or
  | .and => .and

end Join

inductive Connective where
  | join (join : Join)
  | not
  deriving DecidableEq, Repr

namespace Connective

/-- The connectives, from the loosest to the tightest. -/
def table : List Connective := [.join .or, .join .and, .not]

/-- How tightly a connective binds. Every connective binds tighter than 0. -/
def power (c : Connective) : Nat :=
  10 * (table.idxOf c + 1)

end Connective

variable {ε : Type}

/-- An operand behind `nots` negations. -/
structure Factor (ε : Type) where
  nots : Nat
  operand : Except ε Expr

/-- What stands behind the first operand: the others, each with the join before it. -/
abbrev Further (ε : Type) := List (Join × Factor ε)

/-- Both sides of a join, the left side's failure first. -/
def both (join : Join) (left right : Except ε Expr) : Except ε Expr := do
  let left ← left
  let right ← right
  return join.apply left right

mutual

/-- The part of a sequence that starts with the operand `first` and takes every connective of a
power above `least`, and what is left of the sequence. `fuel` bounds the depth. -/
def climb : (fuel least : Nat) → (first : Factor ε) → Further ε → Except ε Expr × Further ε
  | 0, _, first, rest => (first.operand, rest)
  | fuel + 1, least, ⟨0, operand⟩, rest => extend fuel least operand rest
  | fuel + 1, least, ⟨nots + 1, operand⟩, rest =>
    let (inner, rest) := climb fuel (Connective.not.power - 1) ⟨nots, operand⟩ rest
    extend fuel least (inner.map .not) rest

/-- Extends `left` by every join of a power above `least`. A join of the same power ends its right
side, so joins group to the left. -/
def extend : (fuel least : Nat) → (left : Except ε Expr) → Further ε → Except ε Expr × Further ε
  | 0, _, left, rest => (left, rest)
  | _ + 1, _, left, [] => (left, [])
  | fuel + 1, least, left, (join, factor) :: rest =>
    let power := (Connective.join join).power
    if least < power then
      let (right, rest) := climb fuel power factor rest
      extend fuel least (both join left right) rest
    else (left, (join, factor) :: rest)

end

/-- The depth that climbing through `rest` takes. -/
def weight : Further ε → Nat
  | [] => 0
  | (_, factor) :: rest => factor.nots + 2 + weight rest

/-- The guard that a sequence of operands stands for. -/
def grouped (first : Factor ε) (rest : Further ε) : Except ε Expr :=
  (climb (first.nots + weight rest + 2) 0 first rest).1

end Guard
end TimedAutomata
