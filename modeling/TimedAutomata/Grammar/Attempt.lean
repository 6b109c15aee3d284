/-!
# Attempts

When a text is not in a grammar, the explanation names the rules that were tried and failed at
the furthest position reached.

- `Attempts`: that position and the rules tried there, in order
- `Attempts.failed`: how one failing rule changes the record. A rule stands for the rules tried
  inside it at the same position, unless exactly one was: then that one is the better explanation.
- `expectation`: the list of rules in words
-/

namespace TimedAutomata
namespace Grammar

/-- The furthest position at which a rule failed, and the rules that failed there. -/
structure Attempts (ρ : Type) where
  furthest : Nat
  rules : List ρ
  deriving Repr, Inhabited

namespace Attempts

variable {ρ : Type}

def empty : Attempts ρ := ⟨0, []⟩

/-- The number of rules on record for position `p`. -/
def countAt (a : Attempts ρ) (p : Nat) : Nat :=
  if p = a.furthest then a.rules.length else 0

/-- The record after `rule` has failed at `p`, when `before` rules were on record for `p` as it
was entered. -/
def failed (a : Attempts ρ) (rule : ρ) (p before : Nat) : Attempts ρ :=
  if a.countAt p = before + 1 then a
  else if p = a.furthest then ⟨p, a.rules.take before ++ [rule]⟩
  else if a.furthest < p then ⟨p, [rule]⟩
  else a

end Attempts

/-- An English enumeration: `A`, `A or B`, `A, B, or C`. -/
def alternatives : List String → String
  | [] => ""
  | [a] => a
  | [a, b] => a ++ " or " ++ b
  | names => ", ".intercalate names.dropLast ++ ", or " ++ names.getLast?.getD ""

/-- The sentence that lists what could have come next. -/
def expectation (names : List String) : String :=
  "expected " ++ alternatives names

end Grammar
end TimedAutomata
