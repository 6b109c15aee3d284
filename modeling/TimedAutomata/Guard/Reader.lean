import TimedAutomata.Grammar.Rules
import TimedAutomata.Guard.Precedence
import TimedAutomata.Guard.Printer
import TimedAutomata.Text.Blank

/-!
# Reading guards

A guard is a flat sequence of comparisons, each behind any number of `!`, with `&&` or `||` between
them; `grouped` makes an expression of it. A comparison is a chain of operands: `x`, a number,
`true`, `false` or a guard in parentheses. A chain `a < b <= c` says `a < b && b <= c`.

Reading finds the shape of a text first. A text of the right shape may still have no meaning, for
instance `3 && x`; the readers below therefore return an `Except Fault` together with the rest of
the text, and of two faults the one further left wins.

- `Fault`: why a text of the right shape is not a guard
- `Guard.Error`: why a text is not a guard, with its wording
- `operand?`, `comparison?`, `factor?`, `expression?`: the readers of the pieces
- `Guard.read`: the reader
-/

namespace TimedAutomata
namespace Guard

open Grammar

/-! ## Faults -/

/-- The largest number that a guard may mention: the clock is a signed 64-bit number. -/
def largestNumber : Nat := 9223372036854775807

inductive Fault where
  /-- A number above `largestNumber`. -/
  | tooLarge (digits : List Char)
  /-- A number where a condition belongs. -/
  | notCondition (term : Term)
  /-- A condition as an operand of the comparison with this text. -/
  | notTerm (comparison : List Char)
  deriving DecidableEq, Repr

namespace Fault

def message : Fault → String
  | .tooLarge digits =>
    "invalid integer `" ++ String.ofList digits ++ "`: number too large to fit in target type"
  | .notCondition term =>
    let t := String.ofList term.chars
    "`" ++ t ++ "` is a number, not a condition (compare it, e.g. `" ++ t ++ " < 10`)"
  | .notTerm comparison =>
    "in `" ++ String.ofList comparison ++
      "`: comparison operands must be the clock `x` or integer literals"

end Fault

inductive Error where
  /-- The text has not the shape of a guard. -/
  | unexpected (expected : Expected)
  | fault (fault : Fault)
  deriving Repr

namespace Error

def message : Error → String
  | .unexpected e => e.message
  | .fault f => f.message

end Error

/-! ## Operands and comparisons -/

/-- What an operand turned out to be. -/
inductive Operand where
  | term (term : Term)
  | condition (expr : Expr)
  deriving DecidableEq, Repr

/-- The number that decimal digits stand for. -/
def numeral (digits : List Char) : Nat :=
  digits.foldl (fun n c => 10 * n + (c.toNat - '0'.toNat)) 0

def numberOperand (digits : List Char) : Except Fault Operand :=
  if numeral digits ≤ largestNumber then .ok (.term (.number (numeral digits)))
  else .error (.tooLarge digits)

/-- The operand that a word stands for. -/
def wordOperand? (word : List Char) : Option (Except Fault Operand) :=
  if word = ['x'] then some (.ok (.term .clock))
  else if word.all Char.isDigit then some (numberOperand word)
  else if word = ['t', 'r', 'u', 'e'] then some (.ok (.condition (.const true)))
  else if word = ['f', 'a', 'l', 's', 'e'] then some (.ok (.condition (.const false)))
  else none

def relation? : List Char → Option (Relation × List Char)
  | '<' :: '=' :: cs => some (.le, cs)
  | '>' :: '=' :: cs => some (.ge, cs)
  | '=' :: '=' :: cs => some (.eq, cs)
  | '!' :: '=' :: cs => some (.ne, cs)
  | '<' :: cs => some (.lt, cs)
  | '>' :: cs => some (.gt, cs)
  | _ => none

/-- The terms among the operands; a condition is a fault of the comparison written as `text`. -/
def Operand.toTerm (text : List Char) : Operand → Except Fault Term
  | .term t => .ok t
  | .condition _ => .error (.notTerm text)

/-- The conjunction of the comparisons of neighbours, grouped to the left. -/
def chain (left : Term) : List (Relation × Term) → Expr → Expr
  | [], e => e
  | (r, right) :: links, e => chain right links (.and e (.compare r left right))

/-- What a comparison says. All operands are looked at, from left to right, before their kinds. -/
def comparison (text : List Char) (first : Except Fault Operand)
    (links : List (Relation × Except Fault Operand)) : Except Fault Expr := do
  let first ← first
  let links ← links.mapM fun (r, o) => return (r, ← o)
  match links with
  | [] =>
    match first with
    | .condition e => return e
    | .term t => throw (.notCondition t)
  | links =>
    let first ← first.toTerm text
    let links ← links.mapM fun (r, o) => return (r, ← o.toTerm text)
    match links with
    | [] => throw (.notCondition first)
    | (r, second) :: links => return chain second links (.compare r first second)

/-! ## The readers -/

def join? (cs : List Char) : Option (Join × List Char) :=
  match literal? Join.or.symbol cs with
  | some rest => some (.or, rest)
  | none => (literal? Join.and.symbol cs).map fun rest => (.and, rest)

/-- As many items as there are, each behind an operator, up to `limit`. An operator that no item
follows is left in the text. -/
def behind {σ τ : Type} (operator? : List Char → Option (σ × List Char))
    (item? : List Char → Option (τ × List Char)) :
    (limit : Nat) → List Char → List (σ × τ) × List Char
  | 0, cs => ([], cs)
  | limit + 1, cs =>
    match operator? (skipSpaces cs) with
    | none => ([], cs)
    | some (operator, after) =>
      match item? (skipSpaces after) with
      | none => ([], cs)
      | some (item, after) =>
        let (more, rest) := behind operator? item? limit after
        ((operator, item) :: more, rest)

mutual

/-- `x`, a number, a constant, or a guard in parentheses. -/
def operand? : (fuel : Nat) → List Char → Option (Except Fault Operand × List Char)
  | 0, _ => none
  | fuel + 1, cs =>
    match cs with
    | '(' :: cs => do
      let (inner, cs) ← expression? fuel (skipSpaces cs)
      let cs ← literal? [')'] (skipSpaces cs)
      return (inner.map .condition, cs)
    | cs => do
      let (word, cs) ← word? cs
      return (← wordOperand? word, cs)

def comparison? : (fuel : Nat) → List Char → Option (Except Fault Expr × List Char)
  | 0, _ => none
  | fuel + 1, cs => do
    let (first, after) ← operand? fuel cs
    let (links, rest) := behind relation? (operand? fuel) after.length after
    return (comparison (cs.take (cs.length - rest.length)) first links, rest)

/-- Any number of `!`, none of them the start of `!=`, and a comparison. -/
def factor? : (fuel : Nat) → List Char → Option (Factor Fault × List Char)
  | 0, _ => none
  | fuel + 1, cs =>
    match cs with
    | '!' :: '=' :: _ => none
    | '!' :: cs => do
      let (factor, rest) ← factor? fuel (skipSpaces cs)
      return (⟨factor.nots + 1, factor.operand⟩, rest)
    | cs => do
      let (operand, rest) ← comparison? fuel cs
      return (⟨0, operand⟩, rest)

/-- Comparisons with their negations and the joins between them, grouped by precedence. -/
def expression? : (fuel : Nat) → List Char → Option (Except Fault Expr × List Char)
  | 0, _ => none
  | fuel + 1, cs => do
    let (first, after) ← factor? fuel cs
    let (further, rest) := behind join? (factor? fuel) after.length after
    return (grouped first further, rest)

end

/-- More than the depth that reading `cs` can reach: at most four calls are nested for each
character read. -/
def depthBound (cs : List Char) : Nat :=
  8 * (cs.length + 1)

/-- What a whole text says, if it has the shape of a guard. -/
def meaning? (cs : List Char) : Option (Except Fault Expr) :=
  match expression? (depthBound cs) cs with
  | some (e, []) => some e
  | _ => none

/-- Reads a guard. A blank text is the guard that always holds. -/
def read (cs : List Char) : Except Error Guard :=
  let cs := Text.trim cs
  if cs.isEmpty then .ok always
  else
    match meaning? cs with
    | some (.ok e) => .ok ⟨String.ofList cs, e⟩
    | some (.error f) => .error (.fault f)
    | none => .error (.unexpected (expected .guard cs))

end Guard
end TimedAutomata
