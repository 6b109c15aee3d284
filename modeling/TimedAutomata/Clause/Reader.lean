import TimedAutomata.Automaton.Printer
import TimedAutomata.Clause.Basic

/-!
# Reading clauses

The two kinds of clauses: the header `Cta A = Init a0`, which opens a declaration, and edges such
as `a0 B!x(x < 10,{x}) a1`.

- `header?`, `edge?`: the readers proper
- `Clause.header`, `Clause.edge`: the same, with a reason where they refuse. Three frequent
  mistakes have reasons of their own, looked for before the clause is read.
-/

namespace TimedAutomata

open Grammar

/-! ## Headers -/

/-- What the first clause of a declaration says. -/
structure Header where
  label : String
  initial : String
  deriving DecidableEq, Repr

def header? (cs : List Char) : Option Header := do
  let cs ← literal? ['C', 't', 'a'] (skipSpaces cs)
  let cs ← spaces? cs
  let (label, cs) ← word? cs
  let cs ← literal? ['='] (skipSpaces cs)
  let cs ← literal? ['I', 'n', 'i', 't'] (skipSpaces cs)
  let cs ← spaces? cs
  let (initial, cs) ← word? cs
  if (skipSpaces cs).isEmpty then some ⟨String.ofList label, String.ofList initial⟩ else none

/-- Whether the first word after the first `=` is `Init`; nothing is asked of a text without
`=`. -/
def namesInitial (cs : List Char) : Bool :=
  match cs.dropWhile (· != '=') with
  | [] => true
  | _ :: rest => Text.firstWord rest == ['I', 'n', 'i', 't']

/-! ## Edges -/

/-- A transition with its states given by name and its guard as written. -/
structure RawEdge where
  start : String
  target : String
  comm : Communication
  guard : List Char
  resets : Bool
  deriving DecidableEq, Repr

def direction? : List Char → Option (Direction × List Char)
  | '!' :: cs => some (.send, cs)
  | '?' :: cs => some (.receive, cs)
  | _ => none

/-- The text up to the parenthesis or comma that ends a guard, with parentheses inside it
balanced. A comma inside parentheses ends nothing and is not allowed; `depth` parentheses are
open. -/
def rawGuard? : (depth : Nat) → List Char → Option (List Char × List Char)
  | _, [] => none
  | depth, c :: cs =>
    match c, depth with
    | ')', 0 => some ([], c :: cs)
    | ',', 0 => some ([], c :: cs)
    | ',', _ + 1 => none
    | '(', depth => (rawGuard? (depth + 1) cs).map fun (g, rest) => (c :: g, rest)
    | ')', depth + 1 => (rawGuard? depth cs).map fun (g, rest) => (c :: g, rest)
    | _, depth => (rawGuard? depth cs).map fun (g, rest) => (c :: g, rest)

/-- The mark `,{x}` of a transition that resets the clock. -/
def reset? (cs : List Char) : Option (List Char) := do
  let cs ← literal? [','] cs
  let cs ← literal? ['\x7b'] (skipSpaces cs)
  let cs ← literal? ['x'] (skipSpaces cs)
  let cs ← literal? ['\x7d'] (skipSpaces cs)
  return skipSpaces cs

def edge? (cs : List Char) : Option RawEdge := do
  let (start, cs) ← word? (skipSpaces cs)
  let cs ← spaces? cs
  let (partner, cs) ← word? cs
  let (direction, cs) ← direction? (skipSpaces cs)
  let (payload, cs) ← word? (skipSpaces cs)
  let cs ← literal? ['('] (skipSpaces cs)
  let (guard, cs) ← rawGuard? 0 cs
  let (resets, cs) := match reset? cs with
    | some cs => (true, cs)
    | none => (false, cs)
  let cs ← literal? [')'] cs
  let (target, cs) ← word? (skipSpaces cs)
  if (skipSpaces cs).isEmpty then
    some {
      start := String.ofList start
      target := String.ofList target
      comm := ⟨direction, String.ofList partner, String.ofList payload⟩
      guard
      resets }
  else none

/-- A transition with its states given by name. -/
structure Edge where
  start : String
  target : String
  comm : Communication
  guard : Guard
  resets : Bool
  span : Span
  deriving DecidableEq, Repr

namespace Edge

def text (e : Edge) : String :=
  edgeText e.start e.target e.comm e.guard.expr e.resets

end Edge

/-! ## Clauses -/

namespace Clause

def header (c : Clause) : Except ReadError Header :=
  if namesInitial c.text then
    match header? c.text with
    | some h => .ok h
    | none => .error ⟨.malformed (expected .header c.text), c⟩
  else .error ⟨.missingInit, c⟩

def edge (c : Clause) : Except ReadError Edge :=
  let comm := c.text.takeWhile (· != '(')
  let group := c.text.dropWhile (· != '(')
  if !group.contains ')' then .error ⟨.missingGuard, c⟩
  else if !comm.contains '!' && !comm.contains '?' then .error ⟨.missingMarker, c⟩
  else
    match edge? c.text with
    | none => .error ⟨.malformed (expected .transition c.text), c⟩
    | some e =>
      match Guard.read e.guard with
      | .ok guard => .ok ⟨e.start, e.target, e.comm, guard, e.resets, c.span⟩
      | .error reason => .error ⟨.invalidGuard reason, c⟩

end Clause
end TimedAutomata
