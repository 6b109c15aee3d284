import TimedAutomata.Grammar.Attempt

/-!
# Parsing expressions

Grammars in which choice is ordered and repetition is greedy, followed over a text to find out
where and why the text leaves them. `explain` is used only for texts that a reader has refused;
it yields the rules that failed at the furthest position.

- `Expression ρ`: expressions over rules named by `ρ`
- `Grammar.Table ρ`: what each rule stands for, and which rules are atomic: inside an atomic rule
  no attempts are recorded
- `follow`: one pass over a text
- `explain`: the attempts of a pass that starts at a given rule
-/

namespace TimedAutomata
namespace Grammar

inductive Expression (ρ : Type) where
  /-- One character of a class. -/
  | one (accepts : Char → Bool)
  /-- A fixed text. -/
  | text (lit : List Char)
  /-- The end of the text. -/
  | finish
  | seq (first second : Expression ρ)
  /-- The second only if the first does not match. -/
  | alt (first second : Expression ρ)
  /-- As often as it matches. -/
  | many (body : Expression ρ)
  | optional (body : Expression ρ)
  /-- Matches without reading, where `body` does not match. -/
  | absent (body : Expression ρ)
  | rule (name : ρ)

namespace Expression

variable {ρ : Type}

/-- One or more times. -/
def oneOrMore (e : Expression ρ) : Expression ρ := .seq e (.many e)

/-- One after another; the empty list is the empty text. -/
def inOrder : List (Expression ρ) → Expression ρ
  | [] => .text []
  | [e] => e
  | e :: es => .seq e (inOrder es)

/-- The first that matches. -/
def firstOf : List (Expression ρ) → Expression ρ
  | [] => .one fun _ => false
  | [e] => e
  | e :: es => .alt e (firstOf es)

end Expression

/-- The rules of a grammar. -/
structure Table (ρ : Type) where
  body : ρ → Expression ρ
  atomic : ρ → Bool

/-- A position in a text, in bytes, and the text from there on. -/
structure Place where
  offset : Nat
  rest : List Char
  deriving Repr, Inhabited

/-- The place after `lit`, if the text continues with it. -/
def Place.after? : List Char → Place → Option Place
  | [], p => some p
  | _ :: _, ⟨_, []⟩ => none
  | l :: lit, ⟨n, c :: cs⟩ =>
    if l = c then Place.after? lit ⟨n + c.utf8Size, cs⟩ else none

variable {ρ : Type}

/-- Follows an expression from a place. The attempts are kept along every path, also those given
up; while `quiet`, nothing is recorded. `fuel` bounds the depth. -/
def follow (g : Table ρ) :
    (fuel : Nat) → (quiet : Bool) → Expression ρ → Place → Attempts ρ → Option Place × Attempts ρ
  | 0, _, _, _, a => (none, a)
  | fuel + 1, quiet, e, p, a =>
    match e with
    | .one accepts =>
      match p.rest with
      | c :: cs => (if accepts c then some ⟨p.offset + c.utf8Size, cs⟩ else none, a)
      | [] => (none, a)
    | .text lit => (p.after? lit, a)
    | .finish => (if p.rest.isEmpty then some p else none, a)
    | .seq first second =>
      match follow g fuel quiet first p a with
      | (some q, a) => follow g fuel quiet second q a
      | (none, a) => (none, a)
    | .alt first second =>
      match follow g fuel quiet first p a with
      | (some q, a) => (some q, a)
      | (none, a) => follow g fuel quiet second p a
    | .many body =>
      match follow g fuel quiet body p a with
      | (some q, a) =>
        if q.offset = p.offset then (some p, a) else follow g fuel quiet (.many body) q a
      | (none, a) => (some p, a)
    | .optional body =>
      match follow g fuel quiet body p a with
      | (some q, a) => (some q, a)
      | (none, a) => (some p, a)
    | .absent body =>
      match follow g fuel quiet body p a with
      | (some _, a) => (none, a)
      | (none, a) => (some p, a)
    | .rule name =>
      let before := a.countAt p.offset
      match follow g fuel (quiet || g.atomic name) (g.body name) p a with
      | (some q, a) => (some q, a)
      | (none, a) => (none, if quiet then a else a.failed name p.offset before)

/-- The attempts made while following rule `start` over the whole text. The depth of a pass grows
by a bounded amount with each character read. -/
def explain (g : Table ρ) (start : ρ) (cs : List Char) : Attempts ρ :=
  (follow g (64 * (cs.length + 2)) false (.rule start) ⟨0, cs⟩ .empty).2

end Grammar
end TimedAutomata
