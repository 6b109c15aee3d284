import TimedAutomata.Grammar.Rules
import TimedAutomata.Guard.Reader
import TimedAutomata.Text.Bytes

/-!
# Clauses

A clause is a piece of the notation between two semicolons, without its blank ends, together with
the byte position it starts at.

- `Clause`, `Clause.trimmed`: pieces of a text
- `ReadError`: why a text is not in the notation, and the piece that shows it
-/

namespace TimedAutomata

/-- A piece of a text and the byte position of its first character. -/
structure Clause where
  text : List Char
  offset : Nat
  deriving DecidableEq, Repr, Inhabited

namespace Clause

/-- The byte position after the last character. -/
def stop (c : Clause) : Nat :=
  c.offset + Text.byteLength c.text

def span (c : Clause) : Span :=
  ⟨c.offset, c.stop⟩

/-- The clause without its blank ends. -/
def trimmed (c : Clause) : Clause :=
  ⟨Text.trim c.text, c.offset + Text.byteLength (c.text.takeWhile Text.isBlank)⟩

end Clause

/-! ## Errors -/

namespace ReadError

inductive Cause where
  /-- The header does not name an initial state. -/
  | missingInit
  | missingTerminator
  /-- The communication neither sends nor receives. -/
  | missingMarker
  | missingGuard
  | invalidGuard (reason : Guard.Error)
  | malformed (expected : Grammar.Expected)
  | duplicateLabel (label : String)
  /-- Text before the first declaration. -/
  | strayText
  deriving Repr

namespace Cause

def message : Cause → String
  | .missingInit => "missing `= Init <state>` clause"
  | .missingTerminator => "clause is not terminated by `;`"
  | .missingMarker => "communication is missing a send (`!`) or receive (`?`) marker"
  | .missingGuard => "transition has no guard in parentheses"
  | .invalidGuard reason => "invalid guard: " ++ reason.message
  | .malformed e =>
    "malformed clause: " ++ e.message ++ " (at column " ++ toString (e.position + 1) ++ ")"
  | .duplicateLabel label => "automaton `" ++ label ++ "` is declared more than once"
  | .strayText => "text before the first `Cta` declaration"

end Cause

end ReadError

/-- Why a text is not in the notation, and the clause at fault. -/
structure ReadError where
  cause : ReadError.Cause
  clause : Clause
  deriving Repr

namespace ReadError

def snippet (e : ReadError) : String :=
  String.ofList e.clause.text

def span (e : ReadError) : Span :=
  e.clause.span

def message (e : ReadError) : String :=
  e.cause.message ++ " at offset " ++ toString e.clause.offset ++ ": `" ++ e.snippet ++ "`"

end ReadError
end TimedAutomata
