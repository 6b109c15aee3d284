import TimedAutomata.Clause.Basic

/-!
# Declarations

A text is cut into declarations in front of every marker `Cta ` that stands at the start of the
text or after a blank or a semicolon, and a declaration into clauses at its semicolons.

- `markers`: the byte positions of the markers
- `cut`, `split`: the two cuts; nothing is lost by them
- `Declaration.scan`: the declarations of a text. Only blanks may stand before the first marker
  and after the last semicolon of a declaration.
-/

namespace TimedAutomata

/-- A declaration: its whole text, its first clause, and the clauses after that. -/
structure Declaration where
  whole : Clause
  header : Clause
  edges : List Clause
  deriving DecidableEq, Repr

namespace Declaration

/-! ## Markers -/

def marker : List Char := ['C', 't', 'a', ' ']

/-- Whether a marker can stand after `before`. -/
def opensAfter : (before : Option Char) → Bool
  | none => true
  | some c => Text.isBlank c || c == ';'

/-- Whether a declaration starts where `cs` follows `before`. -/
def startsAt (before : Option Char) (cs : List Char) : Bool :=
  opensAfter before && marker.isPrefixOf cs

def markersFrom : (offset : Nat) → (before : Option Char) → List Char → List Nat
  | _, _, [] => []
  | offset, before, c :: cs =>
    let later := markersFrom (offset + c.utf8Size) (some c) cs
    if startsAt before (c :: cs) then offset :: later else later

/-- The byte positions at which declarations start. -/
def markers (cs : List Char) : List Nat :=
  markersFrom 0 none cs

/-! ## Cutting -/

/-- Cuts a text in front of every marker: what stands before the first one, and the pieces that
start with one. -/
def cut : (offset : Nat) → (before : Option Char) → List Char → List Char × List Clause
  | _, _, [] => ([], [])
  | offset, before, c :: cs =>
    let (head, later) := cut (offset + c.utf8Size) (some c) cs
    if startsAt before (c :: cs) then ([], ⟨c :: head, offset⟩ :: later) else (c :: head, later)

/-- Splits a text at its semicolons: the pieces that one closes, and what follows the last. -/
def split : (offset : Nat) → List Char → List Clause × Clause
  | offset, [] => ([], ⟨[], offset⟩)
  | offset, c :: cs =>
    let (closed, rest) := split (offset + c.utf8Size) cs
    if c = ';' then (⟨[], offset⟩ :: closed, rest)
    else
      match closed with
      | [] => ([], ⟨c :: rest.text, offset⟩)
      | first :: closed => (⟨c :: first.text, offset⟩ :: closed, rest)

/-- The declaration written as `piece`. -/
def ofPiece (piece : Clause) : Except ReadError Declaration :=
  let whole := piece.trimmed
  let (closed, rest) := split piece.offset piece.text
  match closed.map Clause.trimmed with
  | [] => .error ⟨.missingTerminator, whole⟩
  | header :: edges =>
    let rest := rest.trimmed
    if rest.text.isEmpty then .ok ⟨whole, header, edges⟩
    else .error ⟨.missingTerminator, rest⟩

/-- The declarations of a text. -/
def scan (cs : List Char) : Except ReadError (List Declaration) :=
  let (head, pieces) := cut 0 none cs
  let stray := Clause.trimmed ⟨head, 0⟩
  if stray.text.isEmpty then pieces.mapM ofPiece else .error ⟨.strayText, stray⟩

end Declaration
end TimedAutomata
