/-!
# Positions in a document

A cursor is the rest of a document together with the line, the column and the index of its first
character. Indentation is a matter of columns, so every reader of the document moves a cursor.

- `isBreak`, `isBlank`, `isAlpha`: character classes of the format
- `Cursor.advance`, `Cursor.skipLine`: moving within a line and to the next one
- `Cursor.lineBreak?`: a line break, in the form in which it enters a scalar
-/

namespace TimedAutomata
namespace Yaml

/-! ## Character classes -/

/-- Characters that end a line. -/
def isBreak (c : Char) : Bool :=
  c == '\r' || c == '\n' || c == '\u0085' || c == '\u2028' || c == '\u2029'

def isBlank (c : Char) : Bool :=
  c == ' ' || c == '\t'

/-- Characters of anchors, tag handles and directive names. -/
def isAlpha (c : Char) : Bool :=
  c.isAlphanum || c == '_' || c == '-'

/-- Whether a text is at its end, at a blank or at a line break. -/
def blankNext : List Char → Bool
  | [] => true
  | c :: _ => isBlank c || isBreak c

/-- Whether a text is at its end or at a line break. -/
def breakNext : List Char → Bool
  | [] => true
  | c :: _ => isBreak c

/-- The characters that a document may contain. -/
def isAllowed (c : Char) : Bool :=
  let n := c.toNat
  n == 0x09 || n == 0x0A || n == 0x0D || (0x20 ≤ n && n ≤ 0x7E) || n == 0x85 ||
    (0xA0 ≤ n && n ≤ 0xD7FF) || (0xE000 ≤ n && n ≤ 0xFFFD) || 0x10000 ≤ n

/-! ## Cursors -/

structure Cursor where
  rest : List Char
  line : Nat
  column : Nat
  index : Nat
  deriving Repr, Inhabited

namespace Cursor

def ofText (cs : List Char) : Cursor := ⟨cs, 0, 0, 0⟩

/-- Past `n` characters of the current line. -/
def advance (c : Cursor) (n : Nat) : Cursor :=
  { c with rest := c.rest.drop n, column := c.column + n, index := c.index + n }

/-- Past the characters at the front that satisfy `p`, all on the current line. -/
def skipWhile (p : Char → Bool) (c : Cursor) : Cursor :=
  c.advance (c.rest.takeWhile p).length

/-- The next line, after a line break of `n` characters. -/
def newLine (c : Cursor) (n : Nat) : Cursor :=
  ⟨c.rest.drop n, c.line + 1, 0, c.index + n⟩

/-- A line break at the cursor, as it is kept in a scalar, and the start of the next line. A pair
of carriage return and line feed is one break; the separators of lines and of paragraphs stay
what they are. -/
def lineBreak? (c : Cursor) : Option (Char × Cursor) :=
  match c.rest with
  | '\r' :: '\n' :: _ => some ('\n', c.newLine 2)
  | b :: _ =>
    if b == '\u2028' || b == '\u2029' then some (b, c.newLine 1)
    else if isBreak b then some ('\n', c.newLine 1)
    else none
  | [] => none

/-- Past a line break, if there is one. -/
def skipLine (c : Cursor) : Cursor :=
  match c.lineBreak? with
  | some (_, next) => next
  | none => c

/-- Whether the cursor is at a document marker of three characters `m` on its own. -/
def atMarker (m : Char) (c : Cursor) : Bool :=
  c.column == 0 &&
    match c.rest with
    | a :: b :: d :: after => a == m && b == m && d == m && blankNext after
    | _ => false

def atDocumentMarker (c : Cursor) : Bool :=
  c.atMarker '-' || c.atMarker '.'

end Cursor
end Yaml
end TimedAutomata
