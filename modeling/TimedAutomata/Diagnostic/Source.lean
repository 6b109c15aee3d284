import TimedAutomata.Text.Bytes
import TimedAutomata.Text.Width

/-!
# Source files

The texts that diagnostics point into.

- `SourceFile`, `SourceLine`: a text and its lines
- `SourceFile.lineAt`: the line that a position belongs to
- `SourceLine.columnNumber`: where in its line a position is
- `Cell`, `cells`: how a line is laid out in columns
-/

namespace TimedAutomata

structure SourceFile where
  name : String
  content : String
  deriving DecidableEq, Repr, Inhabited

/-- A line with the line feed that ends it. -/
structure SourceLine where
  /-- Counted from zero. -/
  index : Nat
  /-- The position of its first character. -/
  start : Nat
  chars : List Char
  deriving DecidableEq, Repr, Inhabited

namespace SourceFile

/-- A text cut after each line feed. What follows the last one is a line too, even if empty. -/
def cut : List Char → List (List Char)
  | [] => [[]]
  | c :: cs =>
    if c = '\n' then [c] :: cut cs
    else
      match cut cs with
      | [] => [[c]]
      | l :: ls => (c :: l) :: ls

/-- Lines with their numbers and positions, from a given one on. -/
def placed (index start : Nat) : List (List Char) → List SourceLine
  | [] => []
  | l :: ls => ⟨index, start, l⟩ :: placed (index + 1) (start + Text.byteLength l) ls

def lines (f : SourceFile) : List SourceLine :=
  placed 0 0 (cut f.content.toList)

/-- The last line that starts at or before a position. -/
def lineAt (f : SourceFile) (position : Nat) : SourceLine :=
  ((f.lines.filter fun l => l.start ≤ position).getLast?).getD default

end SourceFile

namespace SourceLine

def number (l : SourceLine) : Nat :=
  l.index + 1

/-- The number of characters that end within the first `n` bytes. -/
def charsWithin (n : Nat) : List Char → Nat
  | [] => 0
  | c :: cs => if c.utf8Size ≤ n then charsWithin (n - c.utf8Size) cs + 1 else 0

/-- The column of a position, counted from one. A position past the line is just behind it. -/
def columnNumber (l : SourceLine) (position : Nat) : Nat :=
  charsWithin (position - l.start) l.chars + 1

/-- What is shown of the line: all but line ends and null characters at its end. -/
def shown (l : SourceLine) : List Char :=
  (l.chars.reverse.dropWhile fun c => c = '\n' || c = '\r' || c = '\x00').reverse

end SourceLine

/-! ## Columns -/

/-- A character of a line: where it is and how wide. -/
structure Cell where
  /-- The position of the character in its line. -/
  offset : Nat
  char : Char
  width : Nat
  deriving DecidableEq, Repr, Inhabited

namespace Cell

def stop (c : Cell) : Nat :=
  c.offset + c.char.utf8Size

/-- Whether some byte of the character is in the range from `x` to `y`. -/
def meets (x y : Nat) (c : Cell) : Bool :=
  max x c.offset < min y c.stop

/-- The character; a tab is shown as spaces. -/
def text (c : Cell) : String :=
  if c.char = '\t' then String.ofList (List.replicate c.width ' ') else c.char.toString

def totalWidth : List Cell → Nat
  | [] => 0
  | c :: cs => c.width + totalWidth cs

/-- Tabs go to the next column that is a multiple of this. -/
def tabWidth : Nat := 4

/-- The cells of a text that starts at a given position and column. -/
def layoutFrom (offset column : Nat) : List Char → List Cell
  | [] => []
  | c :: cs =>
    let width := if c = '\t' then tabWidth - column % tabWidth else Text.columns c
    ⟨offset, c, width⟩ :: layoutFrom (offset + c.utf8Size) (column + width) cs

end Cell

/-- The cells of what is shown of a line. -/
def SourceLine.cells (l : SourceLine) : List Cell :=
  Cell.layoutFrom 0 0 l.shown

end TimedAutomata
