import TimedAutomata.Diagnostic.Ink
import TimedAutomata.Diagnostic.Source
import TimedAutomata.Text.Blank

/-!
# Snippets

A diagnostic shown with the lines it points at, their numbers, and marks under or beside them.

- `Mark`: what a line has to do with the label
- `lineRows`: a line and the marks under it
- `Snippet.rows`: which lines are shown
- `Snippet.ink`: a whole diagnostic
-/

namespace TimedAutomata

/-- A message about a part of a file. -/
structure Snippet where
  severity : Severity
  message : String
  file : SourceFile
  span : Span
  /-- The line on which the part starts. -/
  firstLine : SourceLine
  /-- The line on which it ends. -/
  lastLine : SourceLine
  deriving DecidableEq, Repr, Inhabited

/-- What a line has to do with a label. -/
inductive Mark where
  /-- The whole label is on the line. -/
  | within (x y : Nat)
  /-- The label starts on the line. -/
  | first (x : Nat)
  /-- The label goes on over the line. -/
  | through
  /-- The label ends on the line. -/
  | last (y : Nat)
  /-- The label is on other lines. -/
  | apart
  deriving DecidableEq, Repr, Inhabited

namespace Snippet

open Ink (styled repeated)

/-- The line feed that ends a row. -/
def feed : List Ink := [.text "\n"]

def space : List Ink := [.text " "]

def of (severity : Severity) (message : String) (file : SourceFile) (span : Span) : Snippet :=
  ⟨severity, message, file, span, file.lineAt span.start, file.lineAt span.stop⟩

variable (s : Snippet)

/-- Whether the label ends on another line than it starts on. -/
def isMultiline : Bool := s.firstLine.index != s.lastLine.index

/-- Whether the label starts so far behind the text that there is no position after it. A label on
one line covers at least one position, so such a snippet cannot be shown. -/
def isBeyondReach : Bool :=
  !s.isMultiline && UInt64.size ≤ s.span.start - s.firstLine.start + 1

/-! ## Gutters -/

/-- The number of digits of the largest line number. -/
def padding : Nat :=
  (toString (max s.firstLine.number s.lastLine.number)).length

def label (text : String) : List Ink :=
  styled (.label s.severity) text

/-- The space in front of the border. -/
def gutter : List Ink :=
  [.text (repeated (s.padding + 1) ' ')]

def border : List Ink :=
  styled .frame "│"

/-- The border with a line number in front of it. -/
def numbered (l : SourceLine) : List Ink :=
  let digits := (toString l.number).toList.leftpad s.padding ' '
  styled .frame (String.ofList digits) ++ space ++ border

/-! ## One line -/

/-- Cells, where runs of those that `p` holds of are styled as the label. -/
def highlighted (p : Cell → Bool) (shape : Cell → String) (inside : Bool) : List Cell → List Ink
  | [] => if inside then [.reset] else []
  | c :: cs =>
    (if p c && !inside then [.set (.label s.severity)]
      else if !p c && inside then [.reset]
      else []) ++
    .text (shape c) :: highlighted p shape (p c) cs

/-- The number of bytes of blanks that a line starts with. -/
def indent (l : SourceLine) : Nat :=
  Text.byteLength l.shown - Text.byteLength (Text.trimLeft l.shown)

/-- The characters of a line that belong to the label. -/
def isMarked : Mark → Cell → Bool
  | .within x y, c => c.meets x y
  | .first x, c => x ≤ c.offset
  | .through, _ => true
  | .last y, c => c.stop ≤ y
  | .apart, _ => false

/-- Beside a line: the bar of a label on several lines. A label that starts before any text starts
its bar here. -/
def beside (l : SourceLine) : Mark → List Ink
  | .within _ _ => []
  | .first x => if x ≤ indent l then space ++ s.label "╭" else space ++ space
  | .through | .last _ => space ++ s.label "│"
  | .apart => space ++ space

def lineRow (l : SourceLine) (m : Mark) : List Ink :=
  s.numbered l ++ s.beside l m ++ space ++
    s.highlighted (isMarked m) Cell.text false l.cells ++ feed

/-- A row of carets, with the message behind it. One more column behind the text can have a
caret. -/
def caretRow (l : SourceLine) (x y : Nat) : List Ink :=
  let shape (c : Cell) : String :=
    if c.meets x y then repeated c.width '^'
    else if c.offset < y then repeated c.width ' '
    else ""
  let behind : Cell := ⟨Text.byteLength l.shown, '\x00', 1⟩
  s.gutter ++ border ++ space ++
    s.highlighted (Cell.meets x y) shape false (l.cells ++ [behind]) ++
    (if s.message.isEmpty then [] else space ++ s.label s.message) ++ feed

/-- A row with a line from the bar on the left to below a character. -/
def elbowRow (corner : String) (cells : List Cell) (message : String) : List Ink :=
  s.gutter ++ border ++ space ++ s.label corner ++
    s.label (repeated (Cell.totalWidth cells) '─' ++ "^" ++ message) ++ feed

/-- What is under a line. -/
def under (l : SourceLine) : Mark → List Ink
  | .within x y => s.caretRow l x y
  | .first x =>
    if x ≤ indent l then []
    else s.elbowRow "╭" (l.cells.takeWhile fun c => c.offset ≤ x) ""
  | .last y =>
    s.elbowRow "╰" (l.cells.takeWhile fun c => c.offset < y)
      (if s.message.isEmpty then "" else " " ++ s.message)
  | .through | .apart => []

def lineRows (l : SourceLine) (m : Mark) : List Ink :=
  s.lineRow l m ++ s.under l m

/-! ## All lines -/

/-- The mark of a line. A label on one line covers at least one character. -/
def mark (l : SourceLine) : Mark :=
  let first := s.firstLine
  let last := s.lastLine
  let x := s.span.start - first.start
  if !s.isMultiline then .within x (max (s.span.stop - first.start) (x + 1))
  else if l.index = first.index then .first x
  else if l.index = last.index then .last (s.span.stop - last.start)
  else if first.index < l.index && l.index < last.index then .through
  else .apart

/-- How many lines after the first are shown. -/
def contextAfter : Nat := 3

/-- How many lines before the last are shown. -/
def contextBefore : Nat := 1

/-- Whether a line is shown for its own sake. -/
def isNear (i : Nat) : Bool :=
  let first := s.firstLine.index
  let last := s.lastLine.index
  i == first || i == last ||
    (first < i && i < last && (i - first ≤ contextAfter || last - i ≤ contextBefore))

/-- Stands for two or more lines that are left out. -/
def gapRow : List Ink :=
  s.gutter ++ styled .frame "·" ++ space ++ s.label "│" ++ feed

/-- The rows for a line between the first and the last. A line that is alone between lines shown
is shown too. -/
def rowsAt (l : SourceLine) : List Ink :=
  let before := s.isNear (l.index - 1)
  if s.isNear l.index || (before && s.isNear (l.index + 1)) then s.lineRows l (s.mark l)
  else if before then s.gapRow
  else []

/-- The lines from the one to the other end of the label. -/
def coveredLines : List SourceLine :=
  let first := s.firstLine.index
  let last := s.lastLine.index
  s.file.lines.filter fun l => min first last ≤ l.index && l.index ≤ max first last

def rows : List Ink :=
  s.coveredLines.flatMap s.rowsAt

/-! ## The whole -/

def header : List Ink :=
  [.set (.header s.severity), .text s.severity.name, .set .headline, .text (": " ++ s.message),
   .reset] ++ feed

/-- File, line and column where the label starts. -/
def locus : List Ink :=
  let l := s.firstLine
  s.gutter ++ styled .frame "┌─" ++
    [.text (" " ++ s.file.name ++ ":" ++ toString l.number ++ ":" ++
      toString (l.columnNumber s.span.start))] ++ feed

def emptyRow : List Ink :=
  s.gutter ++ border ++ (if s.isMultiline then space ++ space else []) ++ feed

def ink : List Ink :=
  s.header ++ s.locus ++ s.emptyRow ++ s.rows ++ feed

end Snippet
end TimedAutomata
