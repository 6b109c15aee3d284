import TimedAutomata.Yaml.Cursor

/-!
# Scalars

The five ways of writing a scalar: plain, in single or double quotes, and as a block of lines
that are kept or folded.

- `Gap`: blanks and line breaks inside a scalar, and what folding makes of them
- `plain?`, `quoted?`, `block?`: the readers. None of them answers for a text that breaks the
  rules of its style.
-/

namespace TimedAutomata
namespace Yaml

inductive Style where
  | plain
  | single
  | double
  | literal
  | folded
  deriving DecidableEq, Repr, Inhabited

/-! ## Folding -/

/-- White space inside a scalar. `folding` holds once a line has ended; before that, the blanks
count, and after that only the breaks. -/
structure Gap where
  blanks : List Char
  folding : Bool
  first : List Char
  more : List Char
  deriving Repr, Inhabited

namespace Gap

def none : Gap := ⟨[], false, [], []⟩

/-- The gap after a line that was ended by a backslash. -/
def escaped : Gap := ⟨[], true, [], []⟩

/-- What the gap is in the value: a single line feed becomes a space, and of several the first is
dropped. -/
def text (g : Gap) : List Char :=
  if g.folding then
    if g.first = ['\n'] then if g.more.isEmpty then [' '] else g.more
    else g.first ++ g.more
  else g.blanks

end Gap

/-- Reads white space. With `indent`, a tab before that column at the start of a line is an
error. -/
def gap? (indent : Option Int) : (fuel : Nat) → Cursor → Gap → Option (Cursor × Gap)
  | 0, _, _ => none
  | fuel + 1, c, g =>
    match c.lineBreak? with
    | some (b, next) =>
      if g.folding then gap? indent fuel next { g with more := g.more ++ [b] }
      else gap? indent fuel next { g with blanks := [], folding := true, first := [b] }
    | none =>
      match c.rest with
      | b :: _ =>
        if isBlank b then
          if g.folding then
            if b == '\t' && indent.any (fun i => (c.column : Int) < i) then none
            else gap? indent fuel (c.advance 1) g
          else gap? indent fuel (c.advance 1) { g with blanks := g.blanks ++ [b] }
        else some (c, g)
      | [] => some (c, g)

/-! ## Plain scalars -/

def isFlowIndicator (c : Char) : Bool :=
  c == ',' || c == '[' || c == ']' || c == '\x7b' || c == '\x7d'

/-- The text of a plain scalar up to white space or to what ends the scalar. In a flow collection
a colon must not touch an indicator. -/
def plainRun? (flow : Bool) : List Char → Option (List Char)
  | [] => some []
  | c :: cs =>
    if isBlank c || isBreak c then some []
    else if flow && c == ':' && cs.head?.any (fun d => isFlowIndicator d || d == '?') then none
    else if (c == ':' && blankNext cs) || (flow && isFlowIndicator c) then some []
    else (plainRun? flow cs).map (c :: ·)

/-- Reads a plain scalar whose further lines stand at column `indent` or later. Also says whether
the scalar ends after a line break. -/
def plain? (flow : Bool) (indent : Int) :
    (fuel : Nat) → Cursor → Gap → List Char → Option (List Char × Cursor × Bool)
  | 0, _, _, _ => none
  | fuel + 1, c, g, value =>
    if c.atDocumentMarker || c.rest.head? == some '#' then some (value, c, g.folding)
    else do
      let run ← plainRun? flow c.rest
      let (value, g) := if run.isEmpty then (value, g) else (value ++ g.text ++ run, Gap.none)
      let c := c.advance run.length
      if !c.rest.isEmpty && blankNext c.rest then
        let (c, g) ← gap? (some indent) (c.rest.length + 1) c g
        if !flow && (c.column : Int) < indent then some (value, c, g.folding)
        else plain? flow indent fuel c g value
      else some (value, c, g.folding)

/-! ## Quoted scalars -/

def hexValue? (c : Char) : Option Nat :=
  if c.isDigit then some (c.toNat - '0'.toNat)
  else if 'a' ≤ c && c ≤ 'f' then some (c.toNat - 'a'.toNat + 10)
  else if 'A' ≤ c && c ≤ 'F' then some (c.toNat - 'A'.toNat + 10)
  else none

/-- The number written with the first `n` characters in base sixteen. -/
def hexNumber? (n : Nat) (cs : List Char) : Option Nat :=
  if cs.length < n then none
  else (cs.take n).foldlM (fun v c => (hexValue? c).map (16 * v + ·)) 0

/-- A character by its code point; half of a surrogate pair is none. -/
def charOf? (n : Nat) : Option Char :=
  if n < 0xD800 || (0xDFFF < n && n ≤ 0x10FFFF) then some (Char.ofNat n) else none

/-- The character after a backslash in double quotes: what it stands for, and how many characters
were read after it. -/
def escape? (c : Char) (cs : List Char) : Option (Char × Nat) :=
  let coded (n : Nat) : Option (Char × Nat) := do
    return (← charOf? (← hexNumber? n cs), n)
  match c with
  | '0' => some ('\x00', 0)
  | 'a' => some ('\x07', 0)
  | 'b' => some ('\x08', 0)
  | 't' => some ('\t', 0)
  | '\t' => some ('\t', 0)
  | 'n' => some ('\n', 0)
  | 'v' => some ('\x0b', 0)
  | 'f' => some ('\x0c', 0)
  | 'r' => some ('\r', 0)
  | 'e' => some ('\x1b', 0)
  | ' ' => some (' ', 0)
  | '"' => some ('"', 0)
  | '/' => some ('/', 0)
  | '\\' => some ('\\', 0)
  | 'N' => some ('\u0085', 0)
  | '_' => some ('\u00a0', 0)
  | 'L' => some ('\u2028', 0)
  | 'P' => some ('\u2029', 0)
  | 'x' => coded 2
  | 'u' => coded 4
  | 'U' => coded 8
  | _ => none

/-- How the text of a quoted scalar goes on where a run of it ends. -/
inductive Turn where
  /-- At the closing quote. -/
  | close
  /-- At white space. -/
  | space
  /-- At a line break after a backslash. -/
  | joined
  deriving DecidableEq, Repr

/-- The text of a quoted scalar up to its quote or to white space. -/
def quotedRun? (double : Bool) :
    (fuel : Nat) → Cursor → List Char → Option (List Char × Cursor × Turn)
  | 0, _, _ => none
  | fuel + 1, c, value =>
    match c.rest with
    | [] => some (value, c, .space)
    | d :: cs =>
      if isBlank d || isBreak d then some (value, c, .space)
      else if !double && d == '\'' then
        if cs.head? == some '\'' then quotedRun? double fuel (c.advance 2) (value ++ ['\''])
        else some (value, c, .close)
      else if double && d == '"' then some (value, c, .close)
      else if double && d == '\\' then
        match cs with
        | [] => none
        | e :: after =>
          if isBreak e then some (value, (c.advance 1).skipLine, .joined)
          else do
            let (v, n) ← escape? e after
            quotedRun? double fuel (c.advance (2 + n)) (value ++ [v])
      else quotedRun? double fuel (c.advance 1) (value ++ [d])

/-- Reads a quoted scalar from behind its opening quote. -/
def quoted? (double : Bool) : (fuel : Nat) → Cursor → List Char → Option (List Char × Cursor)
  | 0, _, _ => none
  | fuel + 1, c, value =>
    if c.atDocumentMarker || c.rest.isEmpty then none
    else do
      let (value, c, turn) ← quotedRun? double (c.rest.length + 1) c value
      match turn with
      | .close => some (value, c.advance 1)
      | turn =>
        let opened := if turn = .joined then Gap.escaped else Gap.none
        -- A quote right after a joined line closes the scalar as well.
        if turn = .joined && c.rest.head? == some (if double then '"' else '\'') then
          some (value, c.advance 1)
        else
          let (c, g) ← gap? none (c.rest.length + 1) c opened
          quoted? double fuel c (value ++ g.text)

/-! ## Block scalars -/

inductive Chomping where
  | strip
  | clip
  | keep
  deriving DecidableEq, Repr

def chomping? : List Char → Option Chomping
  | '+' :: _ => some .keep
  | '-' :: _ => some .strip
  | _ => none

def indentation? : List Char → Option Nat
  | c :: _ => if c.isDigit then some (c.toNat - '0'.toNat) else none
  | [] => none

/-- The indicators after `|` or `>`, in either order: chomping and the indentation, which is not
zero. -/
def blockHeader? (c : Cursor) : Option (Chomping × Option Nat × Cursor) :=
  let (chomp, increment, c) := match chomping? c.rest with
    | some chomp =>
      let c := c.advance 1
      match indentation? c.rest with
      | some n => (chomp, some n, c.advance 1)
      | none => (chomp, none, c)
    | none =>
      match indentation? c.rest with
      | some n =>
        let c := c.advance 1
        match chomping? c.rest with
        | some chomp => (chomp, some n, c.advance 1)
        | none => (.clip, some n, c)
      | none => (.clip, none, c)
  if increment = some 0 then none else some (chomp, increment, c)

/-- The rest of a line that may hold only blanks and a comment. -/
def restOfLine? (c : Cursor) : Option Cursor :=
  let c := c.skipWhile isBlank
  let c := if c.rest.head? == some '#' then c.skipWhile (fun d => !isBreak d) else c
  if breakNext c.rest then some c.skipLine else none

/-- The empty lines before the text of a block, with the indentation that they leave: the given
one, or else the largest seen, and at least `least`. -/
def blockBreaks? (least : Nat) (indent : Option Nat) :
    (fuel : Nat) → Cursor → (deepest : Nat) → List Char → Option (List Char × Nat × Cursor)
  | 0, _, _, _ => none
  | fuel + 1, c, deepest, breaks =>
    let spaces := (c.rest.takeWhile (· == ' ')).length
    let eaten := match indent with
      | some i => min spaces (i - c.column)
      | none => spaces
    let c := c.advance eaten
    let deepest := max deepest c.column
    let inside := match indent with
      | some i => c.column < i
      | none => true
    if inside && c.rest.head? == some '\t' then none
    else
      match c.lineBreak? with
      | some (b, next) => blockBreaks? least indent fuel next deepest (breaks ++ [b])
      | none => some (breaks, indent.getD (max deepest least), c)

/-- The lines of a block. `pending` is the break after the last line, `breaks` are the empty lines
after that, and `afterBlank` says whether the last line starts with a blank: neither such a line
nor the one after it is folded. -/
def blockLines? (keepLines : Bool) (indent : Nat) :
    (fuel : Nat) → Cursor → (value pending breaks : List Char) → (afterBlank : Bool) →
      Option (List Char × List Char × List Char × Cursor)
  | 0, _, _, _, _, _ => none
  | fuel + 1, c, value, pending, breaks, afterBlank =>
    if c.column != indent || c.rest.isEmpty then some (value, pending, breaks, c)
    else do
      let blank := c.rest.head?.any isBlank
      let joint :=
        if !keepLines && pending = ['\n'] && !afterBlank && !blank then
          if breaks.isEmpty then [' '] else breaks
        else pending ++ breaks
      let line := c.rest.takeWhile (fun d => !isBreak d)
      let value := value ++ joint ++ line
      let c := c.advance line.length
      let (pending, c) := match c.lineBreak? with
        | some (b, next) => ([b], next)
        | none => ([], c)
      let (breaks, _, c) ← blockBreaks? 0 (some indent) (c.rest.length + 1) c 0 []
      blockLines? keepLines indent fuel c value pending breaks blank

/-- Reads a block scalar from behind its `|` or `>`, inside a collection at column `parent`. -/
def block? (keepLines : Bool) (parent : Int) (c : Cursor) : Option (List Char × Cursor) := do
  let (chomp, increment, c) ← blockHeader? c
  let c ← restOfLine? c
  let indent := increment.map fun n => parent.toNat + n
  let least := max 1 (parent + 1).toNat
  let fuel := c.rest.length + 1
  let (breaks, indent, c) ← blockBreaks? least indent fuel c 0 []
  let (value, pending, breaks, c) ← blockLines? keepLines indent fuel c [] [] breaks false
  let tail := match chomp with
    | .strip => []
    | .clip => pending
    | .keep => pending ++ breaks
  return (value ++ tail, c)

end Yaml
end TimedAutomata
