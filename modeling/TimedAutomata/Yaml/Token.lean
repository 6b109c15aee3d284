import TimedAutomata.Yaml.Scalar

/-!
# Tokens

A document as a list of tokens. Indentation becomes explicit: a block collection opens with a
token of its own and closes with `blockEnd`. That a scalar or a collection was the key of a
mapping shows only at the colon after it, so the token `key` is put back in front of it.

- `Token`: the tokens
- `Tag`: tags as bytes, because escapes in them need not form characters
- `Lexer`: the state of scanning: open indentations, open flow collections, and for each level the
  place where a key may have started
- `tokens?`: the tokens of a document; none if some piece of text can start no token
-/

namespace TimedAutomata
namespace Yaml

/-- A tag, or a part of one, as bytes. -/
abbrev Tag := List UInt8

inductive Token where
  | version (major minor : Nat)
  | tagDirective (handle : String) (stem : Tag)
  | documentStart
  | documentEnd
  | blockSequenceStart
  | blockMappingStart
  | blockEnd
  | flowSequenceStart
  | flowSequenceEnd
  | flowMappingStart
  | flowMappingEnd
  | blockEntry
  | flowEntry
  | key
  | value
  | alias (name : String)
  | anchor (name : String)
  | tag (handle : String) (suffix : Tag)
  | scalar (style : Style) (text : String)
  | streamEnd
  deriving DecidableEq, Repr, Inhabited

/-! ## Tags, anchors and directives -/

/-- A handle: `!`, `!!` or `!name!`; in a tag also the front of `!suffix`. -/
def tagHandle? (directive : Bool) (c : Cursor) : Option (List Char × Cursor) :=
  match c.rest with
  | '!' :: cs =>
    let name := cs.takeWhile isAlpha
    let c := c.advance (1 + name.length)
    if c.rest.head? == some '!' then some ('!' :: name ++ ['!'], c.advance 1)
    else if directive && !name.isEmpty then none
    else some ('!' :: name, c)
  | _ => none

def isUriChar (verbatim : Bool) (c : Char) : Bool :=
  isAlpha c || ";/?:@&=+$.%!~*'()".toList.contains c ||
    (verbatim && (c == ',' || c == '[' || c == ']'))

/-- One byte written as a percent sign and two digits. -/
def percentByte? : List Char → Option (UInt8 × List Char)
  | '%' :: a :: b :: rest => do
    let high ← hexValue? a
    let low ← hexValue? b
    return (UInt8.ofNat (16 * high + low), rest)
  | _ => none

/-- How many bytes follow the first one of a character. -/
def percentFollowers? (first : UInt8) : Option Nat :=
  if first &&& 0x80 = 0x00 then some 0
  else if first &&& 0xE0 = 0xC0 then some 1
  else if first &&& 0xF0 = 0xE0 then some 2
  else if first &&& 0xF8 = 0xF0 then some 3
  else none

/-- The bytes that follow the first one of a character, of which `n` are still to come. -/
def percentTail? : (n : Nat) → List Char → Option (Tag × List Char)
  | 0, cs => some ([], cs)
  | n + 1, cs => do
    let (byte, cs) ← percentByte? cs
    if byte &&& 0xC0 = 0x80 then do
      let (bytes, cs) ← percentTail? n cs
      return (byte :: bytes, cs)
    else none

/-- One character written as percent signs: as many bytes as the first of them announces. Whether
they are the code of a character does not matter here. -/
def percentChar? (cs : List Char) : Option (Tag × List Char) := do
  let (byte, cs) ← percentByte? cs
  let (bytes, cs) ← percentTail? (← percentFollowers? byte) cs
  return (byte :: bytes, cs)

/-- The bytes of ASCII characters. -/
def tagOf (cs : List Char) : Tag :=
  cs.map fun c => UInt8.ofNat c.toNat

/-- The text of a tag. -/
def tagUri? (verbatim : Bool) : (fuel : Nat) → Cursor → Tag → Option (Tag × Cursor)
  | 0, _, _ => none
  | fuel + 1, c, text =>
    match c.rest with
    | '%' :: _ => do
      let (bytes, after) ← percentChar? c.rest
      tagUri? verbatim fuel (c.advance (c.rest.length - after.length)) (text ++ bytes)
    | d :: _ =>
      if isUriChar verbatim d then tagUri? verbatim fuel (c.advance 1) (text ++ tagOf [d])
      else some (text, c)
    | [] => some (text, c)

/-- A null byte ends a tag. -/
def Tag.cut (t : Tag) : Tag :=
  t.takeWhile (· ≠ 0)

/-- The text of a tag behind its handle, which must not be empty unless `head` is not. -/
def tagSuffix? (verbatim : Bool) (head : List Char) (c : Cursor) : Option (Tag × Cursor) := do
  let (text, c) ← tagUri? verbatim (c.rest.length + 1) c []
  if head.isEmpty && text.isEmpty then none
  else return (Tag.cut (tagOf (head.drop 1) ++ text), c)

/-- A tag. The tag `!` alone has an empty handle. -/
def tag? (flow : Bool) (c : Cursor) : Option (Token × Cursor) := do
  let (handle, suffix, c) ←
    if c.rest.tail.head? == some '<' then do
      let (suffix, c) ← tagSuffix? true [] (c.advance 2)
      if c.rest.head? == some '>' then some ([], suffix, c.advance 1) else none
    else do
      let (handle, c) ← tagHandle? false c
      if 2 ≤ handle.length && handle.getLast? == some '!' then do
        let (suffix, c) ← tagSuffix? false [] c
        some (handle, suffix, c)
      else do
        let (suffix, c) ← tagSuffix? false handle c
        if suffix.isEmpty then some ([], tagOf ['!'], c) else some (['!'], suffix, c)
  if blankNext c.rest || (flow && c.rest.head? == some ',') then
    return (.tag (String.ofList handle) suffix, c)
  else none

/-- The name of an anchor or alias, behind its indicator. -/
def anchorName? (c : Cursor) : Option (String × Cursor) :=
  let name := c.rest.takeWhile isAlpha
  let c := c.advance name.length
  let closed := match c.rest with
    | [] => true
    | d :: _ => blankNext [d] || "?:,]\x7d%@\x60".toList.contains d
  if name.isEmpty || !closed then none else some (String.ofList name, c)

/-- A number of a version, of at most nine digits. -/
def versionNumber? (c : Cursor) : Option (Nat × Cursor) :=
  let digits := c.rest.takeWhile Char.isDigit
  if digits.isEmpty || 9 < digits.length then none
  else some (digits.foldl (fun n d => 10 * n + (d.toNat - '0'.toNat)) 0, c.advance digits.length)

/-- A line that starts with a percent sign: a version or a tag handle. -/
def directive? (c : Cursor) : Option (Token × Cursor) := do
  let c := c.advance 1
  let name := c.rest.takeWhile isAlpha
  let c := c.advance name.length
  if name.isEmpty || !blankNext c.rest then none
  else
    let c := c.skipWhile isBlank
    let (token, c) ←
      if name = ['Y', 'A', 'M', 'L'] then do
        let (major, c) ← versionNumber? c
        if c.rest.head? == some '.' then do
          let (minor, c) ← versionNumber? (c.advance 1)
          some (Token.version major minor, c)
        else none
      else if name = ['T', 'A', 'G'] then do
        let (handle, c) ← tagHandle? true c
        if c.rest.head?.any isBlank then do
          let (stem, c) ← tagSuffix? true [] (c.skipWhile isBlank)
          if blankNext c.rest then
            some (Token.tagDirective (String.ofList handle) stem, c)
          else none
        else none
      else none
    return (token, ← restOfLine? c)

/-! ## The state of scanning -/

/-- A place where a key may have started: the number of tokens before it. A required one is an
error if no colon follows. -/
structure KeyPlace where
  required : Bool
  tokens : Nat
  line : Nat
  column : Nat
  index : Nat
  deriving Repr, Inhabited

structure Lexer where
  cursor : Cursor
  tokens : List Token
  /-- The column of the innermost block collection, or `-1`. -/
  indent : Int
  indents : List Int
  /-- For each open flow collection, and for the block around them, a possible key. -/
  keys : List (Option KeyPlace)
  /-- Whether a key may start at the cursor. -/
  keyAllowed : Bool
  deriving Repr, Inhabited

namespace Lexer

def ofText (cs : List Char) : Lexer :=
  ⟨Cursor.ofText cs, [], -1, [], [none], true⟩

def inFlow (l : Lexer) : Bool :=
  1 < l.keys.length

def push (l : Lexer) (t : Token) : Lexer :=
  { l with tokens := l.tokens ++ [t] }

/-- The token at the cursor, `n` characters long. -/
def pushHere (l : Lexer) (t : Token) (n : Nat) : Lexer :=
  { l with tokens := l.tokens ++ [t], cursor := l.cursor.advance n }

def allowKey (l : Lexer) (b : Bool) : Lexer :=
  { l with keyAllowed := b }

/-- Forgets the possible key of the current level, unless it is required. -/
def dropKey? (l : Lexer) : Option Lexer :=
  match l.keys with
  | some k :: outer => if k.required then none else some { l with keys := none :: outer }
  | _ => some l

/-- Notes that a key may start at the cursor. -/
def noteKey? (l : Lexer) : Option Lexer :=
  if l.keyAllowed then do
    let l ← l.dropKey?
    let c := l.cursor
    let required := !l.inFlow && l.indent == (c.column : Int)
    return { l with
      keys := some ⟨required, l.tokens.length, c.line, c.column, c.index⟩ :: l.keys.drop 1 }
  else some l

/-- A key stands on one line and has at most 1024 characters before its colon. -/
def isStale (c : Cursor) (k : KeyPlace) : Bool :=
  k.line < c.line || k.index + 1024 < c.index

/-- Forgets all keys that can no longer be completed, unless one is required. -/
def dropStale? (l : Lexer) : Option Lexer := do
  let keys ← l.keys.mapM fun
    | some k => if isStale l.cursor k then (if k.required then none else some none)
        else some (some k)
    | none => some none
  return { l with keys }

/-- Opens a block collection at a column, if it is deeper than the current one. Its token goes to
position `at?`, or to the end. -/
def openBlock (l : Lexer) (column : Nat) (t : Token) (at? : Option Nat) : Lexer :=
  if l.inFlow || (column : Int) ≤ l.indent then l
  else
    let position := at?.getD l.tokens.length
    { l with
      tokens := l.tokens.take position ++ t :: l.tokens.drop position
      indent := column
      indents := l.indent :: l.indents }

/-- Closes the block collections that are deeper than a column. -/
def closeBlocks (column : Int) : List Int → Lexer → Lexer
  | [], l => l
  | outer :: indents, l =>
    if column < l.indent then
      closeBlocks column indents
        { l with tokens := l.tokens ++ [.blockEnd], indent := outer, indents }
    else l

def unroll (l : Lexer) (column : Int) : Lexer :=
  if l.inFlow then l else closeBlocks column l.indents l

/-! ## White space -/

/-- Skips blanks, comments and line breaks. A tab counts as a blank only where no key may start. A
mark of the byte order may start a line; it takes up a column. -/
def skipSpace : (fuel : Nat) → Lexer → Lexer
  | 0, l => l
  | fuel + 1, l =>
    let c := l.cursor
    let c := if c.column == 0 && c.rest.head? == some '\ufeff' then c.advance 1 else c
    let tabs := l.inFlow || !l.keyAllowed
    let c := c.skipWhile fun d => d == ' ' || (tabs && d == '\t')
    let c := if c.rest.head? == some '#' then c.skipWhile (fun d => !isBreak d) else c
    match c.lineBreak? with
    | some (_, next) =>
      skipSpace fuel { l with cursor := next, keyAllowed := l.keyAllowed || !l.inFlow }
    | none => { l with cursor := c }

/-! ## Tokens -/

/-- Ends all block collections, as directives and document markers do. -/
def breakOff? (l : Lexer) : Option Lexer := do
  let l ← (l.unroll (-1)).dropKey?
  return l.allowKey false

def openFlow? (l : Lexer) (t : Token) : Option Lexer := do
  let l ← l.noteKey?
  return ({ l with keys := none :: l.keys }.allowKey true).pushHere t 1

def closeFlow? (l : Lexer) (t : Token) : Option Lexer := do
  let l ← l.dropKey?
  let l := if l.inFlow then { l with keys := l.keys.drop 1 } else l
  return (l.allowKey false).pushHere t 1

def blockEntry? (l : Lexer) : Option Lexer := do
  let l ←
    if l.inFlow then some l
    else if l.keyAllowed then some (l.openBlock l.cursor.column .blockSequenceStart none)
    else none
  let l ← l.dropKey?
  return (l.allowKey true).pushHere .blockEntry 1

def explicitKey? (l : Lexer) : Option Lexer := do
  let l ←
    if l.inFlow then some l
    else if l.keyAllowed then some (l.openBlock l.cursor.column .blockMappingStart none)
    else none
  let l ← l.dropKey?
  return (l.allowKey (!l.inFlow)).pushHere .key 1

/-- A colon. If a key was possible, the tokens since then are that key. -/
def value? (l : Lexer) : Option Lexer :=
  match l.keys with
  | some k :: outer =>
    let l := { l with
      keys := none :: outer
      tokens := l.tokens.take k.tokens ++ Token.key :: l.tokens.drop k.tokens }
    let l := l.openBlock k.column .blockMappingStart (some k.tokens)
    some ((l.allowKey false).pushHere .value 1)
  | _ => do
    let l ←
      if l.inFlow then some l
      else if l.keyAllowed then some (l.openBlock l.cursor.column .blockMappingStart none)
      else none
    return (l.allowKey (!l.inFlow)).pushHere .value 1

def anchor? (l : Lexer) (token : String → Token) : Option Lexer := do
  let l ← l.noteKey?
  let (name, cursor) ← anchorName? (l.cursor.advance 1)
  return ({ l with cursor }.allowKey false).push (token name)

def readTag? (l : Lexer) : Option Lexer := do
  let l ← l.noteKey?
  let (token, cursor) ← tag? l.inFlow l.cursor
  return ({ l with cursor }.allowKey false).push token

def readBlock? (l : Lexer) (keepLines : Bool) : Option Lexer := do
  let l ← l.dropKey?
  let (text, cursor) ← block? keepLines l.indent (l.cursor.advance 1)
  let style := if keepLines then Style.literal else Style.folded
  return ({ l with cursor }.allowKey true).push (.scalar style (String.ofList text))

def readQuoted? (l : Lexer) (double : Bool) : Option Lexer := do
  let l ← l.noteKey?
  let c := l.cursor.advance 1
  let (text, cursor) ← quoted? double (c.rest.length + 1) c []
  let style := if double then Style.double else Style.single
  return ({ l with cursor }.allowKey false).push (.scalar style (String.ofList text))

def readPlain? (l : Lexer) : Option Lexer := do
  let l ← l.noteKey?
  let c := l.cursor
  let (text, cursor, atLineStart) ← plain? l.inFlow (l.indent + 1) (c.rest.length + 1) c Gap.none []
  return ({ l with cursor }.allowKey atLineStart).push (.scalar .plain (String.ofList text))

/-- Characters that cannot start a plain scalar on their own. -/
def indicators : List Char :=
  "-?:,[]\x7b\x7d#&*!|>'\"%@\x60".toList

/-- Reads the token that starts with `c`, before `cs`. -/
def fetch? (l : Lexer) (c : Char) (cs : List Char) : Option Lexer :=
  let flow := l.inFlow
  if l.cursor.column == 0 && c == '%' then do
    let l ← l.breakOff?
    let (token, cursor) ← directive? l.cursor
    return { l with cursor }.push token
  else if l.cursor.atMarker '-' then do
    return (← l.breakOff?).pushHere .documentStart 3
  else if l.cursor.atMarker '.' then do
    return (← l.breakOff?).pushHere .documentEnd 3
  else if c == '[' then l.openFlow? .flowSequenceStart
  else if c == '\x7b' then l.openFlow? .flowMappingStart
  else if c == ']' then l.closeFlow? .flowSequenceEnd
  else if c == '\x7d' then l.closeFlow? .flowMappingEnd
  else if c == ',' then do
    return ((← l.dropKey?).allowKey true).pushHere .flowEntry 1
  else if c == '-' && blankNext cs then l.blockEntry?
  else if c == '?' && (flow || blankNext cs) then l.explicitKey?
  else if c == ':' && (flow || blankNext cs) then l.value?
  else if c == '*' then l.anchor? .alias
  else if c == '&' then l.anchor? .anchor
  else if c == '!' then l.readTag?
  else if c == '|' && !flow then l.readBlock? true
  else if c == '>' && !flow then l.readBlock? false
  else if c == '\'' then l.readQuoted? false
  else if c == '"' then l.readQuoted? true
  else if !(isBlank c || indicators.contains c) ||
      (c == '-' && !(cs.head?.any isBlank)) ||
      (!flow && (c == '?' || c == ':') && !blankNext cs) then l.readPlain?
  else none

/-- Reads tokens up to the end of the document. -/
def run? : (fuel : Nat) → Lexer → Option (List Token)
  | 0, _ => none
  | fuel + 1, l => do
    let l := skipSpace (l.cursor.rest.length + 1) l
    let l ← l.dropStale?
    let l := l.unroll l.cursor.column
    match l.cursor.rest with
    | [] =>
      let l ← (l.unroll (-1)).dropKey?
      return l.tokens ++ [.streamEnd]
    | c :: cs => run? fuel (← l.fetch? c cs)

end Lexer

/-- The tokens of a document. -/
def tokens? (cs : List Char) : Option (List Token) :=
  if cs.all isAllowed then (Lexer.ofText cs).run? (cs.length + 2) else none

end Yaml
end TimedAutomata
