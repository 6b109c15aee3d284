/-!
# Text without control sequences

A terminal takes some characters as commands: control characters, and sequences that start with
an escape. Where a text may come from anywhere, only what is shown of it is kept, and white space.

- `Control`: where in a control sequence a text is
- `Control.next`: how a character continues a sequence
- `plain`: the text that is left
-/

namespace TimedAutomata
namespace Text

/-- Where in a control sequence a text is. -/
inductive Control where
  | outside
  /-- After the escape character. -/
  | escape
  /-- In an escape sequence of more than two characters. -/
  | intermediate
  /-- In a sequence of parameters, up to a letter. -/
  | sequence
  /-- At the start of a command to a device. -/
  | deviceStart
  | deviceParameter
  | deviceIntermediate
  /-- In a text that is not shown, up to a string terminator. -/
  | string
  /-- In a command to the system, up to a bell. -/
  | command
  deriving DecidableEq, Repr, Inhabited

namespace Control

/-- The byte that ends a string, even as a part of a character. -/
def terminator : UInt8 := 0x9C

/-- How an ASCII character that is not a control character continues a sequence. -/
def nextGraphic (s : Control) (c : Char) : Control :=
  let n := c.toNat
  match s with
  | outside => outside
  | escape =>
    if n < 0x30 then intermediate
    else if c = '[' then sequence
    else if c = ']' then command
    else if c = 'P' then deviceStart
    else if c = 'X' || c = '^' || c = '_' then string
    else outside
  | intermediate => if n < 0x30 then intermediate else outside
  | sequence => if n < 0x40 then sequence else outside
  | deviceStart =>
    if n < 0x30 then deviceIntermediate else if n < 0x40 then deviceParameter else string
  | deviceParameter =>
    if n < 0x30 then deviceIntermediate else if n < 0x3C then deviceParameter else string
  | deviceIntermediate => if n < 0x30 then deviceIntermediate else string
  | string => string
  | command => command

/-- How a character continues a sequence. An escape starts a new one and two further control
characters break it off, wherever they stand. -/
def next (s : Control) (c : Char) : Control :=
  let n := c.toNat
  if n = 0x1B then escape
  else if n = 0x18 || n = 0x1A then outside
  else if n < 0x20 then if s = command && n = 0x07 then outside else s
  else if n < 0x7F then s.nextGraphic c
  else if s = string && (String.utf8EncodeChar c).contains terminator then outside
  else s

/-- Whether a sequence lets control characters through. -/
def isTransparent : Control → Bool
  | outside | escape | intermediate | sequence => true
  | _ => false

/-- White space among the control characters. -/
def isSpacing (c : Char) : Bool :=
  c = '\t' || c = '\n' || c = '\x0c' || c = '\r'

/-- Whether a character is shown. -/
def shows (s : Control) (c : Char) : Bool :=
  if c.toNat < 0x20 then s.isTransparent && isSpacing c
  else s = outside && c.toNat != 0x7F

end Control

/-- What is shown of a text that starts within a sequence. Once a character was shown, all that
follow are, up to the next that cannot be; only then the sequence goes on. -/
def plainFrom (s : Control) (shown : Bool) : List Char → List Char
  | [] => []
  | c :: cs =>
    if (if shown then Control.outside else s).shows c then
      c :: plainFrom (if c.toNat < 0x80 then s else .outside) true cs
    else plainFrom (s.next c) false cs

def plain (cs : List Char) : List Char :=
  plainFrom .outside false cs

end Text
end TimedAutomata
