/-!
# Ink

Text for a terminal, with the colours it is shown in.

- `Severity`: how bad a diagnostic is
- `Style`: what a piece of text is, and so how it looks
- `Ink`: text and changes of style, in order
- `Ink.render`: the characters sent to the terminal, with or without colours
-/

namespace TimedAutomata

inductive Severity where
  | error
  | warning
  deriving DecidableEq, Repr, Inhabited

namespace Severity

def name : Severity → String
  | .error => "error"
  | .warning => "warning"

def title : Severity → String
  | .error => "Error"
  | .warning => "Warning"

end Severity

inductive Style where
  /-- The title of a diagnostic without a place. -/
  | title (s : Severity)
  /-- The severity at the head of a diagnostic. -/
  | header (s : Severity)
  /-- The message at the head of a diagnostic. -/
  | headline
  /-- What a diagnostic points at. -/
  | label (s : Severity)
  /-- Line numbers and borders. -/
  | frame
  deriving DecidableEq, Repr, Inhabited

/-- Text, or a change of the style of all text after it. -/
inductive Ink where
  | text (s : String)
  | set (style : Style)
  | reset
  deriving DecidableEq, Repr, Inhabited

namespace Ink

/-! ## Colours -/

/-- The escape sequence with a given parameter. -/
def escape (parameter : String) : String :=
  "\x1b[" ++ parameter ++ "m"

/-- The dark colour of a severity. -/
def dark : Severity → String
  | .error => "31"
  | .warning => "33"

/-- The bright colour of a severity, from the table of 256 colours. -/
def bright : Severity → String
  | .error => "38;5;9"
  | .warning => "38;5;11"

/-- The parameters that give a style, after all others are taken away. -/
def parameters : Style → List String
  | .title s => ["1", dark s]
  | .header s => ["1", bright s]
  | .headline => ["1"]
  | .label s => [dark s]
  | .frame => ["34"]

/-! ## Rendering -/

def chars (colour : Bool) : Ink → String
  | .text s => s
  | .set style => if colour then String.join (("0" :: parameters style).map escape) else ""
  | .reset => if colour then escape "0" else ""

/-- The characters of ink, in colour or without. -/
def render (colour : Bool) (ink : List Ink) : String :=
  String.join (ink.map (chars colour))

/-- A text in a style of its own. -/
def styled (style : Style) (s : String) : List Ink :=
  [.set style, .text s, .reset]

/-- The same character several times. -/
def repeated (n : Nat) (c : Char) : String :=
  String.ofList (List.replicate n c)

end Ink
end TimedAutomata
