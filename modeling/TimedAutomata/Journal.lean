import TimedAutomata.Text.Terminal

/-!
# The journal

What the program reports about its own work, as data. Each stage has a function from its input to
its records; nothing is printed here.

- `Journal.Level`, `Journal.Area`: how important a record is and which stage it comes from
- `Journal.Record`: one line
- `Journal.Verbosity`: which records are shown
-/

namespace TimedAutomata
namespace Journal

inductive Level where
  | error
  | warn
  | info
  | debug
  deriving DecidableEq, Repr, Inhabited

namespace Level

def name : Level → String
  | .error => "ERROR"
  | .warn => "WARN"
  | .info => "INFO"
  | .debug => "DEBUG"

/-- Higher numbers for less important records. -/
def rank : Level → Nat
  | .error => 1
  | .warn => 2
  | .info => 3
  | .debug => 4

end Level

/-- The stage that a record comes from. -/
inductive Area where
  | compilation
  | reading
  | channels
  | arbitration
  | generation
  | simulation
  deriving DecidableEq, Repr, Inhabited

namespace Area

/-- The name under which a stage reports. -/
def name : Area → String
  | .compilation => "ctac"
  | .reading => "ctac::parser"
  | .channels => "ctac::topology"
  | .arbitration => "ctac::policy"
  | .generation => "ctac::backends::golang"
  | .simulation => "ctac::sim"

end Area

structure Record where
  level : Level
  area : Area
  text : String
  deriving DecidableEq, Repr, Inhabited

namespace Record

/-- Level and text. -/
def brief (r : Record) : String :=
  r.level.name ++ " " ++ r.text

/-- The text with its lines after the first indented. -/
def indented (r : Record) : List Char :=
  r.text.toList.flatMap fun c => if c = '\n' then "\n    ".toList else [c]

/-- Level, padded to five characters, stage and text, as it is printed. -/
def line (r : Record) : String :=
  let level := String.ofList (r.level.name.toList.rightpad 5 ' ')
  let front := "[" ++ level ++ " " ++ r.area.name ++ "] "
  String.ofList (Text.plain (front.toList ++ r.indented ++ ['\n']))

end Record

/-- The least important records shown, by rank; `0` shows none. -/
abbrev Verbosity := Nat

/-- The records of rank at most `v`. -/
def visible (v : Verbosity) (records : List Record) : List Record :=
  records.filter fun r => r.level.rank ≤ v

end Journal
end TimedAutomata
