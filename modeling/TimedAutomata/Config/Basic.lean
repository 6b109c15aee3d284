/-!
# Configurations

What influences a compilation besides the automata: parameters of the generated program, and the
priorities of transitions.

- `Emission`: parameters of the generated program, with their defaults
- `ArbitrationEntry`: classes for the transitions of one state
- `Config.check`: values that can be written down but make no working program
-/

namespace TimedAutomata

/-- Parameters of the generated program. -/
structure Emission where
  package : String
  /-- How many messages a channel holds. -/
  channelDepth : Nat
  /-- The period of the clock, in milliseconds. -/
  tickInterval : Nat
  /-- How long a worker with nothing to do sleeps, in milliseconds. -/
  pollInterval : Nat
  /-- The seed of the random choices; none to take it from the time. -/
  seed : Option Int
  /-- Whether the program prints its state changes. -/
  trace : Bool
  deriving DecidableEq, Repr

namespace Emission

def default : Emission where
  package := "main"
  channelDepth := 2
  tickInterval := 100
  pollInterval := 10
  seed := none
  trace := true

instance : Inhabited Emission := ⟨default⟩

end Emission

/-- A priority class without its rank. -/
inductive ClassName where
  | exclusive
  | ranked
  | default
  deriving DecidableEq, Repr, Inhabited

/-- The class of the transition with a given ordinal; a rank belongs to `ranked` only. -/
structure Assignment where
  ordinal : Nat
  className : ClassName
  rank : Option Nat
  deriving DecidableEq, Repr, Inhabited

/-- Classes for the outgoing transitions of one state. -/
structure ArbitrationEntry where
  automaton : String
  state : String
  assignments : List Assignment
  deriving DecidableEq, Repr, Inhabited

structure Config where
  emission : Emission
  arbitration : List ArbitrationEntry
  deriving DecidableEq, Repr

namespace Config

def default : Config := ⟨.default, []⟩

instance : Inhabited Config := ⟨default⟩

inductive Error where
  /-- The text is not a configuration. -/
  | unreadable
  /-- The value of a field makes no working program. -/
  | invalid (field reason : String)
  deriving DecidableEq, Repr

namespace Error

def message : Error → String
  | .unreadable => "invalid configuration"
  | .invalid field reason => "invalid configuration: `" ++ field ++ "` " ++ reason

end Error

/-- Refuses channels that can hold no message: no transition over them would ever be enabled. -/
def check (c : Config) : Except Error Config :=
  if c.emission.channelDepth = 0 then
    .error (.invalid "emit.channel_depth" "must be at least 1")
  else .ok c

end Config
end TimedAutomata
