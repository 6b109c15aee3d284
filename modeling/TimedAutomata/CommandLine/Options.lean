import TimedAutomata.Config.Reader
import TimedAutomata.Journal

/-!
# Options

The arguments of the command.

- `Key`: the options by name
- `Item`, `items`: arguments one by one, as inputs, switches and options with values
- `Options.read`: all arguments together
- `UsageError`: why arguments are refused

A value stands in the same argument as its option (`--seed=3`, `-o=x`, `-ox`) or is the next
argument. In that case it must not look like an option itself; a single `-` does not. Behind `--`
there are only inputs.
-/

namespace TimedAutomata
namespace CommandLine

inductive Key where
  | config
  | output
  | channelDepth
  | seed
  | package
  | noTrace
  | verbose
  | quiet
  | color
  deriving DecidableEq, Repr, Inhabited

namespace Key

def name : Key → String
  | .config => "config"
  | .output => "output"
  | .channelDepth => "channel-depth"
  | .seed => "seed"
  | .package => "package"
  | .noTrace => "no-trace"
  | .verbose => "verbose"
  | .quiet => "quiet"
  | .color => "color"

def all : List Key :=
  [.config, .output, .channelDepth, .seed, .package, .noTrace, .verbose, .quiet, .color]

def ofName? (s : String) : Option Key :=
  all.find? fun k => k.name == s

def ofLetter? : Char → Option Key
  | 'c' => some .config
  | 'o' => some .output
  | 'v' => some .verbose
  | 'q' => some .quiet
  | _ => none

/-- Whether the option has a value. The others are switches. -/
def hasValue : Key → Bool
  | .noTrace | .verbose | .quiet => false
  | _ => true

end Key

inductive UsageError where
  | unknown (argument : String)
  | missingValue (key : Key)
  | unexpectedValue (key : Key)
  | badValue (key : Key) (value : String)
  | repeated (key : Key)
  | verboseAndQuiet
  | noInputs
  deriving DecidableEq, Repr

namespace UsageError

def message : UsageError → String
  | .unknown argument => "unexpected argument '" ++ argument ++ "'"
  | .missingValue key => "'--" ++ key.name ++ "' needs a value"
  | .unexpectedValue key => "'--" ++ key.name ++ "' has no value"
  | .badValue key value => "invalid value '" ++ value ++ "' for '--" ++ key.name ++ "'"
  | .repeated key => "'--" ++ key.name ++ "' is given more than once"
  | .verboseAndQuiet => "'--verbose' and '--quiet' exclude each other"
  | .noInputs => "no inputs are given"

end UsageError

/-! ## Single arguments -/

inductive Item where
  | input (path : String)
  | switch (key : Key)
  | option (key : Key) (value : String)
  deriving DecidableEq, Repr, Inhabited

/-- Items, and an option whose value is the next argument. -/
abbrev Opened := List Item × Option Key

/-- What stands behind a single dash: letters of switches, at last one of an option, possibly with
its value. -/
def letters : List Char → Except UsageError Opened
  | [] => .ok ([], none)
  | c :: cs =>
    match Key.ofLetter? c with
    | none => .error (.unknown (String.ofList ['-', c]))
    | some key =>
      if key.hasValue then
        match cs with
        | [] => .ok ([], some key)
        | '=' :: value => .ok ([.option key (String.ofList value)], none)
        | value => .ok ([.option key (String.ofList value)], none)
      else do
        let (items, open?) ← letters cs
        return (.switch key :: items, open?)

/-- What stands behind two dashes: a name, possibly with a value. -/
def named (cs : List Char) : Except UsageError Opened :=
  let name := String.ofList (cs.takeWhile (· ≠ '='))
  match Key.ofName? name, cs.dropWhile (· ≠ '=') with
  | none, _ => .error (.unknown ("--" ++ name))
  | some key, [] => if key.hasValue then .ok ([], some key) else .ok ([.switch key], none)
  | some key, _ :: value =>
    if key.hasValue then .ok ([.option key (String.ofList value)], none)
    else .error (.unexpectedValue key)

def argument (arg : String) : Except UsageError Opened :=
  match arg.toList with
  | '-' :: '-' :: cs => named cs
  | '-' :: c :: cs => letters (c :: cs)
  | _ => .ok ([.input arg], none)

/-- Whether an argument can be the value of the option before it. -/
def isValue (arg : String) : Bool :=
  match arg.toList with
  | '-' :: _ :: _ => false
  | _ => true

/-- The items of arguments. -/
def items : List String → Except UsageError (List Item)
  | [] => .ok []
  | arg :: rest =>
    if arg = "--" then .ok (rest.map .input)
    else
      match argument arg, rest with
      | .error e, _ => .error e
      | .ok (first, none), rest => do return first ++ (← items rest)
      | .ok (_, some key), [] => .error (.missingValue key)
      | .ok (first, some key), value :: rest =>
        if isValue value then do return first ++ .option key value :: (← items rest)
        else .error (.missingValue key)

/-! ## All arguments -/

inductive ColorChoice where
  | auto
  | always
  | never
  deriving DecidableEq, Repr, Inhabited

structure Options where
  inputs : List String
  config : Option String
  /-- Where the generated program goes; `-` is the standard output. -/
  output : String
  channelDepth : Option Nat
  seed : Option Int
  package : Option String
  trace : Bool
  verbosity : Journal.Verbosity
  color : ColorChoice
  deriving DecidableEq, Repr

/-- A natural number in 64 bits, in base ten, possibly with a plus sign. -/
def natural? (s : String) : Option Nat := do
  let n ← match s.toList with
    | '+' :: cs => Config.digits? 10 cs
    | cs => Config.digits? 10 cs
  if n < UInt64.size then some n else none

/-- An integer in 64 bits, in base ten, possibly with a sign. -/
def integer? (s : String) : Option Int := do
  let n : Int ← match s.toList with
    | '-' :: cs => (Config.digits? 10 cs).map fun n => -(n : Int)
    | '+' :: cs => (Config.digits? 10 cs).map fun n => (n : Int)
    | cs => (Config.digits? 10 cs).map fun n => (n : Int)
  if Config.fitsWord n then some n else none

def color? : String → Option ColorChoice
  | "auto" => some .auto
  | "always" => some .always
  | "never" => some .never
  | _ => none

/-- The value of an option, which is given once at most. -/
def value? {α : Type} (items : List Item) (key : Key) (read : String → Option α) :
    Except UsageError (Option α) :=
  let values := items.filterMap fun
    | .option k value => if k = key then some value else none
    | _ => none
  match values with
  | [] => .ok none
  | [value] =>
    match read value with
    | some a => .ok (some a)
    | none => .error (.badValue key value)
  | _ => .error (.repeated key)

/-- How often a switch is given. -/
def count (items : List Item) (key : Key) : Nat :=
  items.countP (· == .switch key)

/-- Warnings and errors are shown; each `-v` shows more and each `-q` less. -/
def verbosityOf (verbose quiet : Nat) : Journal.Verbosity :=
  2 + verbose - quiet

namespace Options

def read (args : List String) : Except UsageError Options := do
  let items ← items args
  let inputs := items.filterMap fun
    | .input path => some path
    | _ => none
  let config ← value? items .config some
  let output ← value? items .output some
  let channelDepth ← value? items .channelDepth natural?
  let seed ← value? items .seed integer?
  let package ← value? items .package some
  let color ← value? items .color color?
  let verbose := count items .verbose
  let quiet := count items .quiet
  if 1 < count items .noTrace then .error (.repeated .noTrace)
  else if 0 < verbose && 0 < quiet then .error .verboseAndQuiet
  else if inputs.isEmpty then .error .noInputs
  else
    return {
      inputs, config, channelDepth, seed, package
      output := output.getD "golang_automata.go"
      trace := count items .noTrace = 0
      verbosity := verbosityOf verbose quiet
      color := color.getD .auto }

/-- A configuration in which options take the place of what is written in a file. -/
def override (o : Options) (c : Config) : Config :=
  let e := c.emission
  { c with emission := { e with
      channelDepth := o.channelDepth.getD e.channelDepth
      seed := o.seed <|> e.seed
      package := o.package.getD e.package
      trace := e.trace && o.trace } }

end Options
end CommandLine
end TimedAutomata
