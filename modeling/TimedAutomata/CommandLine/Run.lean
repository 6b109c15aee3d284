import TimedAutomata.CommandLine.Files
import TimedAutomata.CommandLine.Options
import TimedAutomata.Compilation.Journal

/-!
# Running the command

The command reads the notation files it is given, joins them, compiles the result and writes the
generated program. Journal and diagnostics go to the standard error stream in the order in which
they arise.

- `Outcome`: what the command leaves behind besides files
- `joined`: the inputs as one text
- `compiled`: the part between reading and writing
- `run`: the whole command, on any kind of storage
-/

namespace TimedAutomata
namespace CommandLine

open Journal (Record)

structure Outcome where
  code : Nat
  stdout : String
  stderr : String
  deriving DecidableEq, Repr, Inhabited

/-- Why the command failed, and what caused it. -/
structure Mishap where
  message : String
  cause : Option String
  deriving DecidableEq, Repr

namespace Mishap

def text (m : Mishap) : String :=
  "Error: " ++ m.message ++ "\n" ++
    match m.cause with
    | some cause => "\nCaused by:\n    " ++ cause ++ "\n"
    | none => ""

end Mishap

/-- The records that are shown, as lines. -/
def shown (o : Options) (records : List Record) : String :=
  String.join ((Journal.visible o.verbosity records).map Record.line)

/-- Diagnostics about the joined inputs. -/
def rendered (o : Options) (file : SourceFile) (ds : List Diagnostic) : String :=
  Diagnostic.render (o.color != .never) [file] ds

def commandRecord (text : String) : Record :=
  ⟨.info, .compilation, text⟩

/-! ## Reading -/

variable {m : Type → Type} [Monad m]

/-- The configuration in a file. -/
def loadConfig (files : Files m) (path : String) : m (Except Mishap Config) := do
  match ← files.read path with
  | .error e =>
    return .error ⟨"failed to read configuration `" ++ path ++ "`: " ++ e.message, some e.message⟩
  | .ok text => return (Config.read text).mapError fun e => ⟨e.message, none⟩

/-- The configuration, with what the options say about it. -/
def configure (files : Files m) (o : Options) : m (Except Mishap Config) := do
  let loaded ← match o.config with
    | some path => loadConfig files path
    | none => pure (.ok .default)
  return do (o.override (← loaded)).check.mapError fun e => ⟨e.message, none⟩

/-- The texts of all inputs. -/
def readInputs (files : Files m) : List String → m (Except Mishap (List String))
  | [] => return .ok []
  | path :: paths => do
    match ← files.read path with
    | .error e => return .error ⟨"failed to read " ++ path, some e.message⟩
    | .ok text => return (← readInputs files paths).map (text :: ·)

/-- The inputs as one text, a line feed behind each. -/
def joined (texts : List String) : String :=
  String.join (texts.map (· ++ "\n"))

/-! ## Compiling -/

/-- The generated program, or why there is none, and what is reported on the way. -/
def compiled (o : Options) (c : Config) (text : String) : Except Mishap String × String :=
  let file : SourceFile := ⟨"+".intercalate o.inputs, text⟩
  let failed (f : Failure) : Except Mishap String :=
    .error ⟨"compilation failed: " ++ f.message, none⟩
  let (analysis, ds) := analyzeReporting 0 text c
  let said := shown o (analysisJournal text c) ++ rendered o file ds
  match analysis with
  | .error f => (failed f, said)
  | .ok p =>
    let said := said ++ shown o (Generation.journal p c.emission)
    match Generation.emit p c.emission with
    | .error cs =>
      let f := Failure.colliding cs
      (failed f, said ++ rendered o file (f.diagnostics 0))
    | .ok go => (.ok go, said)

/-! ## The command -/

/-- The outcome of a failure, after what was said before. -/
def Outcome.ofMishap (said : String) (m : Mishap) : Outcome :=
  ⟨1, "", said ++ m.text⟩

/-- Puts the generated program where it belongs. -/
def deliver (files : Files m) (o : Options) (said go : String) : m Outcome := do
  if o.output = "-" then return ⟨0, go, said⟩
  else
    match ← files.write o.output go with
    | .error e => return .ofMishap said ⟨"failed to write " ++ o.output, some e.message⟩
    | .ok () => return ⟨0, "", said ++ shown o [commandRecord ("wrote " ++ o.output)]⟩

/-- The command with its options. -/
def runWith (files : Files m) (o : Options) : m Outcome := do
  match ← configure files o with
  | .error e => return .ofMishap "" e
  | .ok c =>
    match ← readInputs files o.inputs with
    | .error e => return .ofMishap "" e
    | .ok texts =>
      let text := joined texts
      let opening := shown o [commandRecord <|
        "read " ++ toString text.utf8ByteSize ++ " byte(s) from " ++ toString texts.length ++
          " file(s)"]
      match compiled o c text with
      | (.error e, said) => return .ofMishap (opening ++ said) e
      | (.ok go, said) => deliver files o (opening ++ said) go

/-- The command with its arguments. -/
def run (files : Files m) (args : List String) : m Outcome :=
  match Options.read args with
  | .error e => return ⟨2, "", "error: " ++ e.message ++ "\n"⟩
  | .ok o => runWith files o

end CommandLine
end TimedAutomata
