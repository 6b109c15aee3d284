import TimedAutomata.Config.Basic
import TimedAutomata.Diagnostic.Basic
import TimedAutomata.Generation.File
import TimedAutomata.Network.Reader
import TimedAutomata.Topology.Resolver

/-!
# Compilation

From a text to a program, and from there to Go.

- `analyze`: reads a text, finds its channels and settles its arbitration
- `compile`: generates Go from an analysed text
- `Failure`: what can go wrong
- `analyzeReporting`, `compileReporting`: the same, with diagnostics about the text
-/

namespace TimedAutomata

/-- Why a compilation failed. All errors of one stage come together. -/
inductive Failure where
  | unreadable (e : ReadError)
  | unmatched (us : List Unmatched)
  | unsettled (fs : List Policy.Fault)
  | colliding (cs : List Generation.Collision)
  | configuration (e : Config.Error)

namespace Failure

def message : Failure → String
  | .unreadable e => e.message
  | .unmatched us => toString us.length ++ " unmatched communication(s)"
  | .unsettled fs => toString fs.length ++ " arbitration error(s)"
  | .colliding cs => toString cs.length ++ " code generation error(s)"
  | .configuration e => e.message

/-- One diagnostic for each error of a failure. -/
def diagnostics (file : FileId) : Failure → List Diagnostic
  | .unreadable e => [.errorAt file e.span e.cause.message]
  | .unmatched us => us.map fun u => .errorAt file u.span u.message
  | .unsettled fs => fs.map fun f =>
    match f.span? with
    | some span => .errorAt file span f.message
    | none => .general f.message
  | .colliding cs => cs.map fun c => .general c.message
  | .configuration e => [.general e.message]

end Failure

/-! ## The stages -/

/-- The program of a text. -/
def analyze (text : String) (c : Config) : Except Failure Program := do
  let net ← (Network.read text).mapError .unreadable
  let topology ← (Topology.resolve net).mapError .unmatched
  let policy ← (Policy.resolve net c.arbitration).mapError .unsettled
  return ⟨net, topology, policy⟩

/-- The Go program of a text. -/
def compile (text : String) (c : Config) : Except Failure String := do
  let p ← analyze text c
  (Generation.emit p c.emission).mapError .colliding

/-! ## With diagnostics -/

/-- An analysis together with what is said about the text: warnings, or errors. -/
def analyzeReporting (file : FileId) (text : String) (c : Config) :
    Except Failure Program × List Diagnostic :=
  match analyze text c with
  | .ok p => (.ok p, p.topology.warnings.map fun w => .warningAt file w.span w.message)
  | .error f => (.error f, f.diagnostics file)

/-- A compilation together with what is said about the text. -/
def compileReporting (file : FileId) (text : String) (c : Config) :
    Except Failure String × List Diagnostic :=
  match analyzeReporting file text c with
  | (.error f, ds) => (.error f, ds)
  | (.ok p, ds) =>
    match Generation.emit p c.emission with
    | .error cs => (.error (.colliding cs), ds ++ (Failure.colliding cs).diagnostics file)
    | .ok go => (.ok go, ds)

end TimedAutomata
