import TimedAutomata.Generation.Worker
import TimedAutomata.Journal

/-!
# Generated programs

A whole Go program: parameters, message types, channels, helpers, one worker for each automaton,
and a main function that starts the workers and advances the clock.

- `mainFunc`: the main function
- `declarations`: what a program declares
- `fileLines`, `fileText`: the program
- `emit`: the program, unless two things in it would have the same name
-/

namespace TimedAutomata
namespace Generation

def mainFunc (p : Program) (e : Emission) : Func where
  doc := []
  name := "main"
  params := ""
  result := none
  body :=
    let base := match e.seed with
      | some _ => Expr.name "seed"
      | none => Expr.call "time.Now().UnixNano" []
    let start (a : Automaton × AutomatonId) : Stmt :=
      let source := Expr.call "rand.NewSource" [.binary .add (.name "base") (.int a.2)]
      .go (.call (workerName a.1.label) [.call "rand.New" [source], .address "wg"])
    [.define "base" base,
     .declare "wg" "sync.WaitGroup",
     .call (.call "wg.Add" [.int p.network.length])] ++
    p.network.zipIdx.map start ++
    [.blank,
     .define "done" (.makeChan ("struct" ++ braces) none),
     .goFunc [.call (.call "wg.Wait" []), .call (.call "close" [.name "done"])],
     .blank,
     .define "ticker" (.call "time.NewTicker" [.name "tickInterval"]),
     .deferred (.call "ticker.Stop" []),
     .forever [.select [
      .mk [.receive "done"]
        [.call (.call "fmt.Println" [.string "all automata halted"]), .giveBack none],
      .mk [.receive "ticker.C"] [.call (.call "clock.Add" [.int 1])]]]]

/-! ## Declarations -/

def constants (e : Emission) : List Entry :=
  [⟨none, "channelDepth", " = " ++ toString e.channelDepth⟩,
   ⟨none, "tickInterval", " = " ++ toString e.tickInterval ++ " * time.Millisecond"⟩,
   ⟨none, "pollInterval", " = " ++ toString e.pollInterval ++ " * time.Millisecond"⟩] ++
  match e.seed with
  | some seed => [⟨none, "seed", "         int64 = " ++ toString seed⟩]
  | none => []

/-- What is written above the declaration of a channel. -/
def channelNote (r : Route) : String :=
  "// " ++ r.sender ++ " -> " ++ r.receiver ++ " : " ++ r.payload

def channelEntry (r : Route) : Entry :=
  let made := Expr.makeChan (payloadType r.payload) (some "channelDepth")
  ⟨some (channelNote r), r.name, " = " ++ made.text⟩

/-- Everything a program declares, in order. -/
def declarations (p : Program) (e : Emission) : List Decl :=
  [.consts (constants e),
   .var "// global time in ticks, advanced by main" "clock" "atomic.Int64",
   .empties (p.topology.payloads.map payloadType),
   .vars (p.topology.routes.map channelEntry)] ++
  helpers.map .func ++
  p.network.zipIdx.map (fun a => .func (worker p e a.2 a.1)) ++
  [.func (mainFunc p e)]

/-! ## Files -/

def importLines : List String :=
  ["import ("] ++
  ["fmt", "math/rand", "sync", "sync/atomic", "time"].map (fun m => "\t\"" ++ m ++ "\"") ++
  [")"]

/-- The declarations of all automata, in a comment. -/
def sourceLines (p : Program) : List String :=
  ["/* Automata:"] ++
  p.network.flatMap (fun a => (Text.linesOf a.source).map ("\t" ++ ·)) ++
  ["*/"]

/-- The lines of a program: blocks with an empty line between them. -/
def fileLines (p : Program) (e : Emission) : List String :=
  [""].intercalate <|
    [["// Code generated by ctac. DO NOT EDIT."], ["package " ++ e.package], importLines,
     sourceLines p] ++
    (declarations p e).map Decl.lines

/-- The text of a program. -/
def fileText (p : Program) (e : Emission) : String :=
  String.join ((fileLines p e).map (· ++ "\n"))

/-- Generates a program. -/
def emit (p : Program) (e : Emission) : Except (List Collision) String :=
  match collisions p with
  | [] => .ok (fileText p e)
  | cs => .error cs

/-- What generating a program reports. -/
def journal (p : Program) (e : Emission) : List Journal.Record :=
  match emit p e with
  | .error _ => []
  | .ok text =>
    [⟨.info, .generation,
      "generated " ++ toString p.network.length ++ " worker(s) and " ++
        toString p.topology.channels.length ++ " channel(s), " ++
        toString text.utf8ByteSize ++ " bytes of Go"⟩]

end Generation
end TimedAutomata
