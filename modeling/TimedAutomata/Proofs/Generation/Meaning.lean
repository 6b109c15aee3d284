import Mathlib.Algebra.Group.Int.Defs
import Mathlib.Algebra.Group.Nat.Defs
import TimedAutomata.Generation.Worker
import TimedAutomata.Grammar.Lexeme

/-!
# The meaning of generated statements

What the statements of a generated worker do, by the rules of Go for the forms that workers use.
An execution may draw random numbers, so there is a list of possible results.

* `Value`, `Machine`: what a worker computes with
* `Trap`: a communication that would wait, a run-time panic, or a text that is no such program
* `Expr.eval`, `Stmt.exec`: expressions and statements. Expressions have a meaning only if the
  grouping of the tree is the one that Go reads off the text.
* `Func.run`: calling a function
* `goCall`: the calls a worker can make: the helpers, and some functions of the language
-/

namespace TimedAutomata
namespace Generation

/-! ## Values and machines -/

inductive Value where
  | int (n : Int)
  | bool (b : Bool)
  | string (s : String)
  | bools (bs : List Bool)
  | ints (ns : List Int)
  | message (type : String)
  | channel (name : String)
  /-- A generator of random numbers. -/
  | generator
  deriving DecidableEq, Repr

namespace Value

/-- Whether two values have the same type. -/
def alike : Value → Value → Bool
  | .int _, .int _ | .bool _, .bool _ | .string _, .string _ | .bools _, .bools _
  | .ints _, .ints _ | .generator, .generator => true
  | .message a, .message b => a == b
  | .channel a, .channel b => a == b
  | _, _ => false

end Value

/-- What a worker sees while it runs. -/
structure Machine where
  /-- The variables in scope, the innermost first. -/
  vars : List (String × Value)
  /-- The number of messages in each channel. -/
  channels : String → Option Nat
  /-- The capacity of every channel. -/
  depth : Nat
  /-- The communications performed so far. -/
  performed : List (Direction × String)

/-- Why an execution does not go on. -/
inductive Trap where
  | blocked (channel : String)
  | panic
  | meaningless
  deriving DecidableEq, Repr

/-! ## Possible results -/

/-- The possible results of an execution. -/
abbrev Runs (α : Type) := List (Except Trap α)

namespace Runs

variable {α β : Type}

def ret (a : α) : Runs α := [.ok a]

def trap (t : Trap) : Runs α := [.error t]

/-- One execution after another. -/
def andThen (x : Runs α) (f : α → Runs β) : Runs β :=
  x.flatMap fun
    | .ok a => f a
    | .error t => trap t

@[simp] theorem ret_andThen (a : α) (f : α → Runs β) : (ret a).andThen f = f a := by
  simp [ret, andThen]

@[simp] theorem trap_andThen (t : Trap) (f : α → Runs β) : (trap t).andThen f = trap t := by
  simp [trap, andThen]

theorem andThen_assoc {γ : Type} (x : Runs α) (f : α → Runs β) (g : β → Runs γ) :
    (x.andThen f).andThen g = x.andThen fun a => (f a).andThen g := by
  simp only [andThen, List.flatMap_assoc]
  congr 1
  funext r
  cases r <;> simp [trap]

/-- After an execution without traps, each of its results goes on. -/
theorem map_ok_andThen {ι : Type} (xs : List ι) (g : ι → α) (f : α → Runs β) :
    andThen (xs.map fun i => .ok (g i)) f = xs.flatMap fun i => f (g i) := by
  simp [andThen, List.flatMap_map]

@[simp] theorem mem_ret {r : Except Trap α} {a : α} : r ∈ ret a ↔ r = .ok a := by
  simp [ret]

end Runs

namespace Machine

/-- The value of a name. Variables hide channels, and channels hide the names of the language. -/
def read (m : Machine) (id : String) : Runs Value :=
  match m.vars.lookup id, m.channels id with
  | some v, _ => .ret v
  | none, some _ => .ret (.channel id)
  | none, none =>
    if id = "true" then .ret (.bool true)
    else if id = "false" then .ret (.bool false)
    else .trap .meaningless

def define (m : Machine) (name : String) (v : Value) : Machine :=
  { m with vars := (name, v) :: m.vars }

/-- The variables after an assignment to the innermost one with a given name. -/
def assigned (name : String) (v : Value) : List (String × Value) → List (String × Value)
  | [] => []
  | (n, w) :: vs => if n = name then (n, v) :: vs else (n, w) :: assigned name v vs

def assign (m : Machine) (name : String) (v : Value) : Runs Machine :=
  if name = "_" then .ret m
  else
    match m.vars.lookup name with
    | some w =>
      if w.alike v then .ret { m with vars := assigned name v m.vars } else .trap .meaningless
    | none => .trap .meaningless

/-- The machine after a block that was entered as `outer`: what the block defined is gone. -/
def leave (outer m : Machine) : Machine :=
  { m with vars := m.vars.drop (m.vars.length - outer.vars.length) }

/-- The machine after a communication. -/
def communicated (m : Machine) (d : Direction) (name : String) : Machine :=
  let transfer (level : Nat) := match d with
    | .send => level + 1
    | .receive => level - 1
  { m with
    channels := fun n => if n = name then (m.channels n).map transfer else m.channels n
    performed := m.performed ++ [(d, name)] }

/-- Whether a channel with `level` messages is ready for a communication. -/
def allows (m : Machine) (d : Direction) (level : Nat) : Bool :=
  match d with
  | .send => level < m.depth
  | .receive => 0 < level

/-- Sends or receives a message; if the channel is not ready the worker waits. -/
def communicate (m : Machine) (d : Direction) (name : String) : Runs Machine :=
  match m.channels name with
  | none => .trap .meaningless
  | some level =>
    if m.allows d level then .ret (m.communicated d name) else .trap (.blocked name)

end Machine

/-! ## Expressions -/

namespace Operator

/-- How closely an operator binds. -/
def binding : Operator → Nat
  | .or => 1
  | .and => 2
  | .lt | .le | .gt | .ge | .eq | .ne => 3
  | .sub | .add => 4

/-- The value of an operator between numbers of 64 bits. -/
def apply : Operator → Int → Int → Option Value
  | .lt, a, b => some (.bool (a < b))
  | .le, a, b => some (.bool (a ≤ b))
  | .gt, a, b => some (.bool (a > b))
  | .ge, a, b => some (.bool (a ≥ b))
  | .eq, a, b => some (.bool (a == b))
  | .ne, a, b => some (.bool (a != b))
  | .sub, a, b => some (.int ((a - b).bmod (2 ^ 64)))
  | .add, a, b => some (.int ((a + b).bmod (2 ^ 64)))
  | .and, _, _ | .or, _, _ => none

end Operator

/-- How closely the parts of an expression are held together: those of a binary operator by its
binding, those of the others more closely. -/
def Expr.binding : Expr → Nat
  | .binary op _ _ => op.binding
  | .not _ | .receive _ | .address _ => 6
  | .int n => if n < 0 then 6 else 7
  | _ => 7

/-- Whether a number fits 64 bits. -/
def fits (n : Int) : Bool :=
  -2 ^ 63 ≤ n && n < 2 ^ 63

/-- Whether a text between quotes stands for itself. -/
def isPlain (body : String) : Bool :=
  body.toList.all Grammar.isWordChar

/-- The value itself, if it is a truth value. -/
def Value.checked : Value → Runs Value
  | .bool b => .ret (.bool b)
  | _ => .trap .meaningless

/-- What a call gives, by the name of the function and the values of the arguments. -/
abbrev Call := Machine → String → List Value → Runs Value

mutual

def Expr.eval (call : Call) (m : Machine) : Expr → Runs Value
  | .name id => m.read id
  | .int n => if fits n then .ret (.int n) else .trap .meaningless
  | .string body => if isPlain body then .ret (.string body) else .trap .meaningless
  | .struct type => .ret (.message type)
  | .not inner =>
    if inner.binding < 6 then .trap .meaningless
    else (inner.eval call m).andThen fun
      | .bool b => .ret (.bool !b)
      | _ => .trap .meaningless
  | .paren inner => inner.eval call m
  | .binary op left right =>
    if left.binding < op.binding || right.binding ≤ op.binding then .trap .meaningless
    else (left.eval call m).andThen fun
      | .bool b =>
        match op with
        -- the right side is evaluated only if the left one does not decide
        | .and =>
          if b then (right.eval call m).andThen Value.checked else .ret (.bool false)
        | .or =>
          if b then .ret (.bool true) else (right.eval call m).andThen Value.checked
        | _ => .trap .meaningless
      | .int a => (right.eval call m).andThen fun
        | .int b =>
          match op.apply a b with
          | some v => .ret v
          | none => .trap .meaningless
        | _ => .trap .meaningless
      | _ => .trap .meaningless
  | .index list position =>
    if list.binding < 7 then .trap .meaningless
    else (list.eval call m).andThen fun l => (position.eval call m).andThen fun
      | .int i =>
        match l with
        | .bools bs =>
          if 0 ≤ i then (bs[i.toNat]?.map fun b => .ret (.bool b)).getD (.trap .panic)
          else .trap .panic
        | .ints ns =>
          if 0 ≤ i then (ns[i.toNat]?.map fun n => .ret (.int n)).getD (.trap .panic)
          else .trap .panic
        | _ => .trap .meaningless
      | _ => .trap .meaningless
  | .call function args => (Expr.evalAll call m args).andThen (call m function)
  | .address _ | .makeChan .. | .receive _ => .trap .meaningless

/-- The values of expressions, from left to right. -/
def Expr.evalAll (call : Call) (m : Machine) : List Expr → Runs (List Value)
  | [] => .ret []
  | e :: es => (e.eval call m).andThen fun v =>
    (Expr.evalAll call m es).andThen fun vs => .ret (v :: vs)

end

/-! ## Statements -/

/-- How an execution goes on: with the next statement, or back from the function. -/
inductive Flow where
  | on
  | back (value : Option Value)
  deriving DecidableEq, Repr

/-- The truth values in a list, if all are. -/
def flags? : List Value → Option (List Bool)
  | [] => some []
  | .bool b :: vs => (flags? vs).map (b :: ·)
  | _ :: _ => none

/-- A step for each number of a list, until one goes back. -/
def iterate (step : Int → Machine → Runs (Flow × Machine)) :
    List Int → Machine → Runs (Flow × Machine)
  | [], m => .ret (.on, m)
  | n :: ns, m => (step n m).andThen fun
    | (.on, m) => iterate step ns m
    | (.back v, m) => .ret (.back v, m)

mutual

def Stmt.exec (call : Call) (m : Machine) : Stmt → Runs (Flow × Machine)
  | .define name value => (value.eval call m).andThen fun v => .ret (.on, m.define name v)
  | .defineFlags name values => (Expr.evalAll call m values).andThen fun vs =>
    match flags? vs with
    | some bs => .ret (.on, m.define name (.bools bs))
    | none => .trap .meaningless
  | .declare name type =>
    if type = "[]int" then .ret (.on, m.define name (.ints [])) else .trap .meaningless
  | .assign name value => (value.eval call m).andThen fun v =>
    (m.assign name v).andThen fun m => .ret (.on, m)
  | .call (.receive channel) => (m.communicate .receive channel).andThen fun m => .ret (.on, m)
  | .send channel value => (value.eval call m).andThen fun
    | .message _ => (m.communicate .send channel).andThen fun m => .ret (.on, m)
    | _ => .trap .meaningless
  | .comment _ | .blank => .ret (.on, m)
  | .giveBack none => .ret (.back none, m)
  | .giveBack (some value) => (value.eval call m).andThen fun v => .ret (.back (some v), m)
  | .when condition body => (condition.eval call m).andThen fun
    | .bool true => (Stmt.execAll call m body).andThen fun (flow, inner) =>
      .ret (flow, m.leave inner)
    | .bool false => .ret (.on, m)
    | _ => .trap .meaningless
  | .forEach item list body => (m.read list).andThen fun
    | .ints ns =>
      iterate (fun n m => (Stmt.execAll call (m.define item (.int n)) body).andThen
        fun (flow, inner) => .ret (flow, m.leave inner)) ns m
    | _ => .trap .meaningless
  | .switch subject cases => (m.read subject).andThen fun v => Stmt.execCases call m v cases
  | .call _ | .deferred _ | .go _ | .goFunc _ | .next | .forever _ | .select _ =>
    .trap .meaningless

/-- Statements one after another, in one scope. -/
def Stmt.execAll (call : Call) (m : Machine) : List Stmt → Runs (Flow × Machine)
  | [] => .ret (.on, m)
  | s :: ss => (s.exec call m).andThen fun
    | (.on, m) => Stmt.execAll call m ss
    | (.back v, m) => .ret (.back v, m)

/-- The body of the first case with a label of value `v`. -/
def Stmt.execCases (call : Call) (m : Machine) (v : Value) : List Case → Runs (Flow × Machine)
  | [] => .ret (.on, m)
  | .mk labels body :: cases => (Expr.evalAll call m labels).andThen fun vs =>
    if v ∈ vs then
      (Stmt.execAll call m body).andThen fun (flow, inner) => .ret (flow, m.leave inner)
    else Stmt.execCases call m v cases

end

/-! ## Functions -/

/-- A text at its commas. -/
def commaParts : List Char → List (List Char)
  | [] => [[]]
  | c :: cs =>
    match commaParts cs with
    | [] => [[c]]
    | part :: parts => if c = ',' then [] :: part :: parts else (c :: part) :: parts

/-- The name of a parameter, and whether it takes all arguments that are left. -/
def parameter (part : List Char) : String × Bool :=
  let part := part.dropWhile (· == ' ')
  (String.ofList (part.takeWhile (· != ' ')),
    ['.', '.', '.'].isPrefixOf ((part.dropWhile (· != ' ')).drop 1))

def Func.parameters (f : Func) : List (String × Bool) :=
  (commaParts f.params.toList).map parameter

/-- The numbers in a list, if all are. -/
def numbers? : List Value → Option (List Int)
  | [] => some []
  | .int n :: vs => (numbers? vs).map (n :: ·)
  | _ :: _ => none

/-- The variables that a call starts with. -/
def bind? : List (String × Bool) → List Value → Option (List (String × Value))
  | [], [] => some []
  | (name, true) :: [], vs => (numbers? vs).map fun ns => [(name, .ints ns)]
  | (name, false) :: ps, v :: vs => (bind? ps vs).map ((name, v) :: ·)
  | _, _ => none

/-- The functions of the language, and the numbers that a generator draws. -/
def builtin : Call := fun m function args =>
  match function, args with
  | "len", [.channel name] =>
    match m.channels name with
    | some level => .ret (.int level)
    | none => .trap .meaningless
  | "len", [.ints ns] => .ret (.int ns.length)
  | "len", [.bools bs] => .ret (.int bs.length)
  | "cap", [.channel name] =>
    match m.channels name with
    | some _ => .ret (.int m.depth)
    | none => .trap .meaningless
  | "append", [.ints ns, .int n] => .ret (.ints (ns ++ [n]))
  | "rng.Intn", [.int n] =>
    if m.vars.lookup "rng" = some .generator then
      if 0 < n then (List.range n.toNat).map fun k : Nat => .ok (.int k) else .trap .panic
    else .trap .meaningless
  | _, _ => .trap .meaningless

/-- A machine with the given variables and nothing to communicate over. -/
def Machine.ofVars (vars : List (String × Value)) : Machine :=
  ⟨vars, fun _ => none, 0, []⟩

/-- What a function gives back, once its body has been executed. -/
def Flow.result : Flow × Machine → Runs Value
  | (.back (some v), _) => .ret v
  | _ => .trap .meaningless

/-- Calls a function that makes no calls but those of the language and does not communicate. -/
def Func.run (f : Func) (args : List Value) : Runs Value :=
  match bind? f.parameters args with
  | none => .trap .meaningless
  | some vars => (Stmt.execAll builtin (.ofVars vars) f.body).andThen Flow.result

theorem Func.run_eq {f : Func} {args : List Value} {vars : List (String × Value)}
    (h : bind? f.parameters args = some vars) :
    f.run args = (Stmt.execAll builtin (.ofVars vars) f.body).andThen Flow.result := by
  simp [run, h]

/-- The calls that a worker can make. -/
def goCall : Call := fun m function args =>
  match helpers.find? fun f => f.name = function with
  | some f => f.run args
  | none => builtin m function args

section

variable (m : Machine) (args : List Value)

theorem goCall_pickFirst : goCall m "pickFirst" args = pickFirst.run args := by
  simp [goCall, helpers, pickFirst]

theorem goCall_pickRandom : goCall m "pickRandom" args = pickRandom.run args := by
  simp [goCall, helpers, pickFirst, pickRandom]

/-- Calls of other functions are calls of the language. -/
theorem goCall_of_ne {function : String} (hfirst : function ≠ "pickFirst")
    (hrandom : function ≠ "pickRandom") : goCall m function args = builtin m function args := by
  have hnone : helpers.find? (fun f => f.name = function) = none := by
    simp [helpers, pickFirst, pickRandom, hfirst.symm, hrandom.symm]
  simp only [goCall, hnone]

end

end Generation
end TimedAutomata
