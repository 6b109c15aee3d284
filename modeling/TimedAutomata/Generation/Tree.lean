/-!
# Go programs

The part of the Go language that generated programs use, as trees, and its layout.

- `Generation.Expr`, `Generation.Stmt`: expressions and statements
- `Generation.Expr.text`, `Generation.Stmt.lines`: how they are written
- `Generation.Func`, `Generation.Decl`: functions, and all declarations at the top of a program
-/

namespace TimedAutomata
namespace Generation

/-! ## Expressions -/

inductive Operator where
  | lt | le | gt | ge | eq | ne
  | and | or
  | sub | add
  deriving DecidableEq, Repr, Inhabited

namespace Operator

/-- The operator with the space around it; a sum stands close. -/
def text : Operator → String
  | .lt => " < "
  | .le => " <= "
  | .gt => " > "
  | .ge => " >= "
  | .eq => " == "
  | .ne => " != "
  | .and => " && "
  | .or => " || "
  | .sub => " - "
  | .add => "+"

end Operator

inductive Expr where
  /-- A variable, constant or field, possibly qualified. -/
  | name (id : String)
  | int (value : Int)
  /-- A string, as it is written between the quotes. -/
  | string (body : String)
  /-- The empty value of a struct type. -/
  | struct (type : String)
  | not (inner : Expr)
  | paren (inner : Expr)
  | address (id : String)
  | binary (op : Operator) (left right : Expr)
  | index (list position : Expr)
  | call (function : String) (args : List Expr)
  | makeChan (element : String) (capacity : Option String)
  /-- The next message of a channel. -/
  | receive (channel : String)
  deriving Repr, Inhabited

def braces : String := "\x7b\x7d"

mutual

def Expr.text : Expr → String
  | .name id => id
  | .int n => toString n
  | .string body => "\"" ++ body ++ "\""
  | .struct type => type ++ braces
  | .not inner => "!" ++ inner.text
  | .paren inner => "(" ++ inner.text ++ ")"
  | .address id => "&" ++ id
  | .binary op left right => left.text ++ op.text ++ right.text
  | .index list position => list.text ++ "[" ++ position.text ++ "]"
  | .call function args => function ++ "(" ++ Expr.listText args ++ ")"
  | .makeChan element none => "make(chan " ++ element ++ ")"
  | .makeChan element (some capacity) => "make(chan " ++ element ++ ", " ++ capacity ++ ")"
  | .receive channel => "<-" ++ channel

/-- Expressions with commas between them. -/
def Expr.listText : List Expr → String
  | [] => ""
  | [e] => e.text
  | e :: es => e.text ++ ", " ++ Expr.listText es

end

/-! ## Statements -/

mutual

inductive Stmt where
  /-- `name := value` -/
  | define (name : String) (value : Expr)
  /-- `name := []bool{...}`, one value in a line -/
  | defineFlags (name : String) (values : List Expr)
  /-- `var name type` -/
  | declare (name type : String)
  | assign (name : String) (value : Expr)
  /-- A call, or a message received and dropped. -/
  | call (call : Expr)
  | deferred (call : Expr)
  | go (call : Expr)
  /-- A function without a name, started at once. -/
  | goFunc (body : List Stmt)
  | send (channel : String) (value : Expr)
  | comment (text : String)
  | blank
  | giveBack (value : Option Expr)
  | next
  | when (condition : Expr) (body : List Stmt)
  | forever (body : List Stmt)
  | forEach (item list : String) (body : List Stmt)
  | switch (subject : String) (cases : List Case)
  /-- Waits for a message on one of several channels. -/
  | select (cases : List Case)

/-- The values of a case, and what is done. -/
inductive Case where
  | mk (labels : List Expr) (body : List Stmt)

end

/-- `n` tabs and a text. -/
def indented (n : Nat) (text : String) : String :=
  String.ofList (List.replicate n '\t') ++ text

mutual

/-- The lines of a statement, at a depth of `n` tabs. -/
def Stmt.lines (n : Nat) : Stmt → List String
  | .define name value => [indented n (name ++ " := " ++ value.text)]
  | .defineFlags name values =>
    indented n (name ++ " := []bool\x7b") ::
      values.map (fun v => indented (n + 1) (v.text ++ ",")) ++ [indented n "\x7d"]
  | .declare name type => [indented n ("var " ++ name ++ " " ++ type)]
  | .assign name value => [indented n (name ++ " = " ++ value.text)]
  | .call e => [indented n e.text]
  | .deferred e => [indented n ("defer " ++ e.text)]
  | .go e => [indented n ("go " ++ e.text)]
  | .goFunc body =>
    indented n "go func() \x7b" :: Stmt.blockLines (n + 1) body ++ [indented n "\x7d()"]
  | .send channel value => [indented n (channel ++ " <- " ++ value.text)]
  | .comment text => [indented n ("// " ++ text)]
  | .blank => [""]
  | .giveBack none => [indented n "return"]
  | .giveBack (some value) => [indented n ("return " ++ value.text)]
  | .next => [indented n "continue"]
  | .when condition body =>
    indented n ("if " ++ condition.text ++ " \x7b") :: Stmt.blockLines (n + 1) body ++
      [indented n "\x7d"]
  | .forever body =>
    indented n "for \x7b" :: Stmt.blockLines (n + 1) body ++ [indented n "\x7d"]
  | .forEach item list body =>
    indented n ("for _, " ++ item ++ " := range " ++ list ++ " \x7b") ::
      Stmt.blockLines (n + 1) body ++ [indented n "\x7d"]
  | .switch subject cases =>
    indented n ("switch " ++ subject ++ " \x7b") :: Stmt.caseLines n cases ++ [indented n "\x7d"]
  | .select cases =>
    indented n "select \x7b" :: Stmt.caseLines n cases ++ [indented n "\x7d"]

/-- The lines of statements one after another. -/
def Stmt.blockLines (n : Nat) : List Stmt → List String
  | [] => []
  | s :: ss => s.lines n ++ Stmt.blockLines n ss

def Stmt.caseLines (n : Nat) : List Case → List String
  | [] => []
  | .mk labels body :: cases =>
    indented n ("case " ++ Expr.listText labels ++ ":") :: Stmt.blockLines (n + 1) body ++
      Stmt.caseLines n cases

end

/-! ## Declarations -/

structure Func where
  /-- The comment above the function, line by line, behind `//`. -/
  doc : List String
  name : String
  params : String
  /-- The type of the result, if there is one. -/
  result : Option String
  body : List Stmt

namespace Func

def lines (f : Func) : List String :=
  let result := match f.result with
    | some type => " " ++ type
    | none => ""
  f.doc.map ("//" ++ ·) ++
    ("func " ++ f.name ++ "(" ++ f.params ++ ")" ++ result ++ " \x7b") ::
      Stmt.blockLines 1 f.body ++ ["\x7d"]

end Func

/-- A member of a group of declarations. -/
structure Entry where
  /-- A comment in a line of its own above the member. -/
  note : Option String
  name : String
  /-- What stands behind the name: its type and value. -/
  meaning : String
  deriving DecidableEq, Repr

namespace Entry

def lines (e : Entry) : List String :=
  (match e.note with
    | some note => [indented 1 note]
    | none => []) ++
  [indented 1 (e.name ++ e.meaning)]

end Entry

/-- A declaration at the top of a program. -/
inductive Decl where
  | consts (entries : List Entry)
  | vars (entries : List Entry)
  /-- A variable outside of a group, with a comment above it. -/
  | var (note name type : String)
  /-- Types without fields. -/
  | empties (names : List String)
  | func (f : Func)

namespace Decl

/-- The names that a declaration gives a meaning to. -/
def names : Decl → List String
  | .consts entries | .vars entries => entries.map Entry.name
  | .var _ name _ => [name]
  | .empties names => names
  | .func f => [f.name]

/-- Declarations in parentheses behind a keyword. -/
def group (keyword : String) (entries : List Entry) : List String :=
  [keyword ++ " ("] ++ entries.flatMap Entry.lines ++ [")"]

def lines : Decl → List String
  | .consts entries => group "const" entries
  | .vars entries => group "var" entries
  | .var note name type => [note, "var " ++ name ++ " " ++ type]
  | .empties names => names.map fun name => "type " ++ name ++ " struct" ++ braces
  | .func f => f.lines

end Decl
end Generation
end TimedAutomata
