import TimedAutomata.Grammar.Expression
import TimedAutomata.Grammar.Lexeme

/-!
# The rules of the automata notation

Names and bodies of the grammar rules, used to explain a refused text. Whether a text is accepted
is decided by the readers (`Guard.read`, `header?`, `edge?`), which accept what the rules do.

- `Rule`: the rules, in the order in which an explanation lists them
- `rules`: what they stand for
- `expected`: the rules that could have come next, and how far the text was readable
-/

namespace TimedAutomata
namespace Grammar

inductive Rule where
  | finish
  | label | state | partner | payload
  | header | transition | comm | send | receive
  | guardGroup | rawGuard | reset
  | guard | guardExpr | comparison | paren
  | clock | integer | boolean
  | relop | or | and | not
  deriving DecidableEq, Repr

namespace Rule

/-- All rules, in the order in which an explanation lists them. -/
def all : List Rule :=
  [.finish, .label, .state, .partner, .payload, .header, .transition, .comm, .send, .receive,
   .guardGroup, .rawGuard, .reset, .guard, .guardExpr, .comparison, .paren, .clock, .integer,
   .boolean, .relop, .or, .and, .not]

def name : Rule → String
  | .finish => "EOI"
  | .label => "label"
  | .state => "state"
  | .partner => "partner"
  | .payload => "payload"
  | .header => "header"
  | .transition => "transition"
  | .comm => "comm"
  | .send => "send"
  | .receive => "receive"
  | .guardGroup => "guard_group"
  | .rawGuard => "raw_guard"
  | .reset => "reset"
  | .guard => "guard"
  | .guardExpr => "guard_expr"
  | .comparison => "comparison"
  | .paren => "paren"
  | .clock => "clock"
  | .integer => "integer"
  | .boolean => "boolean"
  | .relop => "relop"
  | .or => "or"
  | .and => "and"
  | .not => "not"

/-- Words, numbers, constants and raw guard text are read as one piece. -/
def isAtomic : Rule → Bool
  | .label | .state | .partner | .payload | .rawGuard | .clock | .integer | .boolean => true
  | _ => false

open Expression in
/-- What each rule stands for. -/
def body : Rule → Expression Rule
  | .finish => .finish
  | .label | .state | .partner | .payload => oneOrMore (.one isWordChar)
  | .header =>
    inOrder [sp, lit "Cta", sp1, .rule .label, sp, lit "=", sp, lit "Init", sp1, .rule .state, sp,
      .rule .finish]
  | .transition =>
    inOrder [sp, .rule .state, sp1, .rule .comm, sp, .rule .guardGroup, sp, .rule .state, sp,
      .rule .finish]
  | .comm => inOrder [.rule .partner, sp, .alt (.rule .send) (.rule .receive), sp, .rule .payload]
  | .send => lit "!"
  | .receive => lit "?"
  | .guardGroup => inOrder [lit "(", .rule .rawGuard, .optional (.rule .reset), lit ")"]
  | .rawGuard =>
    .many (.alt (inOrder [lit "(", .rule .rawGuard, lit ")"])
      (.one fun c => !(c == '(' || c == ')' || c == ',')))
  | .reset => inOrder [lit ",", sp, lit "\x7b", sp, lit "x", sp, lit "\x7d", sp]
  | .guard => inOrder [sp, .optional (.rule .guardExpr), sp, .rule .finish]
  | .guardExpr =>
    inOrder [.many (.seq (.rule .not) sp), .rule .comparison,
      .many (inOrder [sp, .alt (.rule .or) (.rule .and), sp, .many (.seq (.rule .not) sp),
        .rule .comparison])]
  | .comparison => .seq operand (.many (inOrder [sp, .rule .relop, sp, operand]))
  | .paren => inOrder [lit "(", sp, .rule .guardExpr, sp, lit ")"]
  | .clock => .seq (lit "x") endOfWord
  | .integer => .seq (oneOrMore (.one Char.isDigit)) endOfWord
  | .boolean => .seq (.alt (lit "true") (lit "false")) endOfWord
  | .relop => firstOf [lit "<=", lit ">=", lit "==", lit "!=", lit "<", lit ">"]
  | .or => lit "||"
  | .and => lit "&&"
  | .not => .seq (lit "!") (.absent (lit "="))
where
  lit (s : String) : Expression Rule := .text s.toList
  sp : Expression Rule := .many (.one isSpace)
  sp1 : Expression Rule := .oneOrMore (.one isSpace)
  endOfWord : Expression Rule := .absent (.one isWordChar)
  operand : Expression Rule :=
    firstOf [.rule .clock, .rule .integer, .rule .boolean, .rule .paren]

end Rule

/-- The rules of the notation. -/
def rules : Table Rule := ⟨Rule.body, Rule.isAtomic⟩

/-- What could have come next, and the byte position up to which the text was readable. -/
structure Expected where
  rules : List Rule
  position : Nat
  deriving Repr, Inhabited

namespace Expected

/-- The sentence that lists the rules. -/
def message (e : Expected) : String :=
  expectation (e.rules.map Rule.name)

end Expected

/-- Why `cs` is not a text of rule `start`. -/
def expected (start : Rule) (cs : List Char) : Expected :=
  let attempts := explain rules start cs
  ⟨Rule.all.filter fun r => attempts.rules.contains r, attempts.furthest⟩

end Grammar
end TimedAutomata
