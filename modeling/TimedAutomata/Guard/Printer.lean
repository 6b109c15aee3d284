import TimedAutomata.Guard.Basic

/-!
# Printing guards

The canonical text of a guard. Both binary operators group to the left, `&&` binds closer than
`||`, and parentheses are written only where the grouping needs them. A negated guard is always
in parentheses, unless it is a constant.
-/

namespace TimedAutomata

namespace Term

def chars : Term → List Char
  | .clock => ['x']
  | .number n => Nat.toDigits 10 n

end Term

namespace Guard
namespace Expr

/-- How closely the outermost operator of a guard binds. -/
def precedence : Expr → Nat
  | .or .. => 1
  | .and .. => 2
  | .not _ => 3
  | .const _ | .compare .. => 4

/-- `cs` in parentheses if `wrap`. -/
def parenthesize (wrap : Bool) (cs : List Char) : List Char :=
  if wrap then '(' :: cs ++ [')'] else cs

/-- The text of a guard where only guards of precedence at least `least` stand without
parentheses. -/
def charsAt (least : Nat) (e : Expr) : List Char :=
  parenthesize (e.precedence < least) <|
    match e with
    | .const true => ['t', 'r', 'u', 'e']
    | .const false => ['f', 'a', 'l', 's', 'e']
    | .compare r left right => left.chars ++ ' ' :: r.symbol ++ ' ' :: right.chars
    | .not (.const b) => '!' :: charsAt 0 (.const b)
    | .not inner => '!' :: '(' :: charsAt 0 inner ++ [')']
    | .and left right => charsAt 2 left ++ [' ', '&', '&', ' '] ++ charsAt 3 right
    | .or left right => charsAt 1 left ++ [' ', '|', '|', ' '] ++ charsAt 2 right

/-- The canonical text of a guard. -/
def chars (e : Expr) : List Char :=
  e.charsAt 0

def text (e : Expr) : String :=
  String.ofList e.chars

end Expr
end Guard
end TimedAutomata
