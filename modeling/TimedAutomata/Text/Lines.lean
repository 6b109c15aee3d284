/-!
# Lines

A line ends at a line feed, which is not part of it, and neither is one carriage return just
before the line feed. A text that ends in a line feed has no further empty line.
-/

namespace TimedAutomata
namespace Text

/-- The pieces of a text between line feeds; a text with no line feed is one piece. -/
def pieces : List Char → List (List Char)
  | [] => [[]]
  | c :: cs =>
    if c = '\n' then [] :: pieces cs
    else
      match pieces cs with
      | [] => [[c]]
      | p :: ps => (c :: p) :: ps

/-- `cs` without a carriage return at its end. -/
def dropReturn (cs : List Char) : List Char :=
  match cs.getLast? with
  | some '\r' => cs.dropLast
  | _ => cs

/-- The lines of a text. Only a line that a line feed closes loses its carriage return. -/
def lines (cs : List Char) : List (List Char) :=
  let ps := pieces cs
  let closed := ps.dropLast.map dropReturn
  match ps.getLast? with
  | some (c :: rest) => closed ++ [c :: rest]
  | _ => closed

/-- The lines of a string. -/
def linesOf (s : String) : List String :=
  (lines s.toList).map String.ofList

end Text
end TimedAutomata
