/-!
# Lexemes

The pieces that every clause is made of, read from the front of a list of characters. Each
reader returns what is left of the text.

- `isSpace`, `skipSpaces`, `spaces?`: separators inside a clause
- `isWordChar`, `word?`: labels, state names and payloads
- `literal?`: fixed text
-/

namespace TimedAutomata
namespace Grammar

/-- Separators between the tokens of a clause: the space, the tab and both halves of a line end.
Narrower than `Text.isBlank`. -/
def isSpace (c : Char) : Bool :=
  c == ' ' || c == '\t' || c == '\n' || c == '\r'

/-- ASCII letters, ASCII digits and the underscore. -/
def isWordChar (c : Char) : Bool :=
  c.isAlphanum || c == '_'

def skipSpaces (cs : List Char) : List Char :=
  cs.dropWhile isSpace

/-- What follows one or more separators. -/
def spaces? : List Char → Option (List Char)
  | [] => none
  | c :: cs => if isSpace c then some (skipSpaces cs) else none

/-- The longest run of word characters, if it is not empty, and what follows it. -/
def word? (cs : List Char) : Option (List Char × List Char) :=
  match cs.takeWhile isWordChar with
  | [] => none
  | c :: w => some (c :: w, cs.dropWhile isWordChar)

/-- What follows the fixed text `lit`. -/
def literal? : (lit : List Char) → List Char → Option (List Char)
  | [], cs => some cs
  | _ :: _, [] => none
  | l :: lit, c :: cs => if l = c then literal? lit cs else none

/-! ## Unfolding rules -/

@[simp] theorem skipSpaces_nil : skipSpaces [] = [] := rfl

theorem literal?_eq_some_iff {lit cs rest : List Char} :
    literal? lit cs = some rest ↔ cs = lit ++ rest := by
  induction lit generalizing cs with
  | nil => simp [literal?, eq_comm]
  | cons l lit ih =>
    cases cs with
    | nil => simp [literal?]
    | cons c cs =>
      by_cases h : l = c
      · simp [literal?, h, ih]
      · simp [literal?, h, Ne.symm h]

end Grammar
end TimedAutomata
