/-!
# Blank characters

The Unicode property `White_Space` and trimming by it.

- `isBlank`: membership in the property, as a table of code point ranges
- `trimLeft`, `trimRight`, `trim`: a text without its blank ends
- `firstWord`: the text up to the next blank

The narrower set that separates the tokens of a clause is `Grammar.isSpace`.
-/

namespace TimedAutomata
namespace Text

/-! ## The property -/

/-- The ranges of `White_Space`, each with both ends included. -/
def blankRanges : List (Nat × Nat) :=
  [(0x09, 0x0D), (0x20, 0x20), (0x85, 0x85), (0xA0, 0xA0), (0x1680, 0x1680), (0x2000, 0x200A),
   (0x2028, 0x2029), (0x202F, 0x202F), (0x205F, 0x205F), (0x3000, 0x3000)]

def isBlank (c : Char) : Bool :=
  blankRanges.any fun r => r.1 ≤ c.toNat && c.toNat ≤ r.2

/-! ## Trimming -/

def trimLeft (cs : List Char) : List Char :=
  cs.dropWhile isBlank

def trimRight (cs : List Char) : List Char :=
  (cs.reverse.dropWhile isBlank).reverse

def trim (cs : List Char) : List Char :=
  trimRight (trimLeft cs)

/-- The first maximal run of characters that are not blank. -/
def firstWord (cs : List Char) : List Char :=
  (trimLeft cs).takeWhile fun c => !isBlank c

/-- `s` without its blank ends. -/
def trimmed (s : String) : String :=
  String.ofList (trim s.toList)

end Text
end TimedAutomata
