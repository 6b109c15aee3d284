/-!
# Random words

A source of random words is an infinite sequence of 64-bit words together with the number of
words drawn from it so far.

- `Source.next`: the next word
- `Source.ofWords`: a sequence written out, followed by zeros
- `accept?`, `Source.below?`: a number below a bound, without bias. A word decides by the high half
  of its product with the bound; words whose low half lies above `zone` are passed over, however
  many they are.
-/

namespace TimedAutomata
namespace Random

/-- An infinite sequence of words and the number of words drawn. -/
structure Source where
  word : Nat → UInt64
  drawn : Nat

namespace Source

def start (word : Nat → UInt64) : Source := ⟨word, 0⟩

/-- The given words and then zeros. -/
def ofWords (words : List UInt64) : Source :=
  start fun n => words.getD n 0

def next (s : Source) : UInt64 × Source :=
  (s.word s.drawn, { s with drawn := s.drawn + 1 })

end Source

/-! ## Numbers below a bound -/

/-- The number of zero bits before the highest one bit of a 64-bit word. -/
def leadingZeros (n : Nat) : Nat :=
  if n = 0 then 64 else 63 - n.log2

/-- The largest low half that is accepted for the bound `n`. -/
def zone (n : Nat) : Nat :=
  (n <<< leadingZeros n) - 1

/-- The number below `n` that a word decides on, if it decides. -/
def accept? (n : Nat) (v : UInt64) : Option Nat :=
  let product := v.toNat * n
  if product % UInt64.size ≤ zone n then some (product / UInt64.size) else none

/-- A number below `n`, every one equally likely: the decision of the first word of `s` that
decides, and what comes behind that word. At least half of all words decide; if no word to come
does, the search has no end and there is no number. -/
def Source.below? (s : Source) (n : Nat) : Option (Nat × Source) :=
  let (v, rest) := s.next
  match accept? n v with
  | some k => some (k, rest)
  | none => rest |>.below? n
partial_fixpoint

end Random
end TimedAutomata
