import Mathlib.Algebra.Group.Nat.Defs
import TimedAutomata.Guard.Reader
import TimedAutomata.Proofs.Lexeme

/-!
# The grammar of guards

The grammar of guards, stated without reference to how guards are read:

    or      := and ("||" and)*
    and     := unary ("&&" unary)*
    unary   := "!" unary | cmp
    cmp     := operand (relop operand)*
    operand := "x" | integer | "true" | "false" | "(" or ")"

with separators allowed between tokens.

* `Derivation k`: a derivation from category `k`, with the separators it passes over
* `Derivation.text`: the text that is derived
* `Derivation.Typed`, `Derivation.Bounded`: the conditions that a derivation has to meet beyond its
  shape
* `Derivation.elaborate`: the guard that a derivation stands for
* `Derivation.Holds`: the meaning of a derivation at a clock value

A starred group is a category of its own (`links`, `conjuncts`, `disjuncts`), so that a derivation
follows the productions one by one.
-/

namespace TimedAutomata
namespace Guard

open Grammar

/-- The categories of the grammar. -/
inductive Category where
  | operand
  /-- `(relop operand)*` -/
  | links
  | comparison
  | negation
  /-- `("&&" unary)*` -/
  | conjuncts
  | conjunction
  /-- `("||" and)*` -/
  | disjuncts
  | disjunction
  deriving DecidableEq, Repr

/-- One or more decimal digits. -/
@[ext] structure Digits where
  chars : List Char
  nonempty : chars ≠ []
  decimal : ∀ c ∈ chars, c.isDigit = true

/-- A derivation from a category. -/
inductive Derivation : Category → Type where
  | clock : Derivation .operand
  | number (digits : Digits) : Derivation .operand
  | const (value : Bool) : Derivation .operand
  | paren (before : Spaces) (inner : Derivation .disjunction) (after : Spaces) :
      Derivation .operand
  | noLink : Derivation .links
  | link (before : Spaces) (relation : Relation) (after : Spaces) (operand : Derivation .operand)
      (more : Derivation .links) : Derivation .links
  | comparison (first : Derivation .operand) (more : Derivation .links) : Derivation .comparison
  | plain (inner : Derivation .comparison) : Derivation .negation
  | not (after : Spaces) (inner : Derivation .negation) : Derivation .negation
  | noConjunct : Derivation .conjuncts
  | conjunct (before after : Spaces) (right : Derivation .negation)
      (more : Derivation .conjuncts) : Derivation .conjuncts
  | conjunction (first : Derivation .negation) (more : Derivation .conjuncts) :
      Derivation .conjunction
  | noDisjunct : Derivation .disjuncts
  | disjunct (before after : Spaces) (right : Derivation .conjunction)
      (more : Derivation .disjuncts) : Derivation .disjuncts
  | disjunction (first : Derivation .conjunction) (more : Derivation .disjuncts) :
      Derivation .disjunction

namespace Derivation

/-! ## Texts -/

def constText : Bool → List Char
  | true => ['t', 'r', 'u', 'e']
  | false => ['f', 'a', 'l', 's', 'e']

/-- The derived text. -/
def text : {k : Category} → Derivation k → List Char
  | _, .clock => ['x']
  | _, .number digits => digits.chars
  | _, .const b => constText b
  | _, .paren before inner after => '(' :: (before.chars ++ (inner.text ++ (after.chars ++ [')'])))
  | _, .noLink => []
  | _, .link before r after operand more =>
    before.chars ++ (r.symbol ++ (after.chars ++ (operand.text ++ more.text)))
  | _, .comparison first more => first.text ++ more.text
  | _, .plain inner => inner.text
  | _, .not after inner => '!' :: (after.chars ++ inner.text)
  | _, .noConjunct => []
  | _, .conjunct before after right more =>
    before.chars ++ ('&' :: '&' :: (after.chars ++ (right.text ++ more.text)))
  | _, .conjunction first more => first.text ++ more.text
  | _, .noDisjunct => []
  | _, .disjunct before after right more =>
    before.chars ++ ('|' :: '|' :: (after.chars ++ (right.text ++ more.text)))
  | _, .disjunction first more => first.text ++ more.text

/-! ## Conditions beyond the shape -/

/-- The term that an operand is, if it is one. -/
def term? : Derivation .operand → Option Term
  | .clock => some .clock
  | .number digits => some (.number (Nat.ofDigitChars 10 digits.chars 0))
  | .const _ => none
  | .paren .. => none

/-- Every operand of a comparison with a relation is a term, and every operand that stands alone
is not. -/
def Typed : {k : Category} → Derivation k → Prop
  | _, .clock => True
  | _, .number _ => True
  | _, .const _ => True
  | _, .paren _ inner _ => inner.Typed
  | _, .noLink => True
  | _, .link _ _ _ operand more => operand.term?.isSome ∧ more.Typed
  | _, .comparison first .noLink => first.term? = none ∧ first.Typed
  | _, .comparison first more => first.term?.isSome ∧ more.Typed
  | _, .plain inner => inner.Typed
  | _, .not _ inner => inner.Typed
  | _, .noConjunct => True
  | _, .conjunct _ _ right more => right.Typed ∧ more.Typed
  | _, .conjunction first more => first.Typed ∧ more.Typed
  | _, .noDisjunct => True
  | _, .disjunct _ _ right more => right.Typed ∧ more.Typed
  | _, .disjunction first more => first.Typed ∧ more.Typed

/-- Every number fits the clock. -/
def Bounded : {k : Category} → Derivation k → Prop
  | _, .clock => True
  | _, .number digits => Nat.ofDigitChars 10 digits.chars 0 ≤ 2 ^ 63 - 1
  | _, .const _ => True
  | _, .paren _ inner _ => inner.Bounded
  | _, .noLink => True
  | _, .link _ _ _ operand more => operand.Bounded ∧ more.Bounded
  | _, .comparison first more => first.Bounded ∧ more.Bounded
  | _, .plain inner => inner.Bounded
  | _, .not _ inner => inner.Bounded
  | _, .noConjunct => True
  | _, .conjunct _ _ right more => right.Bounded ∧ more.Bounded
  | _, .conjunction first more => first.Bounded ∧ more.Bounded
  | _, .noDisjunct => True
  | _, .disjunct _ _ right more => right.Bounded ∧ more.Bounded
  | _, .disjunction first more => first.Bounded ∧ more.Bounded

/-! ## Elaboration -/

end Derivation

/-- What a derivation from a category stands for. -/
abbrev Category.Result : Category → Type
  | .operand => Operand
  | .links => List (Relation × Term)
  | .conjuncts => List Expr
  | .disjuncts => List Expr
  | .comparison => Expr
  | .negation => Expr
  | .conjunction => Expr
  | .disjunction => Expr

namespace Derivation

/-- The comparisons of neighbours in `left r₁ t₁ r₂ t₂ ...`. -/
def neighbours (left : Term) : List (Relation × Term) → List Expr
  | [] => []
  | (r, right) :: links => .compare r left right :: neighbours right links

/-- A comparison with at least one relation: the conjunction of its neighbours, grouped to the
left. -/
def chained (first : Term) : List (Relation × Term) → Option Expr
  | [] => none
  | (r, second) :: links => some ((neighbours second links).foldl .and (.compare r first second))

/-- What a derivation stands for; there is nothing if it is not typed. -/
def elaborate : {k : Category} → Derivation k → Option k.Result
  | _, .clock => some (Operand.term .clock)
  | _, .number digits => some (Operand.term (.number (Nat.ofDigitChars 10 digits.chars 0)))
  | _, .const b => some (Operand.condition (.const b))
  | _, .paren _ inner _ => inner.elaborate.map Operand.condition
  | _, .noLink => some ([] : List (Relation × Term))
  | _, .link _ r _ operand more =>
    operand.term?.bind fun t => more.elaborate.map fun links => ((r, t) :: links : List _)
  | _, .comparison first .noLink =>
    first.elaborate.bind fun
      | .term _ => none
      | .condition e => some e
  | _, .comparison first more => first.term?.bind fun t => more.elaborate.bind (chained t)
  | _, .plain inner => inner.elaborate
  | _, .not _ inner => inner.elaborate.map Expr.not
  | _, .noConjunct => some ([] : List Expr)
  | _, .conjunct _ _ right more =>
    right.elaborate.bind fun e => more.elaborate.map fun es => (e :: es : List Expr)
  | _, .conjunction first more =>
    first.elaborate.bind fun e => more.elaborate.map (List.foldl Expr.and e)
  | _, .noDisjunct => some ([] : List Expr)
  | _, .disjunct _ _ right more =>
    right.elaborate.bind fun e => more.elaborate.map fun es => (e :: es : List Expr)
  | _, .disjunction first more =>
    first.elaborate.bind fun e => more.elaborate.map (List.foldl Expr.or e)

/-! ## Meaning -/

/-- The number that an operand stands for when the clock shows `x`. -/
def value (x : Nat) (operand : Derivation .operand) : Nat :=
  (operand.term?.map (Term.value x)).getD 0

/-- Each operand of a chain is in its relation to the operand before it; `left` is the value of
the one before the chain. -/
def Chained (x : Nat) : (left : Nat) → Derivation .links → Prop
  | _, .noLink => True
  | left, .link _ r _ operand more =>
    r.holds left (operand.value x) = true ∧ Chained x (operand.value x) more

/-- Whether a derivation holds when the clock shows `x`. Of the starred groups, all conjuncts
have to hold, and one disjunct. -/
def Holds (x : Nat) : {k : Category} → Derivation k → Prop
  | _, .clock => False
  | _, .number _ => False
  | _, .const b => b = true
  | _, .paren _ inner _ => inner.Holds x
  | _, .noLink => True
  | _, .link .. => True
  | _, .comparison first .noLink => first.Holds x
  | _, .comparison first more => more.Chained x (first.value x)
  | _, .plain inner => inner.Holds x
  | _, .not _ inner => ¬ inner.Holds x
  | _, .noConjunct => True
  | _, .conjunct _ _ right more => right.Holds x ∧ more.Holds x
  | _, .conjunction first more => first.Holds x ∧ more.Holds x
  | _, .noDisjunct => False
  | _, .disjunct _ _ right more => right.Holds x ∨ more.Holds x
  | _, .disjunction first more => first.Holds x ∨ more.Holds x

end Derivation
end Guard
end TimedAutomata
