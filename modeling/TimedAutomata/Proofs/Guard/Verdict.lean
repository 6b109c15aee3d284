import TimedAutomata.Proofs.Fallible
import TimedAutomata.Proofs.Guard.Grammar
import TimedAutomata.Proofs.Guard.Precedence

/-!
# Verdicts on guards

Beside the rest of the text, a reader returns a verdict: what the text stands for, or a fault. The
lemmas here follow the verdict from the parts of a derivation to the whole.

* `Agrees d r`: the verdict `r` is the elaboration of `d`, and a fault if there is none
* `LinksAgree`, `AreTerms`: the same for the links of a chain
* `JoinAgrees`: the same for the further members of a conjunction or disjunction
-/

namespace TimedAutomata
namespace Guard

open Grammar
open Fallible

-- both follow the shape of a derivation
attribute [local simp] Derivation.elaborate Derivation.Bounded

/-! ## Operands and negations -/

/-- The verdict of a reader on a derived text: what the derivation stands for, if it is typed and
its numbers are bounded, and otherwise a fault. -/
def Agrees {k : Category} (d : Derivation k) (r : Except Fault k.Result) : Prop :=
  ∀ v, r = .ok v ↔ d.elaborate = some v ∧ d.Bounded

namespace Derivation

theorem elaborate_eq_term_iff (d : Derivation .operand) (t : Term) :
    d.elaborate = some (Operand.term t) ↔ d.term? = some t := by
  cases d with
  | clock | number | const => simp [term?]
  | paren before inner after => simp [term?]

end Derivation

theorem numeral_eq_ofDigitChars (digits : List Char) :
    numeral digits = Nat.ofDigitChars 10 digits 0 :=
  Nat.ofDigitChars_eq_foldl.symm

theorem agrees_clock : Agrees .clock (.ok (.term .clock)) := by
  intro v
  simp

theorem agrees_number (digits : Digits) :
    Agrees (.number digits) (numberOperand digits.chars) := by
  intro v
  simp only [Derivation.elaborate, Derivation.Bounded, numberOperand, numeral_eq_ofDigitChars,
    largestNumber]
  split
  · next hle => simp [hle]
  · next hgt => simp [hgt]

theorem agrees_const (b : Bool) : Agrees (.const b) (.ok (.condition (.const b))) := by
  intro v
  simp

theorem Agrees.paren {inner : Derivation .disjunction} {r : Except Fault Expr}
    (h : Agrees inner r) (before after : Spaces) :
    Agrees (.paren before inner after) (r.map .condition) := by
  intro v
  simp only [Derivation.elaborate, Derivation.Bounded, map_eq_ok_iff, Option.map_eq_some_iff]
  constructor
  · rintro ⟨e, he, rfl⟩
    obtain ⟨hel, hb⟩ := (h e).1 he
    exact ⟨⟨e, hel, rfl⟩, hb⟩
  · rintro ⟨⟨e, hel, rfl⟩, hb⟩
    exact ⟨e, (h e).2 ⟨hel, hb⟩, rfl⟩

theorem Agrees.not {inner : Derivation .negation} {r : Except Fault Expr} (h : Agrees inner r)
    (after : Spaces) : Agrees (.not after inner) (r.map .not) := by
  intro v
  simp only [Derivation.elaborate, Derivation.Bounded, map_eq_ok_iff, Option.map_eq_some_iff]
  constructor
  · rintro ⟨e, he, rfl⟩
    obtain ⟨hel, hb⟩ := (h e).1 he
    exact ⟨⟨e, hel, rfl⟩, hb⟩
  · rintro ⟨⟨e, hel, rfl⟩, hb⟩
    exact ⟨e, (h e).2 ⟨hel, hb⟩, rfl⟩

/-! ## Chains -/

/-- Link by link, the operands that were read agree with those derived. -/
def LinksAgree : Derivation .links → List (Relation × Except Fault Operand) → Prop
  | .noLink, read => read = []
  | .link _ r _ operand more, read =>
    ∃ o read', read = (r, o) :: read' ∧ Agrees operand o ∧ LinksAgree more read'

/-- All operands that were read are terms, namely `links`. -/
def AreTerms (read : List (Relation × Except Fault Operand)) (links : List (Relation × Term)) :
    Prop :=
  List.Forall₂ (fun x y => x.1 = y.1 ∧ x.2 = .ok (.term y.2)) read links

theorem LinksAgree.areTerms_iff {d : Derivation .links}
    {read : List (Relation × Except Fault Operand)} (h : LinksAgree d read)
    (links : List (Relation × Term)) :
    AreTerms read links ↔ d.elaborate = some links ∧ d.Bounded := by
  induction d, read using LinksAgree.induct generalizing links with
  | case1 read =>
    rw [LinksAgree] at h
    subst h
    simp [AreTerms, eq_comm]
  | case2 before r after operand more read ih =>
    rw [LinksAgree] at h
    obtain ⟨o, read', rfl, ho, hmore⟩ := h
    have ih := ih read' hmore
    simp only [AreTerms, List.forall₂_cons_left_iff, Prod.exists, Derivation.elaborate,
      Derivation.Bounded, Option.bind_eq_some_iff, Option.map_eq_some_iff] at ih ⊢
    constructor
    · rintro ⟨r', t, ts, ⟨rfl, hot⟩, hts, rfl⟩
      obtain ⟨hsense, hbound⟩ := (ho _).1 hot
      obtain ⟨hmoreSense, hmoreBound⟩ := (ih ts).1 hts
      exact ⟨⟨t, (operand.elaborate_eq_term_iff t).1 hsense, ts, hmoreSense, rfl⟩, hbound,
        hmoreBound⟩
    · rintro ⟨⟨t, ht, ts, hts, rfl⟩, hbound, hmoreBound⟩
      refine ⟨_, t, ts, ⟨rfl, ?_⟩, (ih ts).2 ⟨hts, hmoreBound⟩, rfl⟩
      exact (ho _).2 ⟨(operand.elaborate_eq_term_iff t).2 ht, hbound⟩

theorem chain_eq_foldl (left : Term) (links : List (Relation × Term)) (e : Expr) :
    chain left links e = (Derivation.neighbours left links).foldl .and e := by
  induction links generalizing left e with
  | nil => rfl
  | cons link links ih =>
    obtain ⟨r, right⟩ := link
    simp [chain, Derivation.neighbours, ih]

/-- A comparison without a relation is its operand, which has to be a condition. -/
theorem comparison_nil_eq_ok_iff {text : List Char} {first : Except Fault Operand} {e : Expr} :
    comparison text first [] = .ok e ↔ first = .ok (.condition e) := by
  cases first with
  | error f => simp [comparison]
  | ok o => cases o <;> simp [comparison]

theorem toTerm_eq_ok_iff {text : List Char} {o : Operand} {t : Term} :
    o.toTerm text = .ok t ↔ o = .term t := by
  cases o <;> simp [Operand.toTerm]

/-- The two passes over the links of a chain, first for faults and then for kinds, succeed
together exactly if all operands are terms. -/
theorem areTerms_iff_mapM (text : List Char) {read : List (Relation × Except Fault Operand)}
    {links : List (Relation × Term)} :
    AreTerms read links ↔
      ∃ operands, (read.mapM fun (r, o) => (return (r, ← o) : Except Fault _)) = .ok operands ∧
        (operands.mapM fun (r, o) => (return (r, ← o.toTerm text) : Except Fault _)) =
          .ok links := by
  simp only [mapM_eq_ok_iff]
  constructor
  · intro h
    refine ⟨links.map fun (r, t) => (r, .term t), ?_, ?_⟩
    · rw [List.forall₂_map_right_iff]
      refine h.imp ?_
      rintro ⟨r, o⟩ ⟨r', t⟩ ⟨hr, ho⟩
      simp_all
    · rw [List.forall₂_map_left_iff, List.forall₂_same]
      rintro ⟨r, t⟩ -
      simp [Operand.toTerm]
  · rintro ⟨operands, hread, hterms⟩
    induction hread generalizing links with
    | nil =>
      cases hterms
      exact List.Forall₂.nil
    | cons hx _ ih =>
      cases hterms with
      | cons hy hmore =>
        refine List.Forall₂.cons ?_ (ih hmore)
        simp only [bind_eq_ok_iff, pure_eq_ok_iff] at hx hy
        obtain ⟨o, ho, rfl⟩ := hx
        obtain ⟨t, ht, rfl⟩ := hy
        have hot : o = .term t := toTerm_eq_ok_iff.1 ht
        exact ⟨rfl, hot ▸ ho⟩

/-- A comparison with a relation is a chain of terms. -/
theorem comparison_cons_eq_ok_iff {text : List Char} {first : Except Fault Operand}
    {link : Relation × Except Fault Operand} {read : List (Relation × Except Fault Operand)}
    {e : Expr} :
    comparison text first (link :: read) = .ok e ↔
      ∃ t links, first = .ok (.term t) ∧ AreTerms (link :: read) links ∧
        Derivation.chained t links = some e := by
  simp only [comparison, bind_eq_ok_iff, areTerms_iff_mapM text]
  constructor
  · rintro ⟨o, hfirst, operands, hoperands, hmatch⟩
    cases operands with
    | nil =>
      have hlen := (mapM_eq_ok_iff.1 hoperands).length_eq
      simp at hlen
    | cons x operands =>
      simp only [bind_eq_ok_iff, toTerm_eq_ok_iff] at hmatch
      obtain ⟨t, rfl, links, hlinks, hchain⟩ := hmatch
      refine ⟨t, links, hfirst, ⟨_, hoperands, hlinks⟩, ?_⟩
      cases links with
      | nil =>
        have hlen := (mapM_eq_ok_iff.1 hlinks).length_eq
        simp at hlen
      | cons y links => simpa [Derivation.chained, chain_eq_foldl] using hchain
  · rintro ⟨t, links, hfirst, ⟨operands, hoperands, hlinks⟩, hchain⟩
    refine ⟨.term t, hfirst, operands, hoperands, ?_⟩
    cases operands with
    | nil =>
      have hlen := (mapM_eq_ok_iff.1 hoperands).length_eq
      simp at hlen
    | cons x operands =>
      simp only [bind_eq_ok_iff, toTerm_eq_ok_iff]
      refine ⟨t, rfl, links, hlinks, ?_⟩
      cases links with
      | nil => simp [Derivation.chained] at hchain
      | cons y links => simpa [Derivation.chained, chain_eq_foldl] using hchain

theorem Agrees.comparison {first : Derivation .operand} {more : Derivation .links}
    {o : Except Fault Operand} {read : List (Relation × Except Fault Operand)}
    (hfirst : Agrees first o) (hmore : LinksAgree more read) (text : List Char) :
    Agrees (.comparison first more) (comparison text o read) := by
  intro e
  have hterms := hmore.areTerms_iff
  cases more with
  | noLink =>
    rw [LinksAgree] at hmore
    subst hmore
    rw [comparison_nil_eq_ok_iff, hfirst]
    simp only [Derivation.elaborate, Derivation.Bounded, and_true, Option.bind_eq_some_iff]
    constructor
    · rintro ⟨hsense, hbound⟩
      exact ⟨⟨_, hsense, rfl⟩, hbound⟩
    · rintro ⟨⟨operand, hsense, hcond⟩, hbound⟩
      cases operand with
      | term t => simp at hcond
      | condition e' =>
        obtain rfl : e' = e := by simpa using hcond
        exact ⟨hsense, hbound⟩
  | link before r after operand links =>
    rw [LinksAgree] at hmore
    obtain ⟨second, read', rfl, -, -⟩ := hmore
    rw [comparison_cons_eq_ok_iff]
    simp only [Derivation.elaborate, Derivation.Bounded, Option.bind_eq_some_iff] at hterms ⊢
    constructor
    · rintro ⟨t, ts, ho, hts, hchain⟩
      obtain ⟨hsense, hbound⟩ := (hfirst _).1 ho
      obtain ⟨hmoreSense, hmoreBound⟩ := (hterms ts).1 hts
      exact ⟨⟨t, (first.elaborate_eq_term_iff t).1 hsense, ts, hmoreSense, hchain⟩, hbound,
        hmoreBound⟩
    · rintro ⟨⟨t, ht, ts, hts, hchain⟩, hbound, hmoreBound⟩
      refine ⟨t, ts, (hfirst _).2 ⟨(first.elaborate_eq_term_iff t).2 ht, hbound⟩, ?_, hchain⟩
      exact (hterms ts).2 ⟨hts, hmoreBound⟩

/-! ## Conjunctions and disjunctions -/

theorem both_eq_ok_iff {join : Join} {left right : Except Fault Expr} {e : Expr} :
    both join left right = .ok e ↔
      ∃ l r, left = .ok l ∧ right = .ok r ∧ join.apply l r = e := by
  simp only [both, bind_eq_ok_iff, pure_eq_ok_iff]
  grind

/-- The verdict on a starred group behind `left`: `left` and then the members of the group, joined
from the left. -/
def JoinAgrees (join : Join) (left : Except Fault Expr) (members : Option (List Expr))
    (bounded : Prop) (r : Except Fault Expr) : Prop :=
  ∀ e, r = .ok e ↔
    ∃ l es, left = .ok l ∧ members = some es ∧ bounded ∧ es.foldl join.apply l = e

theorem joinAgrees_nil (join : Join) (left : Except Fault Expr) :
    JoinAgrees join left (some []) True left := by
  intro e
  simp

theorem JoinAgrees.cons {join : Join} {left r : Except Fault Expr}
    {members : Option (List Expr)} {bounded : Prop} {right : Except Fault Expr}
    {verdict : Option Expr} {rightBounded : Prop}
    (hright : ∀ e, right = .ok e ↔ verdict = some e ∧ rightBounded)
    (h : JoinAgrees join (both join left right) members bounded r) :
    JoinAgrees join left (verdict.bind fun e => members.map fun es => e :: es)
      (rightBounded ∧ bounded) r := by
  intro e
  rw [h e]
  simp only [both_eq_ok_iff, hright, Option.bind_eq_some_iff, Option.map_eq_some_iff]
  constructor
  · rintro ⟨_, es, ⟨l, x, hl, ⟨hx, hxb⟩, rfl⟩, hes, hb, rfl⟩
    exact ⟨l, x :: es, hl, ⟨x, hx, es, hes, rfl⟩, ⟨hxb, hb⟩, rfl⟩
  · rintro ⟨l, _, hl, ⟨x, hx, es, hes, rfl⟩, ⟨hxb, hb⟩, rfl⟩
    exact ⟨join.apply l x, es, ⟨l, x, hl, ⟨hx, hxb⟩, rfl⟩, hes, hb, rfl⟩

theorem JoinAgrees.whole {join : Join} {left r : Except Fault Expr}
    {members : Option (List Expr)} {bounded : Prop} {verdict : Option Expr} {leftBounded : Prop}
    (hleft : ∀ e, left = .ok e ↔ verdict = some e ∧ leftBounded)
    (h : JoinAgrees join left members bounded r) (e : Expr) :
    r = .ok e ↔
      (verdict.bind fun l => members.map (List.foldl join.apply l)) = some e ∧
        leftBounded ∧ bounded := by
  rw [h e]
  simp only [hleft, Option.bind_eq_some_iff, Option.map_eq_some_iff]
  constructor
  · rintro ⟨l, es, ⟨hl, hlb⟩, hes, hb, rfl⟩
    exact ⟨⟨l, hl, es, hes, rfl⟩, hlb, hb⟩
  · rintro ⟨⟨l, hl, es, hes, rfl⟩, hlb, hb⟩
    exact ⟨l, es, ⟨hl, hlb⟩, hes, hb, rfl⟩

end Guard
end TimedAutomata
