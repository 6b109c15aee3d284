import TimedAutomata.Proofs.Automaton.Growth
import TimedAutomata.Proofs.Lexeme
import TimedAutomata.Proofs.Notation.Scanning

/-!
# Spellings

The notation, stated without reference to how it is read. A text is blanks and declarations:

    declaration := header blank* ";" (blank* edge blank* ";")* blank*
    header      := "Cta" sp+ label sp* "=" sp* "Init" sp+ state
    edge        := state sp+ partner sp* ("!" | "?") sp* payload sp* group sp* state
    group       := "(" raw ["," sp* "{" sp* "x" sp* "}" sp*] ")"

where `blank` is any blank character and `sp` is a separator. A spelling is a derivation, with all
blanks and separators that it passes over.

* `Balanced`: raw guards
* `Spelling.Header`, `Spelling.Edge`, `Spelling.Declaration`, `Spelling.Document`: the spellings
* `Spelling.Document.Valid`: the conditions that a document has to meet beyond its shape
* `Spelling.Declaration.Denotes`: the automaton that a declaration stands for
-/

namespace TimedAutomata

open Grammar

/-- A text without commas whose parentheses are balanced. -/
inductive Balanced : List Char → Prop where
  | nil : Balanced []
  | char {c : Char} {w : List Char} (hopen : c ≠ '(') (hclose : c ≠ ')') (hcomma : c ≠ ',')
      (rest : Balanced w) : Balanced (c :: w)
  | paren {v w : List Char} (inner : Balanced v) (rest : Balanced w) :
      Balanced ('(' :: (v ++ ')' :: w))

/-- A run of blanks, possibly empty. -/
structure Text.Blanks where
  chars : List Char
  blank : Text.IsBlank chars

/-- A label, a state name or a payload. -/
structure Grammar.Word where
  chars : List Char
  word : IsWord chars

def Grammar.Word.text (w : Word) : String :=
  String.ofList w.chars

namespace Spelling

/-! ## Clauses -/

structure Header where
  afterCta : Spaces
  label : Word
  beforeEquals : Spaces
  afterEquals : Spaces
  afterInit : Spaces
  initial : Word
  afterCta_ne : afterCta.chars ≠ []
  afterInit_ne : afterInit.chars ≠ []

def Header.chars (h : Header) : List Char :=
  ['C', 't', 'a'] ++ (h.afterCta.chars ++ (h.label.chars ++ (h.beforeEquals.chars ++ (['='] ++
    (h.afterEquals.chars ++ (['I', 'n', 'i', 't'] ++ (h.afterInit.chars ++
      h.initial.chars)))))))

/-- The mark of a transition that resets the clock. -/
structure Reset where
  afterComma : Spaces
  beforeClock : Spaces
  afterClock : Spaces
  beforeClose : Spaces

def Reset.chars (r : Reset) : List Char :=
  [','] ++ (r.afterComma.chars ++ (['\x7b'] ++ (r.beforeClock.chars ++ (['x'] ++
    (r.afterClock.chars ++ (['\x7d'] ++ r.beforeClose.chars))))))

structure Edge where
  start : Word
  afterStart : Spaces
  partner : Word
  beforeSymbol : Spaces
  direction : Direction
  afterSymbol : Spaces
  payload : Word
  beforeGroup : Spaces
  guard : List Char
  reset : Option Reset
  afterGroup : Spaces
  target : Word
  afterStart_ne : afterStart.chars ≠ []
  balanced : Balanced guard

def Edge.mark (e : Edge) : List Char :=
  (e.reset.map Reset.chars).getD []

def Edge.chars (e : Edge) : List Char :=
  e.start.chars ++ (e.afterStart.chars ++ (e.partner.chars ++ (e.beforeSymbol.chars ++
    (e.direction.symbol.toList ++ (e.afterSymbol.chars ++ (e.payload.chars ++
      (e.beforeGroup.chars ++ (['('] ++ (e.guard ++ (e.mark ++ ([')'] ++ (e.afterGroup.chars ++
        e.target.chars))))))))))))

def Edge.comm (e : Edge) : Communication :=
  ⟨e.direction, e.partner.text, e.payload.text⟩

/-- An edge between blanks. -/
structure EdgeClause where
  before : Text.Blanks
  edge : Edge
  after : Text.Blanks

def EdgeClause.chars (e : EdgeClause) : List Char :=
  e.before.chars ++ (e.edge.chars ++ e.after.chars)

/-! ## Documents -/

/-- A declaration: clauses, each closed by a semicolon, the first of which starts with a marker. -/
structure Declaration where
  header : Header
  afterHeader : Text.Blanks
  edges : List EdgeClause
  tail : Text.Blanks
  marked : Declaration.marker <+: header.chars

/-- The clauses of a declaration, without their semicolons. -/
def Declaration.clauses (d : Declaration) : List (List Char) :=
  (d.header.chars ++ d.afterHeader.chars) :: d.edges.map EdgeClause.chars

def Declaration.chars (d : Declaration) : List Char :=
  Declaration.closed d.clauses ++ d.tail.chars

structure Document where
  lead : Text.Blanks
  declarations : List Declaration

def Document.chars (doc : Document) : List Char :=
  doc.lead.chars ++ doc.declarations.flatMap Declaration.chars

/-- The conditions that a document has to meet beyond its shape. -/
structure Document.Valid (doc : Document) : Prop where
  /-- The raw guards are guards. -/
  guards : ∀ d ∈ doc.declarations, ∀ e ∈ d.edges, ∃ g, Guard.read e.edge.guard = .ok g
  /-- A marker at the start of the text, or after a blank or a semicolon, starts a declaration. -/
  markers : ∀ front rest, doc.chars = front ++ (Declaration.marker ++ rest) →
    Declaration.opensAfter front.getLast? = true →
    ∃ ds d es, doc.declarations = ds ++ d :: es ∧
      front = doc.lead.chars ++ ds.flatMap Declaration.chars
  labels : (doc.declarations.map fun d => d.header.label.chars).Nodup

/-! ## What a declaration stands for -/

/-- The transition `t` of `a` is what the edge says. It resets the clock exactly if the edge has
the mark. -/
structure Edge.Denotes (a : Automaton) (e : Edge) (t : Transition) : Prop where
  start : a.stateName? t.start = some e.start.text
  target : a.stateName? t.target = some e.target.text
  comm : t.comm = e.comm
  guard : Guard.read e.guard = .ok t.guard
  resets : t.resets = e.reset.isSome

/-- The automaton that a declaration stands for. Its states are those that the clauses name, in
the order of first mention, and its transitions are the edges, in order. -/
structure Declaration.Denotes (d : Declaration) (a : Automaton) : Prop where
  label : a.label = d.header.label.text
  initial : a.stateName? a.initial = some d.header.initial.text
  states : a.stateNames = (d.header.initial.text ::
    d.edges.flatMap fun e => [e.edge.start.text, e.edge.target.text]).eraseDups
  index : a.Indexed
  transitions : List.Forall₂ (fun e t => Edge.Denotes a e.edge t) d.edges a.transitions
  outgoing : ∀ id s, a.states[id]? = some s → s.outgoing = a.departures id
  endStates : a.endStates = Automaton.deadEnds a.states
  source : a.source = String.ofList (Text.trim d.chars)

end Spelling
end TimedAutomata
