import TimedAutomata.Proofs.Guard.Printing
import TimedAutomata.Proofs.Notation.Spelling

/-!
# The alphabet of the notation

A declaration whose guards can be read is written with few characters: blanks, word characters,
semicolons and twelve others. In particular it holds no slash, no hyphen and no quote.

* `isClauseChar`, `InAlphabet`: the characters of a clause
* `inAlphabet_of_read`: the characters of guards are among them
* `Spelling.Header.inAlphabet`, `Spelling.Edge.inAlphabet`: clauses
* `Spelling.Declaration.isClauseChar_or_of_mem`: declarations
-/

namespace TimedAutomata

open Grammar

/-- The characters of clauses that are neither blanks nor part of a word. -/
def punctuation : List Char :=
  ['=', '!', '?', '(', ')', ',', '\x7b', '\x7d', '<', '>', '&', '|']

def isClauseChar (c : Char) : Bool :=
  Text.isBlank c || isWordChar c || punctuation.contains c

/-- All characters of a text are characters of clauses. -/
def InAlphabet (cs : List Char) : Prop :=
  ∀ c ∈ cs, isClauseChar c = true

instance (cs : List Char) : Decidable (InAlphabet cs) :=
  decidable_of_iff (cs.all isClauseChar = true) List.all_eq_true

@[simp] theorem inAlphabet_nil : InAlphabet [] := by
  simp [InAlphabet]

@[simp] theorem inAlphabet_append {v w : List Char} :
    InAlphabet (v ++ w) ↔ InAlphabet v ∧ InAlphabet w :=
  List.forall_mem_append

theorem InAlphabet.not_mem {cs : List Char} (h : InAlphabet cs) {c : Char}
    (hc : isClauseChar c = false) : c ∉ cs := by
  intro hmem
  simp [h c hmem] at hc

/-! ## Parts of clauses -/

theorem inAlphabet_of_isBlank {cs : List Char} (h : Text.IsBlank cs) : InAlphabet cs := by
  intro c hc
  simp [isClauseChar, h c hc]

@[simp] theorem inAlphabet_blanks (b : Text.Blanks) : InAlphabet b.chars :=
  inAlphabet_of_isBlank b.blank

@[simp] theorem inAlphabet_spaces (s : Spaces) : InAlphabet s.chars :=
  inAlphabet_of_isBlank fun c hc => isBlank_of_isSpace (s.separate c hc)

@[simp] theorem inAlphabet_word (w : Word) : InAlphabet w.chars := by
  intro c hc
  simp [isClauseChar, w.word.2 c hc]

/-- The characters of guards are characters of clauses. -/
theorem isClauseChar_of_isGuardChar {c : Char} (h : Guard.isGuardChar c = true) :
    isClauseChar c = true := by
  simp only [Guard.isGuardChar, Bool.or_eq_true] at h
  rcases h with (hspace | hdigit) | hsymbol
  · simp [isClauseChar, isBlank_of_isSpace hspace]
  · simp [isClauseChar, isWordChar, Char.isAlphanum, hdigit]
  · have hall : InAlphabet Guard.symbolChars := by decide
    exact hall c (by simpa using hsymbol)

/-- A text that can be read as a guard. -/
theorem inAlphabet_of_read {cs : List Char} {g : Guard} (h : Guard.read cs = .ok g) :
    InAlphabet cs := by
  by_cases hblank : Text.IsBlank cs
  · exact inAlphabet_of_isBlank hblank
  · rcases (Guard.read_eq_ok_iff hblank g).1 h with ⟨d, hd, -⟩
    rcases Text.exists_blank_ends cs with ⟨before, after, hbefore, hafter, hcs⟩
    have hcore : InAlphabet (Text.trim cs) := by
      intro c hc
      exact isClauseChar_of_isGuardChar (d.isGuardChar_of_mem c (hd ▸ hc))
    rw [hcs, inAlphabet_append, inAlphabet_append]
    exact ⟨inAlphabet_of_isBlank hbefore, hcore, inAlphabet_of_isBlank hafter⟩

namespace Spelling

theorem Header.inAlphabet (h : Header) : InAlphabet h.chars := by
  have hcta : InAlphabet ['C', 't', 'a'] := by decide
  have hequals : InAlphabet ['='] := by decide
  have hinit : InAlphabet ['I', 'n', 'i', 't'] := by decide
  simp only [Header.chars, inAlphabet_append, inAlphabet_spaces, inAlphabet_word, and_true,
    true_and]
  exact ⟨hcta, hequals, hinit⟩

theorem Edge.inAlphabet_mark (e : Edge) : InAlphabet e.mark := by
  unfold Edge.mark
  cases e.reset with
  | none => exact inAlphabet_nil
  | some r =>
    have hcomma : InAlphabet [','] := by decide
    have hopen : InAlphabet ['\x7b'] := by decide
    have hclock : InAlphabet ['x'] := by decide
    have hclose : InAlphabet ['\x7d'] := by decide
    simp only [Option.map_some, Option.getD_some, Reset.chars, inAlphabet_append,
      inAlphabet_spaces, and_true, true_and]
    exact ⟨hcomma, hopen, hclock, hclose⟩

theorem Edge.inAlphabet {e : Edge} (h : ∃ g, Guard.read e.guard = .ok g) :
    InAlphabet e.chars := by
  rcases h with ⟨g, hg⟩
  have hsymbol : InAlphabet e.direction.symbol.toList := by
    cases e.direction <;> decide
  have hopen : InAlphabet ['('] := by decide
  have hclose : InAlphabet [')'] := by decide
  simp only [Edge.chars, inAlphabet_append, inAlphabet_spaces, inAlphabet_word, and_true,
    true_and]
  exact ⟨hsymbol, hopen, inAlphabet_of_read hg, e.inAlphabet_mark, hclose⟩

/-- The raw guards of a declaration are guards. -/
def Declaration.Guarded (d : Declaration) : Prop :=
  ∀ e ∈ d.edges, ∃ g, Guard.read e.edge.guard = .ok g

theorem Declaration.inAlphabet_clauses {d : Declaration} (h : d.Guarded) :
    ∀ w ∈ d.clauses, InAlphabet w := by
  unfold Declaration.clauses
  simp only [List.forall_mem_cons, List.forall_mem_map, EdgeClause.chars, inAlphabet_append,
    inAlphabet_blanks, and_true, true_and]
  exact ⟨d.header.inAlphabet, fun e he => Edge.inAlphabet (h e he)⟩

/-- Apart from the semicolons, all characters of a declaration are characters of clauses. -/
theorem Declaration.isClauseChar_or_of_mem {d : Declaration} (h : d.Guarded) {c : Char}
    (hc : c ∈ d.chars) : isClauseChar c = true ∨ c = ';' := by
  simp only [Declaration.chars, TimedAutomata.Declaration.closed, List.mem_append,
    List.mem_flatMap, List.mem_singleton] at hc
  rcases hc with ⟨w, hw, hc | hc⟩ | hc
  · exact .inl (Declaration.inAlphabet_clauses h w hw c hc)
  · exact .inr hc
  · exact .inl (inAlphabet_blanks d.tail c hc)

end Spelling
end TimedAutomata
