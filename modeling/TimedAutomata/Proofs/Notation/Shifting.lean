import TimedAutomata.Proofs.Notation.Reading

/-!
# Moving a text

A text that stands later in a longer one is read in the same way; only the positions change, all
by the same number of bytes.

* `Automaton.shift`: an automaton with all its positions moved
* `Declaration.cut_add`, `Declaration.split_add`: the two cuts do not look at positions
* `Declaration.ofPiece_shift`: a piece is the same declaration, moved
* `Automaton.ofEdges_shift`: an automaton made from moved edges is moved
* `Declaration.automaton_shift`: a moved declaration describes the moved automaton
-/

namespace TimedAutomata

/-! ## Moved positions -/

/-- The span `k` bytes later. -/
def Span.shift (k : Nat) (s : Span) : Span :=
  ⟨k + s.start, k + s.stop⟩

/-- The clause `k` bytes later. -/
def Clause.shift (k : Nat) (c : Clause) : Clause :=
  { c with offset := k + c.offset }

/-- The declaration `k` bytes later. -/
def Declaration.shift (k : Nat) (d : Declaration) : Declaration :=
  ⟨d.whole.shift k, d.header.shift k, d.edges.map (Clause.shift k)⟩

/-- The edge `k` bytes later. -/
def Edge.shift (k : Nat) (e : Edge) : Edge :=
  { e with span := e.span.shift k }

/-- The transition as read from a place `k` bytes later. -/
def Transition.shift (k : Nat) (t : Transition) : Transition :=
  { t with span := t.span.shift k }

/-- The automaton as read from a place `k` bytes later: its own span and those of its transitions
are moved, and nothing else changes. -/
def Automaton.shift (k : Nat) (a : Automaton) : Automaton :=
  { a with transitions := a.transitions.map (Transition.shift k), span := a.span.shift k }

@[simp] theorem Span.shift_zero (s : Span) : s.shift 0 = s := by
  simp [shift]

@[simp] theorem Span.shift_shift (k l : Nat) (s : Span) :
    (s.shift l).shift k = s.shift (k + l) := by
  simp [shift, Nat.add_assoc]

namespace Clause

@[simp] theorem text_shift (k : Nat) (c : Clause) : (c.shift k).text = c.text := rfl

@[simp] theorem shift_zero (c : Clause) : c.shift 0 = c := by
  simp [shift]

@[simp] theorem shift_shift (k l : Nat) (c : Clause) :
    (c.shift l).shift k = c.shift (k + l) := by
  simp [shift, Nat.add_assoc]

@[simp] theorem span_shift (k : Nat) (c : Clause) : (c.shift k).span = c.span.shift k := by
  simp [span, stop, shift, Span.shift, Nat.add_assoc]

@[simp] theorem trimmed_shift (k : Nat) (c : Clause) :
    (c.shift k).trimmed = c.trimmed.shift k := by
  simp [trimmed, shift, Nat.add_assoc]

end Clause

@[simp] theorem Declaration.shift_zero (d : Declaration) : d.shift 0 = d := by
  simp [shift, List.map_id'']

@[simp] theorem Declaration.shift_shift (k l : Nat) (d : Declaration) :
    (d.shift l).shift k = d.shift (k + l) := by
  simp [shift]

@[simp] theorem Transition.shift_zero (t : Transition) : t.shift 0 = t := by
  simp [shift]

@[simp] theorem Transition.shift_shift (k l : Nat) (t : Transition) :
    (t.shift l).shift k = t.shift (k + l) := by
  simp [shift]

/-! ## Cutting and splitting -/

namespace Declaration

theorem cut_add (k offset : Nat) (before : Option Char) (cs : List Char) :
    cut (k + offset) before cs =
      ((cut offset before cs).1, (cut offset before cs).2.map (Clause.shift k)) := by
  induction cs generalizing offset before with
  | nil => rfl
  | cons c cs ih =>
    simp only [cut_cons, Nat.add_assoc, ih]
    split <;> rfl

theorem split_add (k offset : Nat) (cs : List Char) :
    split (k + offset) cs =
      ((split offset cs).1.map (Clause.shift k), (split offset cs).2.shift k) := by
  induction cs generalizing offset with
  | nil => rfl
  | cons c cs ih =>
    simp only [split, Nat.add_assoc, ih]
    split
    · rfl
    · cases (split (offset + c.utf8Size) cs).1 <;> rfl

/-- A piece `k` bytes later is the declaration `k` bytes later. -/
theorem ofPiece_shift {piece : Clause} {d : Declaration} (h : ofPiece piece = .ok d) (k : Nat) :
    ofPiece (piece.shift k) = .ok (d.shift k) := by
  have hsplit : split (piece.shift k).offset (piece.shift k).text =
      ((split piece.offset piece.text).1.map (Clause.shift k),
        (split piece.offset piece.text).2.shift k) := split_add k piece.offset piece.text
  rcases ofPiece_eq_ok_iff.1 h with ⟨header, edges, hclosed, hblank, rfl⟩
  refine ofPiece_eq_ok_iff.2 ⟨header.shift k, edges.map (Clause.shift k), ?_, ?_, ?_⟩
  · rw [hsplit, hclosed]
    rfl
  · rw [hsplit]
    exact hblank
  · simp [shift]

end Declaration

/-! ## Reading -/

namespace Clause

theorem header_shift (k : Nat) {c : Clause} {header : Header} (h : c.header = .ok header) :
    (c.shift k).header = .ok header := by
  rw [header_eq_ok_iff] at h ⊢
  exact h

theorem edge_shift (k : Nat) {c : Clause} {e : Edge} (h : c.edge = .ok e) :
    (c.shift k).edge = .ok (e.shift k) := by
  rcases edge_eq_ok_iff.1 h with ⟨raw, hraw, hguard, he⟩
  refine edge_eq_ok_iff.2 ⟨raw, hraw, hguard, ?_⟩
  rw [he, span_shift]
  rfl

end Clause

namespace Automaton

@[simp] theorem label_shift (k : Nat) (a : Automaton) : (a.shift k).label = a.label := rfl

@[simp] theorem shift_zero (a : Automaton) : a.shift 0 = a := by
  simp [shift, List.map_id'']

@[simp] theorem shift_shift (k l : Nat) (a : Automaton) :
    (a.shift l).shift k = a.shift (k + l) := by
  simp [shift]

theorem addState_shift (k : Nat) (a : Automaton) (name : String) :
    (a.shift k).addState name = ((a.addState name).1.shift k, (a.addState name).2) := by
  have hid : (a.shift k).stateId? name = a.stateId? name := rfl
  unfold addState
  rw [hid]
  cases a.stateId? name <;> rfl

theorem addTransition_shift (k : Nat) (a : Automaton) (t : Transition) :
    ((a.shift k).addTransition (t.shift k)).1 = (a.addTransition t).1.shift k := by
  have hstates : (a.shift k).states[(t.shift k).start]? = a.states[t.start]? := rfl
  unfold addTransition
  rw [hstates]
  cases a.states[t.start]? <;> simp [shift, Transition.shift]

theorem addEdge_shift (k : Nat) (a : Automaton) (e : Edge) :
    (a.shift k).addEdge (e.shift k) = (a.addEdge e).shift k := by
  simp only [addEdge, Edge.shift, addState_shift]
  exact addTransition_shift k _ ⟨_, _, e.comm, e.guard, e.resets, e.span⟩

theorem foldl_addEdge_shift (k : Nat) (a : Automaton) (es : List Edge) :
    (es.map (Edge.shift k)).foldl addEdge (a.shift k) = (es.foldl addEdge a).shift k := by
  induction es generalizing a with
  | nil => rfl
  | cons e es ih => rw [List.map_cons, List.foldl_cons, addEdge_shift, ih, List.foldl_cons]

theorem ofEdges_shift (k : Nat) (header : Header) (source : Clause) (es : List Edge) :
    ofEdges header (source.shift k) (es.map (Edge.shift k)) =
      (ofEdges header source es).shift k := by
  have hsingle : single header.label header.initial (String.ofList source.text)
      (source.shift k).span =
      (single header.label header.initial (String.ofList source.text) source.span).shift k := by
    rw [Clause.span_shift]
    rfl
  rw [ofEdges, ofEdges, Clause.text_shift, hsingle, foldl_addEdge_shift]

end Automaton

/-- A declaration `k` bytes later describes the same automaton, with its positions moved. -/
theorem Declaration.automaton_shift (k : Nat) {d : Declaration} {a : Automaton}
    (h : d.automaton = .ok a) : (d.shift k).automaton = .ok (a.shift k) := by
  rcases automaton_eq_ok_iff.1 h with ⟨header, es, hheader, hes, rfl⟩
  refine automaton_eq_ok_iff.2 ⟨header, es.map (Edge.shift k), ?_, ?_, ?_⟩
  · exact Clause.header_shift k hheader
  · apply List.forall₂_map_left_iff.2
    apply List.forall₂_map_right_iff.2
    exact hes.imp fun _ _ hedge => Clause.edge_shift k hedge
  · exact Automaton.ofEdges_shift k header d.whole es

end TimedAutomata
