import TimedAutomata.Diagnostic.Snippet

/-!
# Diagnostics

Messages about errors and doubtful things, most of them with a place in a file.

- `Diagnostic`: a message and its place
- `Diagnostic.fresh`: diagnostics without those that say the same about the same place again
- `Diagnostic.render`: what is printed
-/

namespace TimedAutomata

/-- The position of a file in a list of files. -/
abbrev FileId := Nat

/-- A part of a file. -/
structure Place where
  file : FileId
  span : Span
  deriving DecidableEq, Repr, Inhabited

structure Diagnostic where
  severity : Severity
  message : String
  place : Option Place
  deriving DecidableEq, Repr, Inhabited

namespace Diagnostic

/-- An error at a place. -/
def errorAt (file : FileId) (span : Span) (message : String) : Diagnostic :=
  ⟨.error, message, some ⟨file, span⟩⟩

/-- A warning at a place. -/
def warningAt (file : FileId) (span : Span) (message : String) : Diagnostic :=
  ⟨.warning, message, some ⟨file, span⟩⟩

/-- An error without a place. -/
def general (message : String) : Diagnostic :=
  ⟨.error, message, none⟩

/-! ## Repetition -/

/-- Whether two diagnostics say the same about the same place. Those without a place never do, and
severity does not count. -/
def repeats (d e : Diagnostic) : Bool :=
  d.place.isSome && d.place == e.place && d.message == e.message

/-- The diagnostics that repeat none before them, nor one of those `seen` already. -/
def freshAfter (seen : List Diagnostic) : List Diagnostic → List Diagnostic
  | [] => []
  | d :: ds =>
    if seen.any d.repeats then freshAfter seen ds else d :: freshAfter (seen ++ [d]) ds

def fresh (ds : List Diagnostic) : List Diagnostic :=
  freshAfter [] ds

/-! ## Printing -/

/-- A diagnostic without a snippet. -/
def plainInk (d : Diagnostic) : List Ink :=
  [.text (d.severity.title ++ ": " ++ d.message ++ "\n")]

/-- A diagnostic as it is shown; if its file is not there, without the snippet. -/
def ink (files : List SourceFile) (d : Diagnostic) : List Ink :=
  match d.place with
  | none =>
    Ink.styled (.title d.severity) d.severity.title ++ [.text (": " ++ d.message ++ "\n")]
  | some p =>
    match files[p.file]? with
    | none => d.plainInk
    | some f => (Snippet.of d.severity d.message f p.span).ink

/-- Whether a diagnostic can be shown, with a snippet or without. -/
def isShowable (files : List SourceFile) (d : Diagnostic) : Bool :=
  match d.place with
  | none => true
  | some p =>
    match files[p.file]? with
    | none => true
    | some f => !(Snippet.of d.severity d.message f p.span).isBeyondReach

/-- The text of diagnostics one after another, without repetitions. -/
def render (colour : Bool) (files : List SourceFile) (ds : List Diagnostic) : String :=
  String.join ((fresh ds).map fun d => Ink.render colour (d.ink files))

end Diagnostic
end TimedAutomata
