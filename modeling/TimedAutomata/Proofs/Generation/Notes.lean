import Mathlib.Data.List.Infix
import TimedAutomata.Generation.File
import TimedAutomata.Generation.Recovery
import TimedAutomata.Proofs.Lexeme

/-!
# Notes in a text

Which routes are recovered from a text, line by line. Recovery looks at every line for itself, so
the routes of a text are those of its lines, one after another; and a line without one of the
characters of a note gives none.

* `Text.pieces_append_newline`: a line feed separates
* `Text.mem_of_mem_linesOf`: lines have no characters of their own
* `Text.found`: what a test finds in the lines of a text
* `Text.found_append_newline`, `Text.found_join`: texts made of lines
* `note?_eq_some_iff`: the spellings of a note
* `recover_eq_nil_of_not_mem`: lines that are no notes
* `recover_channelNote`: the notes above channels
* `recover_package`: the line that names the package
-/

namespace TimedAutomata

open Grammar

/-! ## Lines -/

namespace Text

theorem pieces_ne_nil (cs : List Char) : pieces cs ≠ [] := by
  unfold pieces
  split
  · simp
  · split
    · simp
    · split <;> simp

theorem pieces_cons_of_ne {c : Char} (hc : c ≠ '\n') {cs p : List Char} {ps : List (List Char)}
    (h : pieces cs = p :: ps) : pieces (c :: cs) = (c :: p) :: ps := by
  rw [pieces, if_neg hc, h]

/-- A line feed separates what stands before it from what stands after it. -/
theorem pieces_append_newline (u v : List Char) :
    pieces (u ++ '\n' :: v) = pieces u ++ pieces v := by
  induction u with
  | nil => simp [pieces]
  | cons c u ih =>
    by_cases hc : c = '\n'
    · simp [pieces, hc, ih]
    · rcases List.exists_cons_of_ne_nil (pieces_ne_nil u) with ⟨p, ps, hps⟩
      rw [hps, List.cons_append] at ih
      rw [List.cons_append, pieces_cons_of_ne hc ih, pieces_cons_of_ne hc hps, List.cons_append]

theorem mem_of_mem_pieces {cs p : List Char} (hp : p ∈ pieces cs) {c : Char} (hc : c ∈ p) :
    c ∈ cs := by
  induction cs generalizing p with
  | nil => simp_all [pieces]
  | cons d cs ih =>
    by_cases hd : d = '\n'
    · rw [pieces, if_pos hd] at hp
      rcases List.mem_cons.1 hp with rfl | hp
      · simp at hc
      · exact List.mem_cons_of_mem _ (ih hp hc)
    · rcases List.exists_cons_of_ne_nil (pieces_ne_nil cs) with ⟨q, qs, hqs⟩
      rw [pieces_cons_of_ne hd hqs] at hp
      rw [hqs] at ih
      rcases List.mem_cons.1 hp with rfl | hp
      · rcases List.mem_cons.1 hc with rfl | hc
        · exact List.mem_cons_self
        · exact List.mem_cons_of_mem _ (ih List.mem_cons_self hc)
      · exact List.mem_cons_of_mem _ (ih (List.mem_cons_of_mem _ hp) hc)

/-- A line holds no line feed. -/
theorem not_mem_of_mem_pieces {cs p : List Char} (hp : p ∈ pieces cs) : '\n' ∉ p := by
  induction cs generalizing p with
  | nil => simp_all [pieces]
  | cons c cs ih =>
    by_cases hc : c = '\n'
    · rw [pieces, if_pos hc] at hp
      rcases List.mem_cons.1 hp with rfl | hp
      · exact List.not_mem_nil
      · exact ih hp
    · rcases List.exists_cons_of_ne_nil (pieces_ne_nil cs) with ⟨q, qs, hqs⟩
      rw [pieces_cons_of_ne hc hqs] at hp
      rw [hqs] at ih
      rcases List.mem_cons.1 hp with rfl | hp
      · simp [Ne.symm hc, ih List.mem_cons_self]
      · exact ih (List.mem_cons_of_mem _ hp)

theorem pieces_of_not_mem {cs : List Char} (h : '\n' ∉ cs) : pieces cs = [cs] := by
  induction cs with
  | nil => rfl
  | cons c cs ih =>
    simp only [List.mem_cons, not_or] at h
    exact pieces_cons_of_ne (Ne.symm h.1) (ih h.2)

theorem toList_join_cons (l : String) (ls : List String) :
    (String.join ((l :: ls).map (· ++ "\n"))).toList =
      l.toList ++ '\n' :: (String.join (ls.map (· ++ "\n"))).toList := by
  simp [String.join_cons]

/-- The pieces of a text made of lines are those of its lines, and an empty one at the end. -/
theorem pieces_join (ls : List String) :
    pieces (String.join (ls.map (· ++ "\n"))).toList =
      (ls.flatMap fun l => pieces l.toList) ++ [[]] := by
  induction ls with
  | nil => rfl
  | cons l ls ih =>
    rw [toList_join_cons, pieces_append_newline, ih, List.flatMap_cons, List.append_assoc]

theorem mem_of_mem_dropReturn {cs : List Char} {c : Char} (h : c ∈ dropReturn cs) : c ∈ cs := by
  unfold dropReturn at h
  split at h
  · exact List.mem_of_mem_dropLast h
  · exact h

/-- The characters of a line are characters of one of the pieces. -/
theorem exists_piece_of_mem_lines {cs line : List Char} (hline : line ∈ lines cs) :
    ∃ p ∈ pieces cs, ∀ c ∈ line, c ∈ p := by
  have hclosed : line ∈ (pieces cs).dropLast.map dropReturn →
      ∃ p ∈ pieces cs, ∀ c ∈ line, c ∈ p := by
    intro hmem
    rcases List.mem_map.1 hmem with ⟨piece, hpiece, rfl⟩
    exact ⟨piece, List.mem_of_mem_dropLast hpiece, fun c hc => mem_of_mem_dropReturn hc⟩
  unfold lines at hline
  simp only at hline
  split at hline
  · next hlast =>
    rcases List.mem_append.1 hline with hmem | hmem
    · exact hclosed hmem
    · -- the last line, which no line feed closes
      obtain rfl := List.mem_singleton.1 hmem
      exact ⟨_, List.mem_of_getLast? hlast, fun c hc => hc⟩
  · exact hclosed hline

theorem mem_of_mem_lines {cs line : List Char} (hline : line ∈ lines cs) {c : Char}
    (hc : c ∈ line) : c ∈ cs := by
  rcases exists_piece_of_mem_lines hline with ⟨p, hp, hsubset⟩
  exact mem_of_mem_pieces hp (hsubset c hc)

theorem not_mem_of_mem_linesOf {s line : String} (hline : line ∈ linesOf s) :
    '\n' ∉ line.toList := by
  rcases List.mem_map.1 hline with ⟨l, hl, rfl⟩
  rcases exists_piece_of_mem_lines hl with ⟨p, hp, hsubset⟩
  rw [String.toList_ofList]
  exact fun hmem => not_mem_of_mem_pieces hp (hsubset _ hmem)

theorem mem_of_mem_linesOf {s line : String} (hline : line ∈ linesOf s) {c : Char}
    (hc : c ∈ line.toList) : c ∈ s.toList := by
  rcases List.mem_map.1 hline with ⟨l, hl, rfl⟩
  rw [String.toList_ofList] at hc
  exact mem_of_mem_lines hl hc

/-- Trimming makes no difference between a line and the same line without its carriage return. -/
theorem trim_dropReturn (cs : List Char) : trim (dropReturn cs) = trim cs := by
  unfold dropReturn
  split
  · next hlast =>
    rcases List.getLast?_eq_some_iff.1 hlast with ⟨ds, rfl⟩
    have hreturn : IsBlank ['\r'] := by decide
    rw [List.dropLast_concat, trim_append_of_isBlank hreturn]
  · rfl

/-- What is found in the trimmed lines of a text is found in its trimmed pieces, provided that
nothing is found in an empty line. -/
theorem filterMap_lines {α : Type} (f : List Char → Option α) (hnil : f [] = none)
    (cs : List Char) :
    (lines cs).filterMap (fun l => f (trim l)) = (pieces cs).filterMap (fun l => f (trim l)) := by
  have hclosed : ∀ ps : List (List Char),
      (ps.map dropReturn).filterMap (fun l => f (trim l)) = ps.filterMap fun l => f (trim l) := by
    intro ps
    simp [List.filterMap_map, trim_dropReturn]
  rcases List.eq_nil_or_concat (pieces cs) with hps | ⟨ps, p, hps⟩
  · exact absurd hps (pieces_ne_nil cs)
  · cases p with
    | nil =>
      have htrim : trim [] = [] := rfl
      simp [lines, hps, hclosed, htrim, hnil]
    | cons c p => simp [lines, hps, hclosed]

/-- What a test finds in the lines of a text, without their blank ends. -/
def found {α : Type} (f : List Char → Option α) (text : String) : List α :=
  (lines text.toList).filterMap fun line => f (trim line)

section Found

variable {α : Type} {f : List Char → Option α} (hnil : f [] = none)

include hnil

theorem found_eq (text : String) :
    found f text = (pieces text.toList).filterMap fun line => f (trim line) :=
  filterMap_lines f hnil text.toList

/-- What is found in a text is what is found before a line feed and after it. -/
theorem found_append_newline (s t : String) :
    found f (s ++ "\n" ++ t) = found f s ++ found f t := by
  have htext : (s ++ "\n" ++ t).toList = s.toList ++ '\n' :: t.toList := by simp
  rw [found_eq hnil, htext, pieces_append_newline, List.filterMap_append, ← found_eq hnil,
    ← found_eq hnil]

/-- What is found in a text made of lines is what is found in its lines. -/
theorem found_join (ls : List String) :
    found f (String.join (ls.map (· ++ "\n"))) = ls.flatMap (found f) := by
  induction ls with
  | nil => simp [found, lines, pieces]
  | cons l ls ih =>
    rw [List.map_cons, String.join_cons, found_append_newline hnil, ih, List.flatMap_cons]

theorem found_of_not_mem {s : String} (h : '\n' ∉ s.toList) :
    found f s = (f (trim s.toList)).toList := by
  rw [found_eq hnil, pieces_of_not_mem h]
  cases hline : f (trim s.toList) <;> simp [hline]

/-- Nothing is found without a character that all findings hold. -/
theorem found_eq_nil_of_not_mem {c : Char} (hc : ∀ cs a, f cs = some a → c ∈ cs) {s : String}
    (h : c ∉ s.toList) : found f s = [] := by
  rw [found_eq hnil, List.filterMap_eq_nil_iff]
  intro line hline
  cases hfound : f (trim line) with
  | none => rfl
  | some a => exact absurd (mem_of_mem_pieces hline (mem_of_mem_trim (hc _ a hfound))) h

end Found

end Text

/-! ## Notes -/

/-- The names of a route are words. -/
structure Route.Written (r : Route) : Prop where
  sender : IsWord r.sender.toList
  receiver : IsWord r.receiver.toList
  payload : IsWord r.payload.toList

namespace Generation

/-- The spellings of a note. -/
theorem note?_eq_some_iff {cs : List Char} {r : Route} :
    note? cs = some r ↔ r.Written ∧ ∃ s₀ s₁ s₂ s₃ s₄ s₅ : Spaces,
      cs = ['/', '/'] ++ (s₀.chars ++ (r.sender.toList ++ (s₁.chars ++ (['-', '>'] ++ (s₂.chars ++
        (r.receiver.toList ++ (s₃.chars ++ ([':'] ++ (s₄.chars ++ (r.payload.toList ++
          s₅.chars)))))))))) := by
  constructor
  · intro h
    simp only [note?, Option.bind_eq_bind, Option.bind_eq_some_iff, Prod.exists] at h
    obtain ⟨cs₁, hslashes, sender, cs₂, hsender, cs₃, harrow, receiver, cs₄, hreceiver, cs₅,
      hcolon, payload, cs₆, hpayload, hend⟩ := h
    obtain rfl := literal?_eq_some_iff.1 hslashes
    obtain ⟨s₀, rfl, hs, -⟩ := word?_skipSpaces_eq_some_iff.1 hsender
    obtain ⟨s₁, rfl⟩ := (literal?_skipSpaces_eq_some_iff (by decide)).1 harrow
    obtain ⟨s₂, rfl, hr, -⟩ := word?_skipSpaces_eq_some_iff.1 hreceiver
    obtain ⟨s₃, rfl⟩ := (literal?_skipSpaces_eq_some_iff (by decide)).1 hcolon
    obtain ⟨s₄, rfl, hp, -⟩ := word?_skipSpaces_eq_some_iff.1 hpayload
    split at hend
    · next hempty =>
      obtain ⟨s₅, rfl⟩ := isEmpty_skipSpaces_iff.1 hempty
      obtain rfl := Option.some.inj hend
      exact ⟨⟨by simpa using hs, by simpa using hr, by simpa using hp⟩, s₀, s₁, s₂, s₃, s₄, s₅,
        by simp⟩
    · simp at hend
  · rintro ⟨hr, s₀, s₁, s₂, s₃, s₄, s₅, rfl⟩
    have hempty : (skipSpaces s₅.chars).isEmpty = true := isEmpty_skipSpaces_iff.2 ⟨s₅, rfl⟩
    have harrow : EndsWord (s₁.chars ++ (['-', '>'] ++ (s₂.chars ++ (r.receiver.toList ++
        (s₃.chars ++ ([':'] ++ (s₄.chars ++ (r.payload.toList ++ s₅.chars)))))))) :=
      endsWord_spaces_cons s₁ (by decide) _
    have hcolon : EndsWord (s₃.chars ++ ([':'] ++ (s₄.chars ++ (r.payload.toList ++
        s₅.chars)))) :=
      endsWord_spaces_cons s₃ (by decide) _
    simp only [note?, Option.bind_eq_bind, Option.bind_eq_some_iff, Prod.exists]
    refine ⟨_, literal?_append _ _, _, _,
      word?_skipSpaces_eq_some_iff.2 ⟨s₀, rfl, hr.sender, harrow⟩, _,
      (literal?_skipSpaces_eq_some_iff (by decide)).2 ⟨s₁, rfl⟩, _, _,
      word?_skipSpaces_eq_some_iff.2 ⟨s₂, rfl, hr.receiver, hcolon⟩, _,
      (literal?_skipSpaces_eq_some_iff (by decide)).2 ⟨s₃, rfl⟩, _, _,
      word?_skipSpaces_eq_some_iff.2 ⟨s₄, rfl, hr.payload, endsWord_spaces s₅⟩, ?_⟩
    simp [hempty]

/-- The characters without which there is no note. -/
def noteMarks : List Char :=
  ['/', '-', '>', ':']

theorem mem_of_note? {cs : List Char} {r : Route} (h : note? cs = some r) :
    ∀ c ∈ noteMarks, c ∈ cs := by
  rcases note?_eq_some_iff.1 h with ⟨-, s₀, s₁, s₂, s₃, s₄, s₅, rfl⟩
  simp [noteMarks]

/-! ## Recovery, line by line -/

/-- The routes of a text made of lines are those of its lines. -/
theorem recover_join (ls : List String) :
    recover (String.join (ls.map (· ++ "\n"))) = ls.flatMap recover :=
  Text.found_join rfl ls

theorem recover_of_not_mem {s : String} (h : '\n' ∉ s.toList) :
    recover s = (note? (Text.trim s.toList)).toList :=
  Text.found_of_not_mem rfl h

/-- Without one of the characters of notes there are no routes. -/
theorem recover_eq_nil_of_not_mem {s : String} {c : Char} (hc : c ∈ noteMarks)
    (h : c ∉ s.toList) : recover s = [] :=
  Text.found_eq_nil_of_not_mem rfl (fun _ _ hnote => mem_of_note? hnote c hc) h

/-! ## Lines of a program -/

/-- The note above a channel gives its route. -/
theorem recover_channelNote {r : Route} (hr : r.Written) :
    recover (indented 1 (channelNote r)) = [r] := by
  let note := ['/', '/'] ++ ([' '] ++ (r.sender.toList ++ ([' '] ++ (['-', '>'] ++ ([' '] ++
    (r.receiver.toList ++ ([' '] ++ ([':'] ++ ([' '] ++ r.payload.toList)))))))))
  have hchars : (indented 1 (channelNote r)).toList = ['\t'] ++ (note ++ []) := by
    simp [indented, channelNote, note]
  have hline : '\n' ∉ (indented 1 (channelNote r)).toList := by
    have hfeed : isWordChar '\n' = false := by decide
    simp [hchars, note, hr.sender.not_mem hfeed, hr.receiver.not_mem hfeed,
      hr.payload.not_mem hfeed]
  have hdense : Text.Dense note := by
    have hblank : Text.isBlank '/' = false := by decide
    have hslash : Text.Dense ['/'] := ⟨by simp, by simp [hblank], by simp [hblank]⟩
    have hsandwich := hslash.sandwich hr.payload.dense (['/'] ++ ([' '] ++ (r.sender.toList ++
      ([' '] ++ (['-', '>'] ++ ([' '] ++ (r.receiver.toList ++ ([' '] ++ ([':'] ++ [' '])))))))))
    simpa [note] using hsandwich
  have hnote : note? note = some r := by
    refine note?_eq_some_iff.2 ⟨hr, .single, .single, .single, .single, .single, .none, ?_⟩
    simp [note, Spaces.single, Spaces.none]
  have hblank : Text.IsBlank ['\t'] := by decide
  have hnil : Text.IsBlank [] := by decide
  rw [recover_of_not_mem hline, hchars, Text.trim_append hblank hdense hnil, hnote]
  rfl

/-- The line that names the package is no note, if it is one line. -/
theorem recover_package {package : String} (h : '\n' ∉ package.toList) :
    recover ("package " ++ package) = [] := by
  have hchars : ("package " ++ package).toList = 'p' :: ("ackage ".toList ++ package.toList) := by
    simp
  have hline : '\n' ∉ ("package " ++ package).toList := by simp [h]
  rw [recover_of_not_mem hline]
  cases hnote : note? (Text.trim ("package " ++ package).toList) with
  | none => rfl
  | some r =>
    rcases note?_eq_some_iff.1 hnote with ⟨-, s₀, s₁, s₂, s₃, s₄, s₅, htrim⟩
    rcases Text.exists_blank_ends ("package " ++ package).toList with ⟨before, after, hb, -, hcs⟩
    rw [htrim, hchars] at hcs
    -- the first letter is neither a blank nor a slash
    cases before with
    | nil => simp at hcs
    | cons c before =>
      obtain rfl := (List.cons.inj hcs).1
      exact absurd (hb 'p' (by simp)) (by decide)

end Generation
end TimedAutomata
