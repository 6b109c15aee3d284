import TimedAutomata.Proofs.Generation.Notes

/-!
# Statements without notes

If no name and no string in a statement holds a slash, the lines with a slash are those of its
comments. So no line of code is taken for a note; and no line of comment is, if it holds no arrow.
Both are conditions on the tree, from which the lines are laid out.

* `Bare`, `Expr.Bare`: texts and expressions without a slash and a line feed
* `slashed`: the lines that are not bare
* `Stmt.Quiet`: no slash in the code and no arrow in the comments
* `Stmt.comments`, `Stmt.slashed_lines`: the slashed lines of a statement are its comments
* `Func.slashed_lines`, `Func.recover_comments`: whole functions
-/

namespace TimedAutomata
namespace Generation

open Grammar

/-! ## Bare texts -/

/-- The text stays out of comments and on its line. -/
def Bare (s : String) : Prop :=
  '/' ∉ s.toList ∧ '\n' ∉ s.toList

instance (s : String) : Decidable (Bare s) :=
  inferInstanceAs (Decidable (_ ∧ _))

@[simp] theorem bare_append {s t : String} : Bare (s ++ t) ↔ Bare s ∧ Bare t := by
  simp only [Bare, String.toList_append, List.mem_append, not_or]
  exact and_and_and_comm

theorem bare_of_isWord {s : String} (h : IsWord s.toList) : Bare s :=
  ⟨h.not_mem (by decide), h.not_mem (by decide)⟩

@[simp] theorem bare_nat (n : Nat) : Bare n.repr := by
  have hdigits : ∀ c, c.isDigit = false → c ∉ n.repr.toList := by
    intro c hc hmem
    rw [Nat.toList_repr] at hmem
    simp [Nat.isDigit_of_mem_toDigits (by decide) (by decide) hmem] at hc
  exact ⟨hdigits '/' (by decide), hdigits '\n' (by decide)⟩

@[simp] theorem bare_int (n : Int) : Bare n.repr := by
  cases n with
  | ofNat n => exact bare_nat n
  | negSucc n => exact bare_append.2 ⟨by decide, bare_nat (n + 1)⟩

theorem bare_indented (n : Nat) {s : String} (h : Bare s) :
    Bare (indented n s) := by
  refine bare_append.2 ⟨?_, h⟩
  simp [Bare]

/-! ## Expressions -/

mutual

/-- The names and strings of the expression are bare. -/
def Expr.Bare : Expr → Prop
  | .name id | .string id | .struct id | .address id | .receive id => Generation.Bare id
  | .int _ => True
  | .not inner | .paren inner => inner.Bare
  | .binary _ left right => left.Bare ∧ right.Bare
  | .index list position => list.Bare ∧ position.Bare
  | .call function args => Generation.Bare function ∧ Expr.AllBare args
  | .makeChan element capacity =>
    Generation.Bare element ∧ Generation.Bare (capacity.getD "")

def Expr.AllBare : List Expr → Prop
  | [] => True
  | e :: es => e.Bare ∧ Expr.AllBare es

end

@[simp] theorem Expr.allBare_iff {es : List Expr} :
    Expr.AllBare es ↔ ∀ e ∈ es, e.Bare := by
  induction es with
  | nil => simp [Expr.AllBare]
  | cons e es ih => simp [Expr.AllBare, ih]

theorem Operator.bare_text (op : Operator) : Bare op.text := by
  cases op <;> decide

mutual

theorem Expr.bare_text {e : Expr} (h : e.Bare) : Generation.Bare e.text := by
  cases e with
  | name id => exact h
  | int n => exact bare_int n
  | string body =>
    exact bare_append.2 ⟨bare_append.2 ⟨by decide, h⟩, by decide⟩
  | struct type => exact bare_append.2 ⟨h, by decide⟩
  | not inner => exact bare_append.2 ⟨by decide, Expr.bare_text h⟩
  | paren inner =>
    exact bare_append.2 ⟨bare_append.2 ⟨by decide, Expr.bare_text h⟩, by decide⟩
  | address id => exact bare_append.2 ⟨by decide, h⟩
  | binary op left right =>
    have hleft := Expr.bare_text h.1
    have hright := Expr.bare_text h.2
    simp [Expr.text, hleft, hright, op.bare_text]
  | index list position =>
    have hlist := Expr.bare_text h.1
    have hposition := Expr.bare_text h.2
    simp +decide [Expr.text, hlist, hposition]
  | call function args =>
    have hargs := Expr.bare_listText h.2
    have hfunction := h.1
    simp +decide [Expr.text, hfunction, hargs]
  | makeChan element capacity =>
    have helement := h.1
    have hcapacity := h.2
    cases capacity with
    | none => simp +decide [Expr.text, helement]
    | some capacity => simp_all +decide [Expr.text]
  | receive channel => exact bare_append.2 ⟨by decide, h⟩

theorem Expr.bare_listText {es : List Expr} (h : Expr.AllBare es) :
    Generation.Bare (Expr.listText es) := by
  match es, h with
  | [], _ => decide
  | [e], h => exact Expr.bare_text h.1
  | e :: e' :: es, h =>
    have hfirst := Expr.bare_text h.1
    have hrest := Expr.bare_listText h.2
    simp +decide [Expr.listText, hfirst, hrest]

end

/-! ## Lines -/

/-- The lines that are not bare. In a program, they hold slashes. -/
def slashed (ls : List String) : List String :=
  ls.filter fun l => ¬ Bare l

@[simp] theorem slashed_nil : slashed [] = [] := rfl

@[simp] theorem slashed_append (ls ms : List String) :
    slashed (ls ++ ms) = slashed ls ++ slashed ms :=
  List.filter_append ls ms

theorem slashed_cons {l : String} (h : Bare l) (ls : List String) :
    slashed (l :: ls) = slashed ls :=
  List.filter_cons_of_neg (by simpa using h)

/-- A line of bare code. -/
theorem slashed_indented (n : Nat) {s : String} (h : Bare s) (ls : List String) :
    slashed (indented n s :: ls) = slashed ls :=
  slashed_cons (bare_indented n h) ls

theorem slashed_eq_nil {ls : List String} (h : ∀ l ∈ ls, Bare l) : slashed ls = [] := by
  apply List.filter_eq_nil_iff.2
  intro l hl
  simpa using h l hl

theorem slashed_eq_self {ls : List String} (h : ∀ l ∈ ls, ¬ Bare l) : slashed ls = ls := by
  apply List.filter_eq_self.2
  intro l hl
  simpa using h l hl

/-- Elements in which nothing is found can be left out. -/
theorem flatMap_filter {α β : Type} {q : α → Bool} {f : α → List β}
    (hf : ∀ a, q a = false → f a = []) (as : List α) :
    (as.filter q).flatMap f = as.flatMap f := by
  induction as with
  | nil => rfl
  | cons a as ih =>
    cases hq : q a with
    | false => rw [List.filter_cons_of_neg (by simp [hq]), List.flatMap_cons, hf a hq, ih,
        List.nil_append]
    | true => rw [List.filter_cons_of_pos hq, List.flatMap_cons, List.flatMap_cons, ih]

theorem flatMap_slashed {α : Type} {f : String → List α} (hf : ∀ l, Bare l → f l = [])
    (ls : List String) : (slashed ls).flatMap f = ls.flatMap f :=
  flatMap_filter (fun l hl => hf l (by simpa using hl)) ls

theorem recover_of_bare {s : String} (h : Bare s) : recover s = [] :=
  recover_eq_nil_of_not_mem (c := '/') (by decide) h.1

theorem recover_of_not_mem_arrow {s : String} (h : '>' ∉ s.toList) : recover s = [] :=
  recover_eq_nil_of_not_mem (c := '>') (by decide) h

theorem flatMap_recover_eq_nil {ls : List String} (h : ∀ l ∈ ls, '>' ∉ l.toList) :
    ls.flatMap recover = [] :=
  List.flatMap_eq_nil_iff.2 fun l hl => recover_of_not_mem_arrow (h l hl)

/-! ## Statements -/

mutual

/-- The code of the statement is bare, and its comments hold no arrow. -/
def Stmt.Quiet : Stmt → Prop
  | .define name value | .assign name value | .send name value =>
    Bare name ∧ value.Bare
  | .defineFlags name values => Bare name ∧ ∀ v ∈ values, v.Bare
  | .declare name type => Bare name ∧ Bare type
  | .call e | .deferred e | .go e => e.Bare
  | .comment text => '>' ∉ text.toList
  | .blank | .next => True
  | .giveBack value => ∀ v ∈ value, v.Bare
  | .goFunc body | .forever body => Stmt.AllQuiet body
  | .when condition body => condition.Bare ∧ Stmt.AllQuiet body
  | .forEach item list body => Bare item ∧ Bare list ∧ Stmt.AllQuiet body
  | .switch subject cases => Bare subject ∧ Stmt.CasesQuiet cases
  | .select cases => Stmt.CasesQuiet cases

def Stmt.AllQuiet : List Stmt → Prop
  | [] => True
  | s :: ss => s.Quiet ∧ Stmt.AllQuiet ss

def Stmt.CasesQuiet : List Case → Prop
  | [] => True
  | .mk labels body :: cases =>
    (∀ e ∈ labels, e.Bare) ∧ Stmt.AllQuiet body ∧ Stmt.CasesQuiet cases

end

def Case.Quiet : Case → Prop
  | .mk labels body => (∀ e ∈ labels, e.Bare) ∧ ∀ s ∈ body, s.Quiet

@[simp] theorem Stmt.allQuiet_iff {ss : List Stmt} :
    Stmt.AllQuiet ss ↔ ∀ s ∈ ss, s.Quiet := by
  induction ss with
  | nil => simp [Stmt.AllQuiet]
  | cons s ss ih => simp [Stmt.AllQuiet, ih]

@[simp] theorem Stmt.casesQuiet_iff {cases : List Case} :
    Stmt.CasesQuiet cases ↔ ∀ c ∈ cases, c.Quiet := by
  induction cases with
  | nil => simp [Stmt.CasesQuiet]
  | cons c cases ih =>
    cases c
    simp [Stmt.CasesQuiet, Case.Quiet, ih, and_assoc]

mutual

/-- The comments in a statement, as they are written at a depth of `n` tabs. -/
def Stmt.comments (n : Nat) : Stmt → List String
  | .comment text => [indented n ("// " ++ text)]
  | .goFunc body | .when _ body | .forever body | .forEach _ _ body =>
    Stmt.blockComments (n + 1) body
  | .switch _ cases | .select cases => Stmt.caseComments n cases
  | _ => []

def Stmt.blockComments (n : Nat) : List Stmt → List String
  | [] => []
  | s :: ss => s.comments n ++ Stmt.blockComments n ss

def Stmt.caseComments (n : Nat) : List Case → List String
  | [] => []
  | .mk _ body :: cases => Stmt.blockComments (n + 1) body ++ Stmt.caseComments n cases

end

theorem Stmt.blockComments_eq (n : Nat) (ss : List Stmt) :
    Stmt.blockComments n ss = ss.flatMap (Stmt.comments n) := by
  induction ss with
  | nil => rfl
  | cons s ss ih => rw [Stmt.blockComments, ih, List.flatMap_cons]

theorem slashed_comment (n : Nat) (text : String) :
    slashed [indented n ("// " ++ text)] = [indented n ("// " ++ text)] := by
  apply slashed_eq_self
  simp [Bare, indented]

mutual

/-- The slashed lines of a quiet statement are its comments. -/
theorem Stmt.slashed_lines (n : Nat) {s : Stmt} (h : s.Quiet) :
    slashed (s.lines n) = s.comments n := by
  cases s with
  | define name value =>
    have hvalue := Expr.bare_text h.2
    simp +decide [Stmt.lines, Stmt.comments, slashed_indented, h.1, hvalue]
  | defineFlags name values =>
    have hvalues : slashed (values.map fun v => indented (n + 1) (v.text ++ ",")) = [] := by
      apply slashed_eq_nil
      rw [List.forall_mem_map]
      intro v hv
      have hv := Expr.bare_text (h.2 v hv)
      exact bare_indented _ (bare_append.2 ⟨hv, by decide⟩)
    simp +decide [Stmt.lines, Stmt.comments, slashed_indented, h.1, hvalues]
  | declare name type =>
    simp +decide [Stmt.lines, Stmt.comments, slashed_indented, h.1, h.2]
  | assign name value =>
    have hvalue := Expr.bare_text h.2
    simp +decide [Stmt.lines, Stmt.comments, slashed_indented, h.1, hvalue]
  | call e =>
    have he := Expr.bare_text h
    simp [Stmt.lines, Stmt.comments, slashed_indented, he]
  | deferred e =>
    have he := Expr.bare_text h
    simp +decide [Stmt.lines, Stmt.comments, slashed_indented, he]
  | go e =>
    have he := Expr.bare_text h
    simp +decide [Stmt.lines, Stmt.comments, slashed_indented, he]
  | goFunc body =>
    have hbody := Stmt.slashed_blockLines (n + 1) h
    simp +decide [Stmt.lines, Stmt.comments, slashed_indented, hbody]
  | send channel value =>
    have hvalue := Expr.bare_text h.2
    simp +decide [Stmt.lines, Stmt.comments, slashed_indented, h.1, hvalue]
  | comment text => exact slashed_comment n text
  | blank => exact slashed_cons (by decide) []
  | giveBack value =>
    cases value with
    | none => simp +decide [Stmt.lines, Stmt.comments, slashed_indented]
    | some value =>
      have hvalue := Expr.bare_text (h value rfl)
      simp +decide [Stmt.lines, Stmt.comments, slashed_indented, hvalue]
  | next => simp +decide [Stmt.lines, Stmt.comments, slashed_indented]
  | «when» condition body =>
    have hcondition := Expr.bare_text h.1
    have hbody := Stmt.slashed_blockLines (n + 1) h.2
    simp +decide [Stmt.lines, Stmt.comments, slashed_indented, hcondition, hbody]
  | forever body =>
    have hbody := Stmt.slashed_blockLines (n + 1) h
    simp +decide [Stmt.lines, Stmt.comments, slashed_indented, hbody]
  | forEach item list body =>
    have hbody := Stmt.slashed_blockLines (n + 1) h.2.2
    simp +decide [Stmt.lines, Stmt.comments, slashed_indented, h.1, h.2.1, hbody]
  | switch subject cases =>
    have hcases := Stmt.slashed_caseLines n h.2
    simp +decide [Stmt.lines, Stmt.comments, slashed_indented, h.1, hcases]
  | select cases =>
    have hcases := Stmt.slashed_caseLines n h
    simp +decide [Stmt.lines, Stmt.comments, slashed_indented, hcases]

theorem Stmt.slashed_blockLines (n : Nat) {ss : List Stmt} (h : Stmt.AllQuiet ss) :
    slashed (Stmt.blockLines n ss) = Stmt.blockComments n ss := by
  match ss, h with
  | [], _ => exact slashed_nil
  | s :: ss, h =>
    rw [Stmt.blockLines, slashed_append, Stmt.slashed_lines n h.1, Stmt.slashed_blockLines n h.2]
    rfl

theorem Stmt.slashed_caseLines (n : Nat) {cases : List Case} (h : Stmt.CasesQuiet cases) :
    slashed (Stmt.caseLines n cases) = Stmt.caseComments n cases := by
  match cases, h with
  | [], _ => exact slashed_nil
  | .mk labels body :: cases, h =>
    have hlabels := Expr.bare_listText (Expr.allBare_iff.2 h.1)
    have hbody := Stmt.slashed_blockLines (n + 1) h.2.1
    have hcases := Stmt.slashed_caseLines n h.2.2
    simp +decide [Stmt.caseLines, Stmt.caseComments, slashed_indented, hlabels, hbody, hcases]

end

mutual

/-- The comments of a quiet statement hold no arrow. -/
theorem Stmt.not_mem_arrow (n : Nat) {s : Stmt} (h : s.Quiet) :
    ∀ l ∈ s.comments n, '>' ∉ l.toList := by
  cases s with
  | comment text =>
    have htext : '>' ∉ text.toList := h
    simp [Stmt.comments, indented, htext]
  | goFunc body | forever body => exact Stmt.not_mem_arrow_block (n + 1) h
  | «when» condition body => exact Stmt.not_mem_arrow_block (n + 1) h.2
  | forEach item list body => exact Stmt.not_mem_arrow_block (n + 1) h.2.2
  | switch subject cases => exact Stmt.not_mem_arrow_cases n h.2
  | select cases => exact Stmt.not_mem_arrow_cases n h
  | define | defineFlags | declare | assign | call | deferred | go | send | blank | giveBack
  | next => simp [Stmt.comments]

theorem Stmt.not_mem_arrow_block (n : Nat) {ss : List Stmt} (h : Stmt.AllQuiet ss) :
    ∀ l ∈ Stmt.blockComments n ss, '>' ∉ l.toList := by
  match ss, h with
  | [], _ => simp [Stmt.blockComments]
  | s :: ss, h =>
    exact List.forall_mem_append.2 ⟨Stmt.not_mem_arrow n h.1, Stmt.not_mem_arrow_block n h.2⟩

theorem Stmt.not_mem_arrow_cases (n : Nat) {cases : List Case} (h : Stmt.CasesQuiet cases) :
    ∀ l ∈ Stmt.caseComments n cases, '>' ∉ l.toList := by
  match cases, h with
  | [], _ => simp [Stmt.caseComments]
  | .mk labels body :: cases, h =>
    exact List.forall_mem_append.2
      ⟨Stmt.not_mem_arrow_block (n + 1) h.2.1, Stmt.not_mem_arrow_cases n h.2.2⟩

end

/-! ## Functions -/

/-- The function is quiet, and its comment lacks a character of notes. -/
structure Func.Quiet (f : Func) : Prop where
  doc : ∀ line ∈ f.doc, '>' ∉ line.toList ∨ '-' ∉ line.toList
  name : Bare f.name
  params : Bare f.params
  result : Bare (f.result.getD "")
  body : ∀ s ∈ f.body, s.Quiet

/-- The comments above and in a function. -/
def Func.comments (f : Func) : List String :=
  f.doc.map ("//" ++ ·) ++ Stmt.blockComments 1 f.body

theorem Func.slashed_lines {f : Func} (h : f.Quiet) : slashed f.lines = f.comments := by
  have hdoc : slashed (f.doc.map ("//" ++ ·)) = f.doc.map ("//" ++ ·) := by
    apply slashed_eq_self
    simp [Bare]
  have hbody := Stmt.slashed_blockLines 1 (Stmt.allQuiet_iff.2 h.body)
  rw [Func.lines, slashed_append, slashed_append, hdoc, slashed_cons ?head, hbody,
    slashed_cons (by decide), slashed_nil, List.append_nil]
  case head =>
    have hresult := h.result
    cases hr : f.result with
    | none => simp +decide [h.name, h.params]
    | some type =>
      rw [hr, Option.getD_some] at hresult
      simp +decide [h.name, h.params, hresult]
  rfl

/-- No comment of a quiet function is a note. -/
theorem Func.recover_comments {f : Func} (h : f.Quiet) : f.comments.flatMap recover = [] := by
  have hdoc : (f.doc.map ("//" ++ ·)).flatMap recover = [] := by
    rw [List.flatMap_eq_nil_iff, List.forall_mem_map]
    intro line hline
    rcases h.doc line hline with harrow | harrow
    · exact recover_of_not_mem_arrow (by simpa using harrow)
    · exact recover_eq_nil_of_not_mem (c := '-') (by decide) (by simpa using harrow)
  have hbody := flatMap_recover_eq_nil
    (Stmt.not_mem_arrow_block 1 (Stmt.allQuiet_iff.2 h.body))
  rw [Func.comments, List.flatMap_append, hdoc, hbody, List.append_nil]

end Generation
end TimedAutomata
