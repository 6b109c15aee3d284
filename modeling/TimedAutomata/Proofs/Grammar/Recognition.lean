import TimedAutomata.Grammar.Expression
import TimedAutomata.Grammar.Lexeme
import TimedAutomata.Text.Bytes

/-!
# Recognition by parsing expressions

A pass over a text keeps a record of attempts, but how far it gets depends on the text alone. With
enough depth, each form of expression has its own law of what it leaves of a text.

* `recognize`: what a pass leaves of a text, without the record
* `rest_follow`: `follow` gets as far as `recognize`
* `Computes g L size e f`: with depth `size` and 64 for each character, `e` leaves of every text
  shorter than `L` what `f` says
* `Computes.seq`, `Computes.alt`, `Computes.many` and so on: the laws
-/

namespace TimedAutomata
namespace Grammar

variable {ρ : Type}

/-- What follows one character of a class. -/
def one? (accepts : Char → Bool) : List Char → Option (List Char)
  | [] => none
  | c :: cs => if accepts c then some cs else none

/-- What an expression leaves of a text, if it matches. -/
def recognize (g : Table ρ) : (fuel : Nat) → Expression ρ → List Char → Option (List Char)
  | 0, _, _ => none
  | fuel + 1, e, cs =>
    match e with
    | .one accepts => one? accepts cs
    | .text lit => literal? lit cs
    | .finish => if cs.isEmpty then some cs else none
    | .seq first second => (recognize g fuel first cs).bind (recognize g fuel second)
    | .alt first second => (recognize g fuel first cs).or (recognize g fuel second cs)
    | .many body =>
      match recognize g fuel body cs with
      | some rest =>
        if rest.length = cs.length then some cs else recognize g fuel (.many body) rest
      | none => some cs
    | .optional body => some ((recognize g fuel body cs).getD cs)
    | .absent body => if (recognize g fuel body cs).isSome then none else some cs
    | .rule name => recognize g fuel (g.body name) cs

/-! ## Places -/

/-- From place `p`, reading on leads to place `q`. -/
def Place.Reaches (p q : Place) : Prop :=
  ∃ read, p.rest = read ++ q.rest ∧ q.offset = p.offset + Text.byteLength read

namespace Place.Reaches

theorem refl (p : Place) : p.Reaches p :=
  ⟨[], rfl, rfl⟩

theorem trans {p q r : Place} (hpq : p.Reaches q) (hqr : q.Reaches r) : p.Reaches r := by
  obtain ⟨read, hrest, hoffset⟩ := hpq
  obtain ⟨read', hrest', hoffset'⟩ := hqr
  refine ⟨read ++ read', ?_, ?_⟩
  · rw [hrest, hrest', List.append_assoc]
  · rw [hoffset', hoffset, Text.byteLength_append, Nat.add_assoc]

theorem length_le {p q : Place} (h : p.Reaches q) : q.rest.length ≤ p.rest.length := by
  obtain ⟨read, hrest, -⟩ := h
  simp [hrest]

/-- Offsets and what is left of the text tell equally whether anything was read. -/
theorem offset_eq_iff {p q : Place} (h : p.Reaches q) :
    q.offset = p.offset ↔ q.rest.length = p.rest.length := by
  obtain ⟨read, hrest, hoffset⟩ := h
  rw [hrest, hoffset]
  cases read with
  | nil => simp
  | cons c read =>
    have hpos := c.utf8Size_pos
    simp only [Text.byteLength_cons, List.cons_append, List.length_cons, List.length_append]
    omega

end Place.Reaches

theorem reaches_after? {lit : List Char} {p q : Place} (h : p.after? lit = some q) :
    p.Reaches q := by
  induction lit generalizing p with
  | nil =>
    obtain rfl : p = q := by simpa [Place.after?] using h
    exact .refl p
  | cons l lit ih =>
    obtain ⟨offset, rest⟩ := p
    cases rest with
    | nil => simp [Place.after?] at h
    | cons c cs =>
      by_cases hc : l = c
      · rw [Place.after?, if_pos hc] at h
        exact Place.Reaches.trans ⟨[c], rfl, by simp⟩ (ih h)
      · simp [Place.after?, hc] at h

theorem rest_after? (lit : List Char) (p : Place) :
    (p.after? lit).map Place.rest = literal? lit p.rest := by
  induction lit generalizing p with
  | nil => rfl
  | cons l lit ih =>
    obtain ⟨offset, rest⟩ := p
    cases rest with
    | nil => rfl
    | cons c cs =>
      by_cases hc : l = c
      · simpa [Place.after?, literal?, hc] using ih ⟨offset + c.utf8Size, cs⟩
      · simp [Place.after?, literal?, hc]

/-! ## Passes -/

/-- Place `x`, if any, is reached from `p`, and what is left of the text there is `r`. -/
structure Leads (p : Place) (x : Option Place) (r : Option (List Char)) : Prop where
  rest : x.map Place.rest = r
  reaches : ∀ q ∈ x, p.Reaches q

namespace Leads

variable {p q : Place} {x : Option Place} {r : Option (List Char)}

theorem refl (p : Place) : Leads p (some p) (some p.rest) :=
  ⟨rfl, by simpa using .refl p⟩

theorem failed (p : Place) : Leads p none none :=
  ⟨rfl, by simp⟩

theorem of_reaches (hq : p.Reaches q) (h : Leads q x r) : Leads p x r :=
  ⟨h.rest, fun s hs => hq.trans (h.reaches s hs)⟩

theorem eq_none (h : Leads p none r) : r = none :=
  h.rest.symm

theorem eq_some (h : Leads p (some q) r) : r = some q.rest :=
  h.rest.symm

end Leads

/-- A pass gets as far as the text is recognized. -/
theorem leads_follow (g : Table ρ) (fuel : Nat) (quiet : Bool) (e : Expression ρ) (p : Place)
    (a : Attempts ρ) : Leads p (follow g fuel quiet e p a).1 (recognize g fuel e p.rest) := by
  induction fuel generalizing quiet e p a with
  | zero => exact .failed p
  | succ fuel ih =>
    cases e with
    | one accepts =>
      obtain ⟨offset, rest⟩ := p
      cases rest with
      | nil => exact .failed _
      | cons c cs =>
        by_cases hc : accepts c = true
        · simp only [follow, recognize, one?, hc, if_true]
          exact Leads.of_reaches ⟨[c], rfl, by simp⟩ (.refl _)
        · simp only [follow, recognize, one?, hc, if_false, Bool.false_eq_true]
          exact .failed _
    | text lit => exact ⟨rest_after? lit p, fun q hq => reaches_after? hq⟩
    | finish =>
      by_cases hrest : p.rest.isEmpty = true
      · simp only [follow, recognize, hrest, if_true]
        exact .refl p
      · simp only [follow, recognize, hrest, if_false, Bool.false_eq_true]
        exact .failed p
    | seq first second =>
      have hfirst := ih quiet first p a
      rcases hx : follow g fuel quiet first p a with ⟨_ | q, a'⟩
      · rw [hx] at hfirst
        simp only [follow, recognize, hx, hfirst.eq_none]
        exact .failed p
      · rw [hx] at hfirst
        simp only [follow, recognize, hx, hfirst.eq_some]
        exact (ih quiet second q a').of_reaches (hfirst.reaches q rfl)
    | alt first second =>
      have hfirst := ih quiet first p a
      rcases hx : follow g fuel quiet first p a with ⟨_ | q, a'⟩
      · rw [hx] at hfirst
        simp only [follow, recognize, hx, hfirst.eq_none, Option.none_or]
        exact ih quiet second p a'
      · rw [hx] at hfirst
        simp only [follow, recognize, hx, hfirst.eq_some, Option.some_or]
        exact (Leads.refl q).of_reaches (hfirst.reaches q rfl)
    | many body =>
      have hbody := ih quiet body p a
      rcases hx : follow g fuel quiet body p a with ⟨_ | q, a'⟩
      · rw [hx] at hbody
        simp only [follow, recognize, hx, hbody.eq_none]
        exact .refl p
      · rw [hx] at hbody
        have hq := hbody.reaches q rfl
        -- the only test of an offset, which recognition makes on the length of the text
        simp only [follow, recognize, hx, hbody.eq_some, hq.offset_eq_iff]
        split
        · exact .refl p
        · exact (ih quiet (.many body) q a').of_reaches hq
    | optional body =>
      have hbody := ih quiet body p a
      rcases hx : follow g fuel quiet body p a with ⟨_ | q, a'⟩
      · rw [hx] at hbody
        simp only [follow, recognize, hx, hbody.eq_none, Option.getD_none]
        exact .refl p
      · rw [hx] at hbody
        simp only [follow, recognize, hx, hbody.eq_some, Option.getD_some]
        exact (Leads.refl q).of_reaches (hbody.reaches q rfl)
    | absent body =>
      have hbody := ih quiet body p a
      rcases hx : follow g fuel quiet body p a with ⟨_ | q, a'⟩
      · rw [hx] at hbody
        simp only [follow, recognize, hx, hbody.eq_none]
        exact .refl p
      · rw [hx] at hbody
        simp only [follow, recognize, hx, hbody.eq_some]
        exact .failed p
    | rule name =>
      have hbody := ih (quiet || g.atomic name) (g.body name) p a
      rcases hx : follow g fuel (quiet || g.atomic name) (g.body name) p a with ⟨_ | q, a'⟩
      · rw [hx] at hbody
        simp only [follow, recognize, hx, hbody.eq_none]
        exact .failed p
      · rw [hx] at hbody
        simp only [follow, recognize, hx, hbody.eq_some]
        exact (Leads.refl q).of_reaches (hbody.reaches q rfl)

theorem length_recognize_le {g : Table ρ} {fuel : Nat} {e : Expression ρ} {cs rest : List Char}
    (h : recognize g fuel e cs = some rest) : rest.length ≤ cs.length := by
  have hleads := leads_follow g fuel false e ⟨0, cs⟩ .empty
  rw [h] at hleads
  obtain ⟨q, hq, rfl⟩ := Option.map_eq_some_iff.1 hleads.rest
  exact (hleads.reaches q hq).length_le

/-! ## What expressions compute -/

/-- With depth `size` and 64 for each character, `e` leaves of every text shorter than `bound` what
`f` says. -/
def Computes (g : Table ρ) (bound size : Nat) (e : Expression ρ)
    (f : List Char → Option (List Char)) : Prop :=
  ∀ cs fuel, cs.length < bound → size + 64 * cs.length ≤ fuel → recognize g fuel e cs = f cs

section Computes

variable {g : Table ρ} {bound : Nat}

theorem computes_one (accepts : Char → Bool) :
    Computes g bound 1 (.one accepts) (one? accepts) := by
  intro cs fuel _ hfuel
  obtain ⟨fuel, rfl⟩ : ∃ k, fuel = k + 1 := ⟨fuel - 1, by omega⟩
  rfl

theorem computes_text (lit : List Char) : Computes g bound 1 (.text lit) (literal? lit) := by
  intro cs fuel _ hfuel
  obtain ⟨fuel, rfl⟩ : ∃ k, fuel = k + 1 := ⟨fuel - 1, by omega⟩
  rfl

theorem computes_finish :
    Computes g bound 1 .finish fun cs => if cs.isEmpty then some cs else none := by
  intro cs fuel _ hfuel
  obtain ⟨fuel, rfl⟩ : ∃ k, fuel = k + 1 := ⟨fuel - 1, by omega⟩
  rfl

namespace Computes

variable {e e' : Expression ρ} {f f' : List Char → Option (List Char)} {size size' : Nat}

theorem mono (h : Computes g bound size e f) {bound' : Nat} (hbound : bound' ≤ bound)
    (hsize : size ≤ size') : Computes g bound' size' e f :=
  fun cs fuel hcs hfuel => h cs fuel (by omega) (by omega)

theorem congr (h : Computes g bound size e f) (hf : ∀ cs, cs.length < bound → f cs = f' cs) :
    Computes g bound size e f' :=
  fun cs fuel hcs hfuel => (h cs fuel hcs hfuel).trans (hf cs hcs)

theorem length_le (h : Computes g bound size e f) {cs rest : List Char} (hcs : cs.length < bound)
    (hf : f cs = some rest) : rest.length ≤ cs.length :=
  length_recognize_le ((h cs _ hcs (Nat.le_refl _)).trans hf)

theorem seq (h : Computes g bound size e f) (h' : Computes g bound size' e' f') :
    Computes g bound (max size size' + 1) (.seq e e') fun cs => (f cs).bind f' := by
  intro cs fuel hcs hfuel
  obtain ⟨fuel, rfl⟩ : ∃ k, fuel = k + 1 := ⟨fuel - 1, by omega⟩
  simp only [recognize, h cs fuel hcs (by omega)]
  cases hf : f cs with
  | none => rfl
  | some rest =>
    have hlength := h.length_le hcs hf
    exact h' rest fuel (by omega) (by omega)

/-- Where the first expression reads something, the second has 64 more to go down. -/
theorem seq_of_progress (h : Computes g (bound + 1) size e f)
    (hprogress : ∀ {cs rest}, f cs = some rest → rest.length < cs.length)
    (h' : Computes g bound size' e' f') :
    Computes g (bound + 1) (max size (size' - 63) + 1) (.seq e e') fun cs => (f cs).bind f' := by
  intro cs fuel hcs hfuel
  obtain ⟨fuel, rfl⟩ : ∃ k, fuel = k + 1 := ⟨fuel - 1, by omega⟩
  simp only [recognize, h cs fuel hcs (by omega)]
  cases hf : f cs with
  | none => rfl
  | some rest =>
    have hlength := hprogress hf
    exact h' rest fuel (by omega) (by omega)

theorem alt (h : Computes g bound size e f) (h' : Computes g bound size' e' f') :
    Computes g bound (max size size' + 1) (.alt e e') fun cs => (f cs).or (f' cs) := by
  intro cs fuel hcs hfuel
  obtain ⟨fuel, rfl⟩ : ∃ k, fuel = k + 1 := ⟨fuel - 1, by omega⟩
  simp only [recognize, h cs fuel hcs (by omega), h' cs fuel hcs (by omega)]

theorem optional (h : Computes g bound size e f) :
    Computes g bound (size + 1) (.optional e) fun cs => some ((f cs).getD cs) := by
  intro cs fuel hcs hfuel
  obtain ⟨fuel, rfl⟩ : ∃ k, fuel = k + 1 := ⟨fuel - 1, by omega⟩
  simp only [recognize, h cs fuel hcs (by omega)]

theorem absent (h : Computes g bound size e f) :
    Computes g bound (size + 1) (.absent e) fun cs => if (f cs).isSome then none else some cs := by
  intro cs fuel hcs hfuel
  obtain ⟨fuel, rfl⟩ : ∃ k, fuel = k + 1 := ⟨fuel - 1, by omega⟩
  simp only [recognize, h cs fuel hcs (by omega)]

theorem rule {name : ρ} (h : Computes g bound size (g.body name) f) :
    Computes g bound (size + 1) (.rule name) f := by
  intro cs fuel hcs hfuel
  obtain ⟨fuel, rfl⟩ : ∃ k, fuel = k + 1 := ⟨fuel - 1, by omega⟩
  exact h cs fuel hcs (by omega)

/-- A repetition goes on with what its body leaves of the text, as long as the body reads
something. -/
theorem many (h : Computes g bound size e f)
    (hprogress : ∀ {cs rest}, cs.length < bound → f cs = some rest → rest.length < cs.length)
    {last : List Char → List Char}
    (hstop : ∀ {cs}, cs.length < bound → f cs = none → last cs = cs)
    (hstep : ∀ {cs rest}, cs.length < bound → f cs = some rest → last cs = last rest) :
    Computes g bound (size + 1) (.many e) fun cs => some (last cs) := by
  intro cs fuel hcs hfuel
  -- each round costs one level and reads one character at least, which is worth 64 of them
  induction fuel generalizing cs with
  | zero => omega
  | succ fuel ih =>
    simp only [recognize, h cs fuel hcs (by omega)]
    cases hf : f cs with
    | none => rw [hstop hcs hf]
    | some rest =>
      have hlength := hprogress hcs hf
      simp only [Nat.ne_of_lt hlength, if_false]
      rw [ih rest (by omega) (by omega), hstep hcs hf]

end Computes
end Computes

end Grammar
end TimedAutomata
