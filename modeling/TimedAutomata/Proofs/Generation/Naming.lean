import TimedAutomata.Generation.Names
import TimedAutomata.Proofs.Compilation.Analysis

/-!
# Names and namesakes

Names of workers, of message types and of channels start in different ways, labels are not
repeated, and neither are payloads and routes. So two things with one name are two channels.

* `namesakes`: the members of a list with the name of an earlier one
* `collisionsFrom_eq`: the search for collisions finds the namesakes
* `collisions_eq`: in an analysed program they are channels
* `route_eq_of_name_eq`: without collisions, a name stands for one channel
-/

namespace TimedAutomata
namespace Generation

/-! ## Namesakes -/

section Namesakes

variable {α : Type} (name : α → String)

/-- The first of those with the same name. -/
def named? (as : List α) (n : String) : Option α :=
  as.find? fun a => name a == n

/-- Each member of a list with the name of an earlier one, behind the first that has the name. -/
def namesakes (as : List α) : List (α × α) :=
  as.zipIdx.filterMap fun x => (named? name (as.take x.2) (name x.1)).map fun first => (first, x.1)

variable {name}

theorem named?_eq_none_iff {as : List α} {n : String} :
    named? name as n = none ↔ ∀ a ∈ as, name a ≠ n := by
  simp [named?]

theorem named?_append (as bs : List α) (n : String) :
    named? name (as ++ bs) n = (named? name as n).or (named? name bs n) :=
  List.find?_append

theorem name_of_named? {as : List α} {n : String} {a : α} (h : named? name as n = some a) :
    a ∈ as ∧ name a = n :=
  ⟨List.mem_of_find?_eq_some h, by simpa using List.find?_some h⟩

/-- Without namesakes the names are not repeated. -/
theorem namesakes_eq_nil_iff {as : List α} : namesakes name as = [] ↔ (as.map name).Nodup := by
  rw [namesakes, List.filterMap_eq_nil_iff, List.nodup_iff_getElem?_ne_getElem?]
  simp only [Option.map_eq_none_iff, named?_eq_none_iff]
  constructor
  · -- of two members with one name, the earlier one is found for the later one
    intro h i j hij hj heq
    rw [List.length_map] at hj
    have hi : i < as.length := hij.trans hj
    have hmem : (as[j], j) ∈ as.zipIdx :=
      List.mk_mem_zipIdx_iff_getElem?.2 (List.getElem?_eq_getElem hj)
    refine h _ hmem as[i] (List.mem_take_iff_getElem.2 ⟨i, by omega, rfl⟩) ?_
    simpa [hi, hj] using heq
  · -- what is found for the member at `j` stands at some `i` before it
    rintro h ⟨a, j⟩ hmem b hb hname
    have ha : as[j]? = some a := List.mk_mem_zipIdx_iff_getElem?.1 hmem
    rcases List.mem_take_iff_getElem.1 hb with ⟨i, hi, rfl⟩
    have hj := (List.getElem?_eq_some_iff.1 ha).1
    refine h i j (by omega) (by simpa using hj) ?_
    rw [List.getElem?_map, List.getElem?_map, ha, List.getElem?_eq_getElem (by omega)]
    simpa using hname

theorem namesakes_ne_nil_iff {as : List α} (h : as.Nodup) :
    namesakes name as ≠ [] ↔ ∃ a ∈ as, ∃ b ∈ as, a ≠ b ∧ name a = name b := by
  rw [Ne, namesakes_eq_nil_iff, List.nodup_map_iff_inj_on h]
  push Not
  constructor
  · rintro ⟨a, ha, b, hb, hname, hne⟩
    exact ⟨a, ha, b, hb, hne, hname⟩
  · rintro ⟨a, ha, b, hb, hne, hname⟩
    exact ⟨a, ha, b, hb, hname, hne⟩

/-- Members with names of their own are no namesakes of others. -/
theorem namesakes_append {as bs : List α} (has : (as.map name).Nodup)
    (hne : ∀ a ∈ as, ∀ b ∈ bs, name a ≠ name b) :
    namesakes name (as ++ bs) = namesakes name bs := by
  have hnone : ∀ n ∈ bs.map name, named? name as n = none := by
    rw [List.forall_mem_map]
    exact fun b hb => named?_eq_none_iff.2 fun a ha => hne a ha b hb
  rw [namesakes, List.zipIdx_append, List.filterMap_append]
  have hfirst : as.zipIdx.filterMap (fun x =>
      (named? name ((as ++ bs).take x.2) (name x.1)).map fun first => (first, x.1)) = [] := by
    rw [← namesakes_eq_nil_iff, namesakes, List.filterMap_eq_nil_iff] at has
    rw [List.filterMap_eq_nil_iff]
    rintro ⟨a, i⟩ hmem
    have hlt := (List.getElem?_eq_some_iff.1 (List.mk_mem_zipIdx_iff_getElem?.1 hmem)).1
    rw [List.take_append_of_le_length hlt.le]
    exact has _ hmem
  -- all of `as` stands before a member of `bs`, and is searched in vain
  rw [hfirst, List.nil_append, Nat.zero_add, List.zipIdx_eq_map_add, List.filterMap_map, namesakes]
  refine List.filterMap_congr ?_
  rintro ⟨b, i⟩ hmem
  have hb : name b ∈ bs.map name := List.mem_map_of_mem (List.fst_mem_of_mem_zipIdx hmem)
  simp [List.take_length_add_append, named?_append, hnone _ hb]

theorem namesakes_map {β : Type} (f : β → α) (bs : List β) :
    namesakes name (bs.map f) =
      (namesakes (name ∘ f) bs).map fun x => (f x.1, f x.2) := by
  simp [namesakes, named?, List.zipIdx_map, List.filterMap_map, List.map_filterMap,
    ← List.map_take, List.find?_map, Function.comp_def]

end Namesakes

/-! ## The search -/

/-- The search for collisions finds the namesakes. It need not keep all the owners that came
before: those it keeps are the first of their names. -/
theorem collisionsFrom_eq {known before os : List Owner}
    (hknown : ∀ n, named? Owner.name known n = named? Owner.name before n)
    (hnodup : (before ++ os).Nodup) :
    collisionsFrom known os = (os.zipIdx before.length).filterMap fun x =>
      (named? Owner.name ((before ++ os).take x.2) x.1.name).map fun first => ⟨first, x.1⟩ := by
  induction os generalizing known before with
  | nil => rfl
  | cons o os ih =>
    have hsplit : before ++ o :: os = (before ++ [o]) ++ os := by simp
    have hlength : before.length + 1 = (before ++ [o]).length := by simp
    have hhere : (before ++ o :: os).take before.length = before := List.take_left
    have hrest := fun known
        (hknown : ∀ n, named? Owner.name known n = named? Owner.name (before ++ [o]) n) =>
      ih hknown (hsplit ▸ hnodup)
    rw [List.zipIdx_cons, List.filterMap_cons, hhere, hsplit, hlength]
    have hfind := hknown o.name
    unfold collisionsFrom
    cases hfirst : named? Owner.name before o.name with
    | none =>
      rw [hfirst, named?] at hfind
      simp only [hfind, Option.map_none]
      -- the name is new, and `o` is kept as the first that has it
      apply hrest
      intro n
      rw [named?_append, named?_append, hknown]
    | some k =>
      rw [hfirst, named?] at hfind
      -- `k` came before, so it is not `o` again
      have hne : k ≠ o := by
        rintro rfl
        have hdisjoint := (List.nodup_append.1 hnodup).2.2
        exact hdisjoint k (name_of_named? hfirst).1 k List.mem_cons_self rfl
      simp only [hfind, if_neg hne, Option.map_some]
      congr 1
      -- `o` is not kept, but then `k` has its name already
      apply hrest
      intro n
      rw [hknown, named?_append]
      by_cases hn : o.name = n
      · rw [← hn, hfirst, Option.some_or]
      · have hsingle : named? Owner.name [o] n = none := by simpa [named?] using hn
        rw [hsingle, Option.or_none]

/-! ## Owners -/

theorem workerName_inj {l l' : String} : workerName l = workerName l' ↔ l = l' := by
  simp [workerName]

theorem payloadType_inj {m m' : String} : payloadType m = payloadType m' ↔ m = m' := by
  simp [payloadType]

/-- Owners of different kinds have different names. -/
theorem Owner.name_ne (l m : String) (r : Route) :
    workerName l ≠ payloadType m ∧ workerName l ≠ r.name ∧ payloadType m ≠ r.name := by
  refine ⟨fun h => ?_, fun h => ?_, fun h => ?_⟩ <;>
    simpa [workerName, payloadType, Route.name] using congrArg (·.toList.head?) h

section Owners

variable {p : Program} (hp : p.Analyzed)

include hp

theorem nodup_workerNames : (p.network.map fun a => workerName a.label).Nodup := by
  have hnames : p.network.map (fun a => workerName a.label) =
      (p.network.map Automaton.label).map workerName := by
    rw [List.map_map]
    rfl
  rw [hnames]
  exact hp.labels.map fun _ _ => workerName_inj.1

omit hp in
theorem nodup_payloadTypes (t : Topology) : (t.payloads.map payloadType).Nodup :=
  (Sequence.nodup_eraseDups _).map fun _ _ => payloadType_inj.1

theorem nodup_owners : (owners p).Nodup := by
  have hworkers : (p.network.map fun a => Owner.worker a.label).Nodup := by
    apply List.Nodup.of_map Owner.name
    simpa [Function.comp_def, Owner.name] using nodup_workerNames hp
  have hmessages : (p.topology.payloads.map Owner.message).Nodup := by
    apply List.Nodup.of_map Owner.name
    simpa [Function.comp_def, Owner.name] using nodup_payloadTypes p.topology
  have hchannels : (p.topology.routes.map Owner.channel).Nodup :=
    hp.binds.nodup.map fun _ _ => Owner.channel.inj
  refine List.nodup_append.2 ⟨List.nodup_append.2 ⟨hworkers, hmessages, ?_⟩, hchannels, ?_⟩
  · simp
  · simp [or_imp, forall_and]

/-- The collisions of an analysed program are between channels: those with the name of an earlier
one, in order, each with the first that has the name. -/
theorem collisions_eq : collisions p =
    (namesakes Route.name p.topology.routes).map fun x => ⟨.channel x.1, .channel x.2⟩ := by
  have hsearch : collisions p = (namesakes Owner.name (owners p)).map fun x => ⟨x.1, x.2⟩ := by
    have hnodup : ([] ++ owners p).Nodup := nodup_owners hp
    rw [collisions, collisionsFrom_eq (fun _ => rfl) hnodup, namesakes, List.map_filterMap]
    simp [Function.comp_def]
  -- workers and messages stand before the channels, and have names of their own
  have hchannels : namesakes Owner.name (owners p) =
      namesakes Owner.name (p.topology.routes.map Owner.channel) := by
    rw [owners, List.append_assoc, namesakes_append, namesakes_append]
    · simpa [Function.comp_def, Owner.name] using nodup_payloadTypes p.topology
    · simp only [List.forall_mem_map]
      exact fun m _ r _ => (Owner.name_ne "" m r).2.2
    · simpa [Function.comp_def, Owner.name] using nodup_workerNames hp
    · simp only [List.forall_mem_append, List.forall_mem_map]
      exact fun a _ => ⟨fun m _ => (Owner.name_ne a.label m default).1,
        fun r _ => (Owner.name_ne a.label "" r).2.1⟩
  rw [hsearch, hchannels, namesakes_map, List.map_map]
  rfl

theorem collisions_ne_nil_iff : collisions p ≠ [] ↔
    ∃ r ∈ p.topology.routes, ∃ s ∈ p.topology.routes, r ≠ s ∧ r.name = s.name := by
  rw [collisions_eq hp, Ne, List.map_eq_nil_iff]
  exact namesakes_ne_nil_iff hp.binds.nodup

/-- Without collisions the name of a channel stands for one channel. -/
theorem route_eq_of_name_eq (h : collisions p = []) {r s : Route} (hr : r ∈ p.topology.routes)
    (hs : s ∈ p.topology.routes) (hname : r.name = s.name) : r = s := by
  by_contra hne
  exact (collisions_ne_nil_iff hp).2 ⟨r, hr, s, hs, hne, hname⟩ h

end Owners

end Generation
end TimedAutomata
