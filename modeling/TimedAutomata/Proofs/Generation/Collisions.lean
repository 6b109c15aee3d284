import TimedAutomata.Proofs.Generation.Naming
import TimedAutomata.Proofs.Generation.Recovery

/-!
# Collisions between names

Two channels have one name only if their labels have underscores in different places. What is said
about a collision tells the two apart.

* `Route.name_inj`: labels without underscores can be read off the name of a channel
* `Owner.eq_of_describe_eq`: descriptions tell owners apart
* `collisions_eq_described`: a search that compares descriptions finds the same collisions
-/

namespace TimedAutomata

open Grammar

/-! ## Text before a separator -/

theorem Text.append_cons_inj {c : Char} {before before' after after' : List Char}
    (h : c ∉ before) (h' : c ∉ before') (heq : before ++ c :: after = before' ++ c :: after') :
    before = before' ∧ after = after' := by
  have hbefore : before = before' := by
    rw [← takeWhile_append_stop after h, heq, takeWhile_append_stop after' h']
  subst hbefore
  exact ⟨rfl, (List.cons.inj (List.append_cancel_left heq)).2⟩

/-- Labels without underscores can be read off the name of a channel. -/
theorem Route.name_inj {r s : Route}
    (hr : '_' ∉ r.sender.toList ∧ '_' ∉ r.receiver.toList)
    (hs : '_' ∉ s.sender.toList ∧ '_' ∉ s.receiver.toList) (h : r.name = s.name) : r = s := by
  have hchars : r.sender.toList ++ '_' :: (r.receiver.toList ++ '_' :: r.payload.toList) =
      s.sender.toList ++ '_' :: (s.receiver.toList ++ '_' :: s.payload.toList) := by
    simpa [Route.name] using congrArg String.toList h
  rcases Text.append_cons_inj hr.1 hs.1 hchars with ⟨hsender, hrest⟩
  rcases Text.append_cons_inj hr.2 hs.2 hrest with ⟨hreceiver, hpayload⟩
  cases r
  cases s
  rw [String.toList_inj] at hsender hreceiver hpayload
  subst hsender hreceiver hpayload
  rfl

namespace Generation

/-- Channels between automata without underscores in their labels do not collide. -/
theorem collisions_eq_nil_of_not_mem {p : Program} (hp : p.Analyzed)
    (h : ∀ r ∈ p.topology.routes, '_' ∉ r.sender.toList ∧ '_' ∉ r.receiver.toList) :
    collisions p = [] := by
  by_contra hne
  rcases (collisions_ne_nil_iff hp).1 hne with ⟨r, hr, s, hs, hrs, hname⟩
  exact hrs (Route.name_inj (h r hr) (h s hs) hname)

/-! ## Descriptions -/

/-- The names in the description of a channel are words. -/
def Owner.Written : Owner → Prop
  | .worker _ | .message _ => True
  | .channel r => r.Written

/-- Descriptions tell owners apart: no name of a channel holds a space. -/
theorem Owner.eq_of_describe_eq {o o' : Owner} (ho : o.Written) (ho' : o'.Written)
    (h : o.describe = o'.describe) : o = o' := by
  have hspace : isWordChar ' ' = false := by decide
  cases o with
  | worker l =>
    cases o' with
    | worker l' => simpa [Owner.describe] using h
    | message | channel => simpa [Owner.describe] using congrArg (·.toList.head?) h
  | message m =>
    cases o' with
    | message m' => simpa [Owner.describe] using h
    | worker | channel => simpa [Owner.describe] using congrArg (·.toList.head?) h
  | channel r =>
    cases o' with
    | worker | message => simpa [Owner.describe] using congrArg (·.toList.head?) h
    | channel s =>
      have hchars : r.sender.toList ++ ' ' :: ("-> ".toList ++
            (r.receiver.toList ++ ' ' :: (": ".toList ++ r.payload.toList))) =
          s.sender.toList ++ ' ' :: ("-> ".toList ++
            (s.receiver.toList ++ ' ' :: (": ".toList ++ s.payload.toList))) := by
        simpa [Owner.describe] using congrArg String.toList h
      -- the sender ends at the first space, and the receiver at the first one behind the arrow
      rcases Text.append_cons_inj (ho.sender.not_mem hspace) (ho'.sender.not_mem hspace) hchars
        with ⟨hsender, hrest⟩
      rcases Text.append_cons_inj (ho.receiver.not_mem hspace) (ho'.receiver.not_mem hspace)
        (List.append_cancel_left hrest) with ⟨hreceiver, hpayload⟩
      cases r
      cases s
      rw [String.toList_inj] at hsender hreceiver
      rw [List.append_cancel_left_eq, String.toList_inj] at hpayload
      subst hsender hreceiver hpayload
      rfl

theorem written_of_mem_owners {p : Program} (hp : p.Worded) {o : Owner} (ho : o ∈ owners p) :
    o.Written := by
  simp only [owners, List.mem_append, List.mem_map] at ho
  rcases ho with (⟨a, -, rfl⟩ | ⟨m, -, rfl⟩) | ⟨r, hr, rfl⟩
  · exact trivial
  · exact trivial
  · exact hp.routes r hr

/-- The search for collisions, when owners are compared by their descriptions. -/
def describedFrom (known : List Owner) : List Owner → List Collision
  | [] => []
  | o :: os =>
    match known.find? fun k => k.name == o.name with
    | none => describedFrom (known ++ [o]) os
    | some k =>
      if k.describe = o.describe then describedFrom known os else ⟨k, o⟩ :: describedFrom known os

theorem collisionsFrom_eq_described {known os : List Owner}
    (h : ∀ o ∈ known ++ os, o.Written) : collisionsFrom known os = describedFrom known os := by
  induction os generalizing known with
  | nil => rfl
  | cons o os ih =>
    have hrest : ∀ o' ∈ known ++ os, o'.Written := by
      intro o' ho'
      refine h o' ?_
      rcases List.mem_append.1 ho' with ho' | ho'
      · exact List.mem_append_left _ ho'
      · exact List.mem_append_right _ (List.mem_cons_of_mem o ho')
    unfold collisionsFrom describedFrom
    cases hfind : known.find? fun k => k.name == o.name with
    | none => exact ih (by simpa using h)
    | some k =>
      have hk : k.Written := h k (List.mem_append_left _ (List.mem_of_find?_eq_some hfind))
      have ho : o.Written := h o (by simp)
      have hsame : k.describe = o.describe ↔ k = o :=
        ⟨Owner.eq_of_describe_eq hk ho, congrArg Owner.describe⟩
      simp only [hsame, ih hrest]

/-- In a program whose names are words, descriptions serve as well as owners. -/
theorem collisions_eq_described {p : Program} (hp : p.Worded) :
    collisions p = describedFrom [] (owners p) :=
  collisionsFrom_eq_described fun _ ho => written_of_mem_owners hp ho

end Generation
end TimedAutomata
