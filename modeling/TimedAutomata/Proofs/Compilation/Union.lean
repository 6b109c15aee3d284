import Mathlib.Data.List.Nodup
import TimedAutomata.Proofs.Policy.Settlement

/-!
# Networks side by side

Two networks with different labels can be declared one after the other. A label then still stands
for the same automaton, at a position that is shifted by a constant; so each network keeps its
channels and its arbiters, under shifted numbers.

* `Network.Embeds`: the automata of a network stand one after another in a larger one
* `Network.Embeds.withLabel?`, `Policy.settled?_embed`: what is found by label in the part is found
  in the whole
* `Topology.channelOf?_embed`, `Policy.arbiter?_embed`: transitions keep their channels, and states
  their arbiters
* `Topology.resolve_append`: the channels of the second network follow those of the first
* `Policy.resolve_append`: the entries of both, in any order, give each state its arbiter
-/

namespace TimedAutomata

theorem eraseDups_append_of_disjoint {α : Type} [DecidableEq α] {as bs : List α}
    (h : as.Disjoint bs) : (as ++ bs).eraseDups = as.eraseDups ++ bs.eraseDups := by
  have hkeep : bs.removeAll as = bs := by
    apply List.filter_eq_self.2
    intro b hb
    simpa using fun ha => h ha hb
  rw [List.eraseDups_append, hkeep]

/-! ## Positions -/

/-- The same channel between automata that stand `n` places further on. -/
def Channel.shift (n : Nat) (ch : Channel) : Channel :=
  { ch with sender := n + ch.sender, receiver := n + ch.receiver }

/-- The same state of an automaton that stands `n` places further on. -/
def StateKey.shift (n : Nat) (k : StateKey) : StateKey :=
  (n + k.1, k.2)

theorem StateKey.shift_injective (n : Nat) : Function.Injective (shift n) := by
  rintro ⟨i, s⟩ ⟨j, t⟩ h
  simpa [shift] using h

namespace Network

/-- The automata of `net` stand in `whole` one after another, the first at position `n`, and
different automata of `whole` have different labels. -/
structure Embeds (whole : Network) (n : Nat) (net : Network) : Prop where
  part : net <+: whole.drop n
  labels : (whole.map Automaton.label).Nodup

theorem embeds_left {P Q : Network} (h : ((P ++ Q).map Automaton.label).Nodup) :
    (P ++ Q).Embeds 0 P :=
  ⟨List.prefix_append P Q, h⟩

theorem embeds_right {P Q : Network} (h : ((P ++ Q).map Automaton.label).Nodup) :
    (P ++ Q).Embeds P.length Q :=
  ⟨by rw [List.drop_left], h⟩

namespace Embeds

variable {whole net : Network} {n : Nat} (h : whole.Embeds n net)
include h

theorem nodup : (net.map Automaton.label).Nodup := by
  have hsub : net.Sublist whole := h.part.sublist.trans (List.drop_sublist n whole)
  exact h.labels.sublist (hsub.map Automaton.label)

theorem getElem? {i : AutomatonId} (hi : i < net.length) : whole[n + i]? = net[i]? := by
  rcases h.part with ⟨rest, hrest⟩
  rw [← List.getElem?_drop, ← hrest, List.getElem?_append_left hi]

theorem getElem?_eq_some {i : AutomatonId} {a : Automaton} (ha : net[i]? = some a) :
    whole[n + i]? = some a := by
  rw [h.getElem? (List.getElem?_eq_some_iff.1 ha).1, ha]

theorem withLabel? {label : String} {a : Automaton} {i : AutomatonId}
    (hfound : net.withLabel? label = some (a, i)) : whole.withLabel? label = some (a, n + i) := by
  rcases (withLabel?_eq_some_iff h.nodup).1 hfound with ⟨ha, hlabel⟩
  exact (withLabel?_eq_some_iff h.labels).2 ⟨h.getElem?_eq_some ha, hlabel⟩

theorem endpoint {a : Automaton} {i : AutomatonId} (ha : net[i]? = some a) :
    whole.endpoint a.label = n + net.endpoint a.label := by
  rw [endpoint_eq h.nodup ha, endpoint_eq h.labels (h.getElem?_eq_some ha)]

/-- A transition that has its counterpart in the part has it in the whole. -/
theorem isMatched {label : String} {c : Communication} (hmatched : net.isMatched label c = true) :
    whole.isMatched label c = true := by
  unfold Network.isMatched at hmatched ⊢
  cases hfound : net.withLabel? c.partner with
  | none => simp [hfound] at hmatched
  | some partner =>
    rcases partner with ⟨b, j⟩
    rw [hfound] at hmatched
    rw [h.withLabel? hfound]
    exact hmatched

theorem outgoing {k : StateKey} (hk : k.1 < net.length) :
    whole.outgoing (k.shift n) = net.outgoing k := by
  unfold Network.outgoing StateKey.shift
  rw [h.getElem? hk]

end Embeds

theorem unmatched_eq_nil_iff {net : Network} :
    net.unmatched = [] ↔
      ∀ a ∈ net, ∀ t ∈ a.transitions, net.isMatched a.label t.comm = true := by
  constructor
  · intro h a ha t ht
    exact isMatched_of_unmatched h ha ht
  · intro h
    simp only [unmatched, List.flatMap_eq_nil_iff, List.filterMap_eq_nil_iff]
    intro a ha t ht
    rw [h a ha t ht, if_pos rfl]

theorem routes_append (P Q : Network) : (P ++ Q).routes = P.routes ++ Q.routes :=
  List.flatMap_append

end Network

/-! ## Topologies -/

namespace Topology

theorem channels_of_resolve {net : Network} {t : Topology} (h : resolve net = .ok t) :
    t.channels = net.channels t.routes := by
  rw [routes_of_resolve h]
  rcases resolve_eq_ok_iff.1 h with ⟨-, rfl⟩
  rfl

section Embedded

variable {whole net : Network} {n m : Nat} {t u : Topology} (h : whole.Embeds n net)
  (ht : resolve whole = .ok t) (hu : resolve net = .ok u)
include h hu

/-- A channel of the part lies between automata of the part. -/
theorem channels_embed :
    whole.channels u.routes = u.channels.map (Channel.shift n) := by
  have hparty : ∀ r ∈ u.routes, ∀ d,
      whole.endpoint (r.party d) = n + net.endpoint (r.party d) := by
    intro r hr d
    rcases exists_transition_of_route hu h.nodup hr d with ⟨i, a, -, tr, ha, -, rfl, rfl⟩
    rw [Communication.party_route]
    exact h.endpoint ha
  rw [channels_of_resolve hu]
  simp only [Network.channels, List.map_map]
  apply List.map_congr_left
  intro r hr
  have hsender := hparty r hr .send
  have hreceiver := hparty r hr .receive
  simp only [Route.party] at hsender hreceiver
  simp [Channel.shift, hsender, hreceiver]

include ht

/-- Transitions of the part keep their channels, if the routes of the part keep theirs. -/
theorem channelOf?_embed
    (hroutes : ∀ c r, u.routes[c]? = some r → t.routes[m + c]? = some r) {i : AutomatonId}
    (hi : i < net.length) (tid : TransitionId) :
    t.channelOf? (n + i) tid = (u.channelOf? i tid).map (m + ·) := by
  have ha : net[i]? = some net[i] := List.getElem?_eq_getElem hi
  -- a transition is bound in both topologies, and what is not a transition in neither
  cases htr : net[i].transitions[tid]? with
  | none =>
    have hnone : u.channelOf? i tid = none := by
      rw [Option.eq_none_iff_forall_ne_some]
      intro c hc
      rcases (channelOf?_eq_some_iff hu).1 hc with ⟨b, tr, hb, hbtr, -⟩
      obtain rfl : net[i] = b := Option.some.inj (ha.symm.trans hb)
      simp [htr] at hbtr
    rw [hnone, Option.map_none, Option.eq_none_iff_forall_ne_some]
    intro c hc
    rcases (channelOf?_eq_some_iff ht).1 hc with ⟨b, tr, hb, hbtr, -⟩
    rw [h.getElem?_eq_some ha] at hb
    obtain rfl : net[i] = b := Option.some.inj hb
    simp [htr] at hbtr
  | some tr =>
    rcases (binds_of_resolve hu).bound ha htr with ⟨c, hc, hroute⟩
    rw [hc, Option.map_some]
    exact (channelOf?_eq_some_iff ht).2
      ⟨net[i], tr, h.getElem?_eq_some ha, htr, hroutes c _ hroute⟩

end Embedded

section Append

variable {P Q : Network} {tP tQ : Topology} (hlabels : ((P ++ Q).map Automaton.label).Nodup)
  (hP : resolve P = .ok tP) (hQ : resolve Q = .ok tQ)
include hlabels hP hQ

/-- No route belongs to both networks: its sender is in one of them only. -/
theorem disjoint_routes : P.routes.Disjoint Q.routes := by
  intro r hrP hrQ
  rw [← mem_routes_of_resolve hP] at hrP
  rw [← mem_routes_of_resolve hQ] at hrQ
  have hleft := Network.embeds_left hlabels
  have hright := Network.embeds_right hlabels
  rcases exists_transition_of_route hP hleft.nodup hrP .send with ⟨i, a, -, t, ha, -, hd, rfl⟩
  rcases exists_transition_of_route hQ hright.nodup hrQ .send with ⟨j, b, -, u, hb, -, hd', hr⟩
  -- the automata that send over the route have its sender as their label
  have hsame : a.label = b.label := by
    rw [← Communication.party_route t.comm a.label, ← Communication.party_route u.comm b.label, hr,
      hd, hd']
  have hij : 0 + i = P.length + j := Network.index_eq_of_label_eq hlabels
    (hleft.getElem?_eq_some ha) (hright.getElem?_eq_some hb) hsame
  have hge : P.length ≤ i := by
    rw [← Nat.zero_add i, hij]
    exact Nat.le_add_right _ _
  exact absurd (List.getElem?_eq_some_iff.1 ha).1 (Nat.not_lt.2 hge)

/-- Two networks that can be resolved can be resolved together. The channels are those of the
first and then those of the second, and transitions keep theirs. -/
theorem resolve_append : ∃ t, resolve (P ++ Q) = .ok t ∧
    t.channels = tP.channels ++ tQ.channels.map (Channel.shift P.length) ∧
    (∀ i < P.length, ∀ tid, t.channelOf? i tid = tP.channelOf? i tid) ∧
    (∀ j < Q.length, ∀ tid, t.channelOf? (P.length + j) tid =
      (tQ.channelOf? j tid).map (tP.channels.length + ·)) := by
  have hleft := Network.embeds_left hlabels
  have hright := Network.embeds_right hlabels
  have hunmatched : (P ++ Q).unmatched = [] := by
    rw [Network.unmatched_eq_nil_iff]
    intro a ha tr htr
    rcases List.mem_append.1 ha with ha | ha
    · exact hleft.isMatched (Network.isMatched_of_unmatched (resolve_eq_ok_iff.1 hP).1 ha htr)
    · exact hright.isMatched (Network.isMatched_of_unmatched (resolve_eq_ok_iff.1 hQ).1 ha htr)
  obtain ⟨t, ht⟩ : ∃ t, resolve (P ++ Q) = .ok t :=
    ⟨_, resolve_eq_ok_iff.2 ⟨hunmatched, rfl⟩⟩
  have hroutes : t.routes = tP.routes ++ tQ.routes := by
    rw [routes_of_resolve ht, Network.routes_append,
      eraseDups_append_of_disjoint (disjoint_routes hlabels hP hQ), routes_of_resolve hP,
      routes_of_resolve hQ]
  have hlength : tP.routes.length = tP.channels.length := List.length_map _
  refine ⟨t, ht, ?_, ?_, ?_⟩
  · have hzero : Channel.shift 0 = id := by
      funext ch
      simp [Channel.shift]
    have hsplit : (P ++ Q).channels (tP.routes ++ tQ.routes) =
        (P ++ Q).channels tP.routes ++ (P ++ Q).channels tQ.routes := List.map_append
    rw [channels_of_resolve ht, hroutes, hsplit, channels_embed hleft hP,
      channels_embed hright hQ, hzero, List.map_id]
  · intro i hi tid
    have hkeep : ∀ c r, tP.routes[c]? = some r → t.routes[0 + c]? = some r := by
      intro c r hr
      rw [hroutes, Nat.zero_add, List.getElem?_append_left (List.getElem?_eq_some_iff.1 hr).1, hr]
    simpa using channelOf?_embed hleft ht hP hkeep hi tid
  · intro j hj tid
    have hkeep : ∀ c r, tQ.routes[c]? = some r →
        t.routes[tP.channels.length + c]? = some r := by
      intro c r hr
      rw [hroutes, ← hlength, List.getElem?_append_right (Nat.le_add_right _ _),
        Nat.add_sub_cancel_left, hr]
    exact channelOf?_embed hright ht hQ hkeep hj tid

end Append
end Topology

/-! ## Policies -/

namespace Policy

/-- What an entry settles in the part it settles in the whole. -/
theorem settled?_embed {whole net : Network} {n : Nat} (h : whole.Embeds n net)
    {entry : ArbitrationEntry} {x : StateKey × Arbiter} (hx : settled? net entry = some x) :
    settled? whole entry = some (x.1.shift n, x.2) ∧ x.1.1 < net.length := by
  rcases settled?_eq_some_iff.1 hx with ⟨a, i, sid, hfound, hstate, hfaults, rfl⟩
  rcases (firstWithLabel?_eq_some_iff h.nodup).1 hfound with ⟨ha, hlabel⟩
  have hfound' : firstWithLabel? whole entry.automaton = some (a, n + i) :=
    (firstWithLabel?_eq_some_iff h.labels).2 ⟨h.getElem?_eq_some ha, hlabel⟩
  refine ⟨?_, (List.getElem?_eq_some_iff.1 ha).1⟩
  exact settled?_eq_some_iff.2 ⟨a, n + i, sid, hfound', hstate, hfaults, rfl⟩

/-- The same arbiters for states of automata that stand `n` places further on. -/
def moved (n : Nat) (xs : List (StateKey × Arbiter)) : List (StateKey × Arbiter) :=
  xs.map fun x => (x.1.shift n, x.2)

theorem map_fst_moved (n : Nat) (xs : List (StateKey × Arbiter)) :
    (moved n xs).map Prod.fst = (xs.map Prod.fst).map (StateKey.shift n) := by
  simp [moved, Function.comp_def]

theorem lookup_moved (n : Nat) (xs : List (StateKey × Arbiter)) (k : StateKey) :
    (moved n xs).lookup (k.shift n) = xs.lookup k :=
  lookup_map_key (StateKey.shift_injective n) xs k

section Embedded

variable {whole net : Network} {n : Nat} {entries : List ArbitrationEntry}
  {xs : List (StateKey × Arbiter)} (h : whole.Embeds n net) (hxs : Settles net entries xs)
include h hxs

theorem Settles.settled_moved :
    List.Forall₂ (fun entry x => settled? whole entry = some x) entries (moved n xs) := by
  rw [moved, List.forall₂_map_right_iff]
  exact hxs.settled.imp fun _ _ hx => (settled?_embed h hx).1

/-- The entries of a part settle states at positions of the part only. -/
theorem Settles.position_of_mem {k : StateKey} (hk : k ∈ (moved n xs).map Prod.fst) :
    n ≤ k.1 ∧ k.1 < n + net.length := by
  rw [map_fst_moved, List.mem_map] at hk
  rcases hk with ⟨l, hl, rfl⟩
  rcases List.mem_map.1 hl with ⟨x, hx, rfl⟩
  rcases Fallible.exists_of_mem_right hxs.settled hx with ⟨entry, -, hentry⟩
  have hlt := (settled?_embed h hentry).2
  exact ⟨Nat.le_add_right _ _, Nat.add_lt_add_left hlt n⟩

theorem Settles.covers_moved {k : StateKey} (hlt : k.1 < net.length)
    (hk : 2 ≤ (whole.outgoing (k.shift n)).length) :
    k.shift n ∈ (moved n xs).map Prod.fst := by
  rw [h.outgoing hlt] at hk
  rw [map_fst_moved]
  exact List.mem_map_of_mem (hxs.covers k hk)

/-- A state of a part keeps its arbiter in a policy that gives it the one of the part. -/
theorem arbiter?_embed {policy part : Policy} (hpart : resolve net entries = .ok part)
    {i : AutomatonId} (hi : i < net.length) (sid : StateId)
    (hpolicy : policy.arbiter? (n + i) sid =
      ((moved n xs).lookup (n + i, sid)).or (standard? whole (n + i, sid))) :
    policy.arbiter? (n + i) sid = part.arbiter? i sid := by
  have hlookup := lookup_moved n xs (i, sid)
  have houtgoing := h.outgoing (k := (i, sid)) hi
  simp only [StateKey.shift] at hlookup houtgoing
  rw [hpolicy, arbiter?_of_settles hxs hpart, hlookup, standard?, standard?, houtgoing]

end Embedded

section Append

variable {P Q : Network} {eP eQ : List ArbitrationEntry} {xP xQ : List (StateKey × Arbiter)}
  (hlabels : ((P ++ Q).map Automaton.label).Nodup)
include hlabels

theorem Settles.append (hP : Settles P eP xP) (hQ : Settles Q eQ xQ) :
    Settles (P ++ Q) (eP ++ eQ) (moved 0 xP ++ moved P.length xQ) := by
  have hleft := Network.embeds_left hlabels
  have hright := Network.embeds_right hlabels
  refine ⟨?_, ?_, ?_⟩
  · exact List.rel_append (hP.settled_moved hleft) (hQ.settled_moved hright)
  · rw [List.map_append, List.nodup_append]
    refine ⟨?_, ?_, ?_⟩
    · rw [map_fst_moved]
      exact List.Nodup.map (StateKey.shift_injective 0) hP.keys
    · rw [map_fst_moved]
      exact List.Nodup.map (StateKey.shift_injective P.length) hQ.keys
    · rintro k hkP _ hkQ rfl
      have hbelow : k.1 < P.length := by simpa using (hP.position_of_mem hleft hkP).2
      exact absurd hbelow (Nat.not_lt.2 (hQ.position_of_mem hright hkQ).1)
  · rintro ⟨i, sid⟩ hk
    rw [List.map_append, List.mem_append]
    by_cases hi : i < P.length
    · left
      have hzero : (i, sid) = StateKey.shift 0 (i, sid) := by simp [StateKey.shift]
      rw [hzero] at hk ⊢
      exact hP.covers_moved hleft hi hk
    · right
      -- what stands behind both networks has no transitions
      have hlt : i < (P ++ Q).length := by
        by_contra hge
        have hnone : (P ++ Q)[i]? = none := List.getElem?_eq_none (Nat.not_lt.1 hge)
        simp [Network.outgoing, hnone] at hk
      rw [List.length_append] at hlt
      have hsplit : (i, sid) = StateKey.shift P.length (i - P.length, sid) := by
        rw [StateKey.shift, Nat.add_sub_cancel' (Nat.not_lt.1 hi)]
      rw [hsplit] at hk ⊢
      exact hQ.covers_moved hright (Nat.sub_lt_left_of_lt_add (Nat.not_lt.1 hi) hlt) hk

/-- Two networks whose policies can be resolved have one together, with the entries of both in any
order, and it gives each state the arbiter that it has alone. -/
theorem resolve_append {πP πQ : Policy} (hP : resolve P eP = .ok πP) (hQ : resolve Q eQ = .ok πQ)
    {entries : List ArbitrationEntry} (hentries : entries.Perm (eP ++ eQ)) :
    ∃ π, resolve (P ++ Q) entries = .ok π ∧
      (∀ i < P.length, ∀ sid, π.arbiter? i sid = πP.arbiter? i sid) ∧
      (∀ j < Q.length, ∀ sid, π.arbiter? (P.length + j) sid = πQ.arbiter? j sid) := by
  have hleft := Network.embeds_left hlabels
  have hright := Network.embeds_right hlabels
  -- the entries of both settle the states of both, and their order does not matter
  rcases settles_of_resolve hP with ⟨xP, hxP⟩
  rcases settles_of_resolve hQ with ⟨xQ, hxQ⟩
  rcases (hxP.append hlabels hxQ).perm hentries with ⟨ys, hys, hperm⟩
  rcases resolve_of_settles hys with ⟨π, hπ⟩
  have harbiter : ∀ i sid, π.arbiter? i sid =
      (((moved 0 xP).lookup (i, sid)).or ((moved P.length xQ).lookup (i, sid))).or
        (standard? (P ++ Q) (i, sid)) := by
    intro i sid
    rw [arbiter?_of_settles hys hπ, lookup_perm hperm hys.keys, List.lookup_append]
  refine ⟨π, hπ, ?_, ?_⟩
  · intro i hi sid
    have habsent : (moved P.length xQ).lookup (0 + i, sid) = none := by
      apply lookup_eq_none_iff.2
      intro hmem
      have habove : P.length ≤ 0 + i := (hxQ.position_of_mem hright hmem).1
      omega
    have hpart := harbiter (0 + i) sid
    rw [habsent, Option.or_none] at hpart
    simpa using arbiter?_embed hleft hxP hP hi sid hpart
  · intro j hj sid
    have habsent : (moved 0 xP).lookup (P.length + j, sid) = none := by
      apply lookup_eq_none_iff.2
      intro hmem
      have hbelow : P.length + j < P.length := by
        simpa using (hxP.position_of_mem hleft hmem).2
      omega
    have hpart := harbiter (P.length + j) sid
    rw [habsent, Option.none_or] at hpart
    exact arbiter?_embed hright hxQ hQ hj sid hpart

end Append

end Policy
end TimedAutomata
