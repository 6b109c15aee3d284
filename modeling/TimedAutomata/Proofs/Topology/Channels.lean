import Mathlib.Data.List.Induction
import TimedAutomata.Network.Reader
import TimedAutomata.Proofs.Fallible
import TimedAutomata.Proofs.Topology.Binding

/-!
# The channels of a network

A network whose labels are different and whose topology can be resolved has one channel for each
route that its transitions take. Both ends of every channel are used, and each end is used by one
automaton only, whichever end was met first.

* `Sequence.pairwise_eraseDups`: first occurrences keep their order
* `Network.find?_label_eq_some_iff`: with different labels, a label stands for one automaton
* `Communication.route_eq_of_completedBy`: a transition and its counterpart take the same route
* `Topology.Realizes`: what the topology of a network has to be
* `Topology.realizes_of_resolve`: what resolution returns is that
-/

namespace TimedAutomata

/-! ## First occurrences -/

/-- First occurrences stand in the order in which the list first has them. -/
theorem Sequence.pairwise_eraseDups {α : Type} [BEq α] [LawfulBEq α] (as : List α) :
    as.eraseDups.Pairwise fun a b => as.idxOf a < as.idxOf b := by
  induction as using List.reverseRecOn with
  | nil => simp
  | append_singleton as b ih =>
    rw [eraseDups_concat]
    have hold : ∀ {a}, a ∈ as.eraseDups → (as ++ [b]).idxOf a = as.idxOf a :=
      fun ha => List.idxOf_append_of_mem (List.mem_eraseDups.1 ha)
    have hkeep : as.eraseDups.Pairwise fun x y => (as ++ [b]).idxOf x < (as ++ [b]).idxOf y := by
      refine ih.imp_of_mem fun {x y} hx hy hlt => ?_
      rwa [hold hx, hold hy]
    by_cases hb : b ∈ as
    · rwa [if_pos hb]
    · rw [if_neg hb]
      refine List.pairwise_append.2 ⟨hkeep, by simp, ?_⟩
      intro x hx y hy
      obtain rfl := List.mem_singleton.1 hy
      have hlt := List.idxOf_lt_length_of_mem (List.mem_eraseDups.1 hx)
      rw [hold hx, List.idxOf_append_of_notMem hb]
      exact Nat.lt_of_lt_of_le hlt (Nat.le_add_right _ _)

/-! ## Ends of a route -/

/-- The label of the automaton that sends, or receives. -/
def Route.party (r : Route) : Direction → String
  | .send => r.sender
  | .receive => r.receiver

/-- The automaton that sends, or receives. -/
def Channel.party (ch : Channel) : Direction → AutomatonId
  | .send => ch.sender
  | .receive => ch.receiver

namespace Communication

/-- A communication is performed at its own end of its route. -/
@[simp] theorem party_route (c : Communication) (label : String) :
    (c.route label).party c.direction = label := by
  unfold route
  cases h : c.direction <;> rfl

theorem completedBy_iff {c d : Communication} {label : String} :
    c.completedBy label d = true ↔
      d.direction = c.direction.opposite ∧ d.partner = label ∧ d.payload = c.payload := by
  have hdirection : d.direction ≠ c.direction ↔ d.direction = c.direction.opposite := by
    cases d.direction <;> cases c.direction <;> decide
  simp [completedBy, hdirection, and_assoc]

/-- Both sides of a communication take the same route. -/
theorem route_eq_of_completedBy {c d : Communication} {label : String}
    (h : c.completedBy label d = true) : d.route c.partner = c.route label := by
  rcases completedBy_iff.1 h with ⟨hdirection, hpartner, hpayload⟩
  unfold route
  rw [hdirection, hpartner, hpayload]
  cases c.direction <;> rfl

end Communication

/-! ## Automata by label -/

namespace Network

variable {net : Network}

/-- With different labels, a search for a label finds the automaton that has it, in whatever order
the automata are searched. -/
theorem find?_label_eq_some_iff (hlabels : (net.map Automaton.label).Nodup)
    {found : List (Automaton × AutomatonId)} (hfound : ∀ x, x ∈ found ↔ net[x.2]? = some x.1)
    {label : String} {a : Automaton} {aid : AutomatonId} :
    found.find? (fun x => x.1.label == label) = some (a, aid) ↔
      net[aid]? = some a ∧ a.label = label := by
  constructor
  · intro h
    exact ⟨(hfound (a, aid)).1 (List.mem_of_find?_eq_some h), by simpa using List.find?_some h⟩
  · rintro ⟨ha, hlabel⟩
    have hsome : (found.find? fun x => x.1.label == label).isSome = true := by
      rw [List.find?_isSome]
      exact ⟨(a, aid), (hfound (a, aid)).2 ha, by simp [hlabel]⟩
    rcases Option.isSome_iff_exists.1 hsome with ⟨⟨b, i⟩, hb⟩
    have hget : net[i]? = some b := (hfound (b, i)).1 (List.mem_of_find?_eq_some hb)
    have hb' : b.label = label := by simpa using List.find?_some hb
    -- the automaton that was found has the same label, so it is this one
    obtain rfl := index_eq_of_label_eq hlabels ha hget (hlabel.trans hb'.symm)
    obtain rfl : a = b := by simpa [ha] using hget
    exact hb

theorem withLabel?_eq_some_iff (hlabels : (net.map Automaton.label).Nodup) {label : String}
    {a : Automaton} {aid : AutomatonId} :
    net.withLabel? label = some (a, aid) ↔ net[aid]? = some a ∧ a.label = label := by
  apply find?_label_eq_some_iff hlabels
  intro x
  rw [List.mem_reverse]
  exact List.mk_mem_zipIdx_iff_getElem?

/-- The end of a channel is the automaton with its label. -/
theorem endpoint_eq (hlabels : (net.map Automaton.label).Nodup) {a : Automaton}
    {aid : AutomatonId} (ha : net[aid]? = some a) : net.endpoint a.label = aid := by
  have hfound := (withLabel?_eq_some_iff hlabels).2 ⟨ha, rfl⟩
  simp [endpoint, hfound]

/-- A matched transition has a counterpart at the other end of its route. -/
theorem exists_counterpart (hlabels : (net.map Automaton.label).Nodup) {label : String}
    {c : Communication} (h : net.isMatched label c = true) :
    ∃ (bid : AutomatonId) (b : Automaton) (uid : TransitionId) (u : Transition),
      net[bid]? = some b ∧ b.transitions[uid]? = some u ∧
      u.comm.direction = c.direction.opposite ∧ u.comm.route b.label = c.route label := by
  unfold isMatched at h
  cases hfound : net.withLabel? c.partner with
  | none => simp [hfound] at h
  | some partner =>
    rcases partner with ⟨b, bid⟩
    rcases (withLabel?_eq_some_iff hlabels).1 hfound with ⟨hb, hlabel⟩
    rw [hfound, List.any_eq_true] at h
    rcases h with ⟨u, hu, hcompleted⟩
    rcases List.getElem?_of_mem hu with ⟨uid, huid⟩
    refine ⟨bid, b, uid, u, hb, huid, (Communication.completedBy_iff.1 hcompleted).1, ?_⟩
    rw [hlabel]
    exact Communication.route_eq_of_completedBy hcompleted

end Network

/-! ## The topology of a network -/

namespace Topology

/-- A topology with one channel for each route of the network. -/
structure Realizes (t : Topology) (net : Network) : Prop where
  /-- The channels have the routes of the transitions. -/
  routes : ∀ r, r ∈ t.routes ↔ ∃ a ∈ net, ∃ tr ∈ a.transitions, tr.comm.route a.label = r
  /-- Each route has one channel, and channels stand in the order in which the transitions first
  take their routes. -/
  order : t.routes.Pairwise fun r s => net.routes.idxOf r < net.routes.idxOf s
  /-- Every transition is bound to a channel that has its route. -/
  bound : ∀ {aid a tid tr}, net[aid]? = some a → a.transitions[tid]? = some tr →
    ∃ c ch, t.channelOf? aid tid = some c ∧ t.channels[c]? = some ch ∧
      ch.route = tr.comm.route a.label
  /-- Nothing but transitions is bound. -/
  bound_only : ∀ {aid tid c}, t.channelOf? aid tid = some c →
    ∃ a tr, net[aid]? = some a ∧ a.transitions[tid]? = some tr
  /-- The automata at the ends of a channel have the labels of its route. -/
  ends : ∀ ch ∈ t.channels, ∀ d, ∃ a, net[ch.party d]? = some a ∧ a.label = ch.route.party d
  /-- Both ends of every channel are in use. -/
  used : ∀ {c ch}, t.channels[c]? = some ch → ∀ d, ∃ a tid tr, net[ch.party d]? = some a ∧
    a.transitions[tid]? = some tr ∧ tr.comm.direction = d ∧
    t.channelOf? (ch.party d) tid = some c
  /-- Each end of a channel is used by the automaton at that end only. -/
  owned : ∀ {aid a tid tr c ch}, net[aid]? = some a → a.transitions[tid]? = some tr →
    t.channelOf? aid tid = some c → t.channels[c]? = some ch → aid = ch.party tr.comm.direction
  /-- Looking up a route finds the one channel that has it. -/
  find_some : ∀ r c, t.find? r = some c ↔ ∃ ch, t.channels[c]? = some ch ∧ ch.route = r
  find_none : ∀ r, t.find? r = none ↔ ∀ ch ∈ t.channels, ch.route ≠ r

theorem getElem?_routes {t : Topology} {c : ChannelId} {r : Route} :
    t.routes[c]? = some r ↔ ∃ ch, t.channels[c]? = some ch ∧ ch.route = r := by
  simp [routes]

theorem find?_eq_some_iff {t : Topology} (hnodup : t.routes.Nodup) {r : Route} {c : ChannelId} :
    t.find? r = some c ↔ t.routes[c]? = some r := by
  unfold find?
  constructor
  · intro h
    rcases List.idxOf?_eq_some_iff.1 h with ⟨hlt, hget, -⟩
    rw [List.getElem?_eq_getElem hlt, hget]
  · intro h
    cases hfound : t.routes.idxOf? r with
    | none => exact absurd (List.mem_of_getElem? h) (List.idxOf?_eq_none_iff.1 hfound)
    | some i =>
      rcases List.idxOf?_eq_some_iff.1 hfound with ⟨hlt, hget, -⟩
      -- each route stands in one place only
      have hsame : t.routes[i]? = t.routes[c]? := by
        rw [h, List.getElem?_eq_getElem hlt, hget]
      rw [(List.getElem?_inj hlt hnodup).1 hsame]

theorem find?_eq_none_iff {t : Topology} {r : Route} :
    t.find? r = none ↔ ∀ ch ∈ t.channels, ch.route ≠ r := by
  simp [find?, List.idxOf?_eq_none_iff, routes]

section Resolved

variable {net : Network} {t : Topology} (h : resolve net = .ok t)
include h

variable (hlabels : (net.map Automaton.label).Nodup)
include hlabels

/-- Some transition takes the route, and so does its counterpart in the other direction. -/
theorem exists_transition_of_route {r : Route} (hr : r ∈ t.routes) (d : Direction) :
    ∃ (aid : AutomatonId) (a : Automaton) (tid : TransitionId) (tr : Transition),
      net[aid]? = some a ∧ a.transitions[tid]? = some tr ∧ tr.comm.direction = d ∧
      tr.comm.route a.label = r := by
  rw [mem_routes_of_resolve h, Network.mem_routes] at hr
  rcases hr with ⟨a, ha, tr, htr, rfl⟩
  by_cases hd : tr.comm.direction = d
  · rcases List.getElem?_of_mem ha with ⟨aid, haid⟩
    rcases List.getElem?_of_mem htr with ⟨tid, htid⟩
    exact ⟨aid, a, tid, tr, haid, htid, hd, rfl⟩
  · have hmatched := Network.isMatched_of_unmatched (resolve_eq_ok_iff.1 h).1 ha htr
    rcases Network.exists_counterpart hlabels hmatched with
      ⟨bid, b, uid, u, hb, hu, hopposite, hroute⟩
    have hother : tr.comm.direction.opposite = d := by
      cases d <;> cases htd : tr.comm.direction <;> simp_all [Direction.opposite]
    exact ⟨bid, b, uid, u, hb, hu, hopposite.trans hother, hroute⟩

/-- The ends of a channel are the automata with the labels of its route. -/
theorem party_eq_of_label {ch : Channel} (hch : ch ∈ t.channels) {d : Direction}
    {aid : AutomatonId} {a : Automaton} (ha : net[aid]? = some a)
    (hlabel : a.label = ch.route.party d) : ch.party d = aid := by
  have hparty : ch.party d = net.endpoint (ch.route.party d) := by
    rcases resolve_eq_ok_iff.1 h with ⟨-, rfl⟩
    rcases List.mem_map.1 hch with ⟨r, -, rfl⟩
    cases d <;> rfl
  rw [hparty, ← hlabel]
  exact Network.endpoint_eq hlabels ha

/-- Both ends of a channel are in use, by the automata that stand there. -/
theorem exists_use {c : ChannelId} {ch : Channel} (hch : t.channels[c]? = some ch)
    (d : Direction) :
    ∃ a tid tr, net[ch.party d]? = some a ∧ a.label = ch.route.party d ∧
      a.transitions[tid]? = some tr ∧ tr.comm.direction = d ∧
      t.channelOf? (ch.party d) tid = some c := by
  have hroute : t.routes[c]? = some ch.route := getElem?_routes.2 ⟨ch, hch, rfl⟩
  rcases exists_transition_of_route h hlabels (List.mem_of_getElem? hroute) d with
    ⟨aid, a, tid, tr, ha, htr, rfl, htake⟩
  have hlabel : a.label = ch.route.party tr.comm.direction := by simp [← htake]
  have hparty := party_eq_of_label h hlabels (List.mem_of_getElem? hch) ha hlabel
  rw [hparty]
  refine ⟨a, tid, tr, ha, hlabel, htr, rfl, ?_⟩
  exact (channelOf?_eq_some_iff h).2 ⟨a, tr, ha, htr, htake ▸ hroute⟩

end Resolved

/-- Resolution derives exactly the channels of the network. -/
theorem realizes_of_resolve {net : Network} {t : Topology}
    (hlabels : (net.map Automaton.label).Nodup) (h : resolve net = .ok t) : t.Realizes net where
  routes r := by rw [mem_routes_of_resolve h, Network.mem_routes]
  order := by
    rw [routes_of_resolve h]
    exact Sequence.pairwise_eraseDups net.routes
  bound ha htr := by
    rcases (binds_of_resolve h).bound ha htr with ⟨c, hc, hroute⟩
    rcases getElem?_routes.1 hroute with ⟨ch, hch, heq⟩
    exact ⟨c, ch, hc, hch, heq⟩
  bound_only hc := by
    rcases (channelOf?_eq_some_iff h).1 hc with ⟨a, tr, ha, htr, -⟩
    exact ⟨a, tr, ha, htr⟩
  ends ch hch d := by
    rcases List.getElem?_of_mem hch with ⟨c, hc⟩
    rcases exists_use h hlabels hc d with ⟨a, -, -, ha, hlabel, -⟩
    exact ⟨a, ha, hlabel⟩
  used hch d := by
    rcases exists_use h hlabels hch d with ⟨a, tid, tr, ha, -, htr, hd, hc⟩
    exact ⟨a, tid, tr, ha, htr, hd, hc⟩
  owned {aid a tid tr c ch} ha htr hc hch := by
    rcases (channelOf?_eq_some_iff h).1 hc with ⟨b, u, hb, hu, hroute⟩
    obtain rfl : a = b := by simpa [ha] using hb
    obtain rfl : tr = u := by simpa [htr] using hu
    have hch' : ch.route = tr.comm.route a.label := by
      simpa [routes, hch] using hroute
    have hlabel : a.label = ch.route.party tr.comm.direction := by simp [hch']
    exact (party_eq_of_label h hlabels (List.mem_of_getElem? hch) ha hlabel).symm
  find_some r c := by
    rw [find?_eq_some_iff (binds_of_resolve h).nodup, getElem?_routes]
  find_none r := find?_eq_none_iff

/-- An automaton that talks to itself, and a channel whose receiving end is met first. -/
theorem realizes_of_resolve_talking_to_itself :
    ∃ net t, Network.read
        "Cta A=Init s;s A?m()s;s B?n(x<3)s;s A!m()s;\nCta B=Init t;t A!n()t;t A!n(,\x7bx\x7d)t;" =
          .ok net ∧
      (net.map Automaton.label).Nodup ∧ resolve net = .ok t ∧
      t.channels = [⟨⟨"A", "A", "m"⟩, 0, 0⟩, ⟨⟨"B", "A", "n"⟩, 1, 0⟩] ∧ t.Realizes net := by
  rcases Fallible.exists_ok_of_any
    (x := Network.read
      "Cta A=Init s;s A?m()s;s B?n(x<3)s;s A!m()s;\nCta B=Init t;t A!n()t;t A!n(,\x7bx\x7d)t;")
    (P := fun net => (net.map Automaton.label).Nodup ∧
      (resolve net).toOption.any (fun t => decide
        (t.channels = [⟨⟨"A", "A", "m"⟩, 0, 0⟩, ⟨⟨"B", "A", "n"⟩, 1, 0⟩])) = true)
    (by decide +kernel) with ⟨net, hnet, hlabels, hresolve⟩
  rcases Fallible.exists_ok_of_any hresolve with ⟨t, ht, hchannels⟩
  exact ⟨net, t, hnet, hlabels, ht, hchannels, realizes_of_resolve hlabels ht⟩

end Topology
end TimedAutomata
