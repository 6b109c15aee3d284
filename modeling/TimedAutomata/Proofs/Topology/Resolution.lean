import Mathlib.Data.List.Nodup
import TimedAutomata.Proofs.Lookup
import TimedAutomata.Topology.Resolver

/-!
# What resolution finds

The resolver goes through the transitions of a network one by one and keeps, beside the channels
found so far, an index of their routes. After any number of transitions the channels are those of
the routes taken so far, each once, in the order in which they were first taken; the index leads
from a route to its channel; and every transition is bound to the channel of its route, though
others have been opened since.

* `Network.Use`, `Network.uses`: the transitions of a network, with their positions
* `Resolver.Covers`: what holds after a part of the transitions
* `Resolver.Covers.addTransition`, `Resolver.covers_run`: one transition, and all of them
* `Network.unmatched`, `Network.resolved`: what is found in the end
* `Topology.resolve_eq`: resolution returns it
-/

namespace TimedAutomata

/-! ## Transitions of a network -/

namespace Network

/-- A transition of a network and its automaton, with their positions. -/
structure Use where
  automaton : Automaton
  aid : AutomatonId
  transition : Transition
  tid : TransitionId

namespace Use

def route (u : Use) : Route :=
  u.transition.comm.route u.automaton.label

def isMatched (net : Network) (u : Use) : Bool :=
  net.isMatched u.automaton.label u.transition.comm

end Use

/-- The transitions of an automaton, in order. -/
def usesOf (a : Automaton × AutomatonId) : List Use :=
  a.1.transitions.zipIdx.map fun t => ⟨a.1, a.2, t.1, t.2⟩

/-- The transitions of a network, in order. -/
def uses (net : Network) : List Use :=
  net.zipIdx.flatMap usesOf

theorem mem_uses {net : Network} {u : Use} :
    u ∈ net.uses ↔ net[u.aid]? = some u.automaton ∧
      u.automaton.transitions[u.tid]? = some u.transition := by
  simp only [uses, usesOf, List.mem_flatMap, List.mem_map, Prod.exists]
  constructor
  · rintro ⟨a, aid, ha, t, tid, ht, rfl⟩
    exact ⟨List.mk_mem_zipIdx_iff_getElem?.1 ha, List.mk_mem_zipIdx_iff_getElem?.1 ht⟩
  · rintro ⟨ha, ht⟩
    exact ⟨_, _, List.mk_mem_zipIdx_iff_getElem?.2 ha, _, _,
      List.mk_mem_zipIdx_iff_getElem?.2 ht, rfl⟩

/-- No two transitions have the same positions. -/
theorem nodup_keys (net : Network) :
    (net.uses.map fun u => (u.aid, u.tid)).Nodup := by
  have hkeys : (net.uses.map fun u => (u.aid, u.tid)) = net.zipIdx.flatMap fun a =>
      (a.1.transitions.zipIdx.map Prod.snd).map fun tid => (a.2, tid) := by
    simp only [uses, usesOf, List.map_flatMap, List.map_map]
    rfl
  rw [hkeys, List.nodup_flatMap]
  constructor
  · intro a _
    rw [List.zipIdx_map_snd]
    exact List.Nodup.map (fun _ _ h => (Prod.mk.inj h).2) List.nodup_range'
  · have hids : (net.zipIdx.map Prod.snd).Nodup := by
      rw [List.zipIdx_map_snd]
      exact List.nodup_range'
    refine (List.pairwise_map.1 hids).imp ?_
    intro a b hne key ha hb
    rcases List.mem_map.1 ha with ⟨_, -, rfl⟩
    rcases List.mem_map.1 hb with ⟨_, -, heq⟩
    exact hne (Prod.mk.inj heq).1.symm

theorem flatMap_zipIdx_fst {α β : Type} (as : List α) (f : α → List β) :
    (as.zipIdx.flatMap fun x => f x.1) = as.flatMap f := by
  conv_rhs => rw [← List.zipIdx_map_fst 0 as, List.flatMap_map]

/-- What is found in all transitions, whatever their positions. -/
theorem flatMap_uses {β : Type} (net : Network) (f : Automaton → Transition → List β) :
    (net.uses.flatMap fun u => f u.automaton u.transition) =
      net.flatMap fun a => a.transitions.flatMap (f a) := by
  simp only [uses, usesOf, List.flatMap_assoc, List.flatMap_map]
  rw [← flatMap_zipIdx_fst net]
  exact List.flatMap_congr fun a _ => flatMap_zipIdx_fst a.1.transitions (f a.1)

/-! ## Channels -/

/-- The routes of all transitions, in order of declaration. -/
def routes (net : Network) : List Route :=
  net.flatMap fun a => a.transitions.map fun t => t.comm.route a.label

/-- The channels of the given routes. -/
def channels (net : Network) (routes : List Route) : List Channel :=
  routes.map fun r => ⟨r, net.endpoint r.sender, net.endpoint r.receiver⟩

/-- Each transition with the position of its route. -/
def bindings (net : Network) (routes : List Route) :
    List ((AutomatonId × TransitionId) × ChannelId) :=
  net.uses.map fun u => ((u.aid, u.tid), routes.idxOf u.route)

/-- The topology of a network whose transitions all have counterparts. -/
def resolved (net : Network) : Topology where
  channels := net.channels net.routes.eraseDups
  bindings := net.bindings net.routes.eraseDups
  warnings := net.flatMap Automaton.ambiguities

/-- What is reported about a transition without a counterpart. -/
def report (net : Network) (x : Automaton × Transition) : Unmatched :=
  ⟨x.1.label, x.1.stateName x.2.start, x.2.comm, (net.withLabel? x.2.comm.partner).isSome, x.2.span⟩

/-- The transitions of a network without a counterpart, in order of declaration. -/
def unmatched (net : Network) : List Unmatched :=
  net.flatMap fun a => a.transitions.filterMap fun t =>
    if net.isMatched a.label t.comm then none else some (net.report (a, t))

theorem routes_channels (net : Network) (routes : List Route) :
    (net.channels routes).map Channel.route = routes := by
  simp [channels, Function.comp_def]

theorem map_route_uses (net : Network) : net.uses.map Use.route = net.routes := by
  have hone := net.flatMap_uses fun a t => [t.comm.route a.label]
  simp only [← List.map_eq_flatMap] at hone
  exact hone

theorem isMatched_of_unmatched {net : Network} (h : net.unmatched = []) {a : Automaton}
    (ha : a ∈ net) {t : Transition} (ht : t ∈ a.transitions) :
    net.isMatched a.label t.comm = true := by
  simp only [unmatched, List.flatMap_eq_nil_iff, List.filterMap_eq_nil_iff] at h
  have hnone := h a ha t ht
  by_contra hmatched
  simp [hmatched] at hnone

end Network

namespace Resolver

open Network (Use)

variable {net : Network} {done : List Use} {warnings : List Ambiguity} {r : Resolver}

/-- The routes that matched transitions have taken, each once, in order. -/
def taken (net : Network) (done : List Use) : List Route :=
  ((done.filter (Use.isMatched net)).map Use.route).eraseDups

theorem taken_concat (net : Network) (done : List Use) (u : Use) :
    taken net (done ++ [u]) =
      if u.isMatched net = true ∧ u.route ∉ taken net done then taken net done ++ [u.route]
      else taken net done := by
  unfold taken
  by_cases hmatched : u.isMatched net = true
  · rw [List.filter_append, List.filter_cons_of_pos hmatched, List.filter_nil, List.map_append,
      List.map_singleton, Sequence.eraseDups_concat]
    by_cases hmem : u.route ∈ (done.filter (Use.isMatched net)).map Use.route
    · rw [if_pos hmem, if_neg fun hnew => hnew.2 (List.mem_eraseDups.2 hmem)]
    · rw [if_neg hmem, if_pos ⟨hmatched, fun hold => hmem (List.mem_eraseDups.1 hold)⟩]
  · rw [List.filter_append, List.filter_cons_of_neg hmatched, List.filter_nil, List.append_nil,
      if_neg (fun h => hmatched h.1)]

theorem route_mem_taken {u : Use} (hu : u ∈ done) (hmatched : u.isMatched net = true) :
    u.route ∈ taken net done :=
  List.mem_eraseDups.2 (List.mem_map_of_mem (List.mem_filter.2 ⟨hu, hmatched⟩))

/-- What holds when the transitions `done` have been gone through, with some warnings. -/
structure Covers (net : Network) (done : List Use) (warnings : List Ambiguity) (r : Resolver) :
    Prop where
  index : r.index = r.topology.routes.zipIdx
  channels : r.topology.channels = net.channels (taken net done)
  bindings : r.topology.bindings = (done.filter (Use.isMatched net)).map fun u =>
    ((u.aid, u.tid), (taken net done).idxOf u.route)
  unmatched : r.unmatched = (done.filter fun u => !u.isMatched net).map fun u =>
    net.report (u.automaton, u.transition)
  warnings : r.topology.warnings = warnings

theorem covers_empty (net : Network) : Covers net [] [] empty := by
  constructor <;> rfl

/-- The index finds the channel of a route, if the route has been taken. -/
theorem Covers.lookup_index (h : Covers net done warnings r) (route : Route) :
    r.index.lookup route = (taken net done).idxOf? route := by
  rw [h.index, lookup_zipIdx, Topology.routes, h.channels, Network.routes_channels]
  simp

/-! ## One transition -/

/-- A transition with a counterpart is bound to the channel of its route. -/
theorem addTransition_of_matched (u : Use) (hmatched : u.isMatched net = true) :
    ∃ text, addTransition net u.automaton u.aid r (u.transition, u.tid) =
      (((r.channel net u.route).1.log .debug text).bind u.aid u.tid
        (r.channel net u.route).2) := by
  have hmatched : net.isMatched u.automaton.label u.transition.comm = true := hmatched
  simp only [addTransition, if_pos hmatched]
  exact ⟨_, rfl⟩

theorem addTransition_of_unmatched (u : Use) (hunmatched : u.isMatched net = false) :
    addTransition net u.automaton u.aid r (u.transition, u.tid) =
      { r with unmatched := r.unmatched ++ [net.report (u.automaton, u.transition)] } := by
  have hunmatched : net.isMatched u.automaton.label u.transition.comm = false := hunmatched
  simp only [addTransition, hunmatched, Bool.false_eq_true, if_false]
  rfl

/-- Earlier transitions keep their channels when a new route is taken. -/
theorem map_bindings_concat (net : Network) (done : List Use) (route : Route) :
    ((done.filter (Use.isMatched net)).map fun u =>
      ((u.aid, u.tid), (taken net done ++ [route]).idxOf u.route)) =
    (done.filter (Use.isMatched net)).map fun u =>
      ((u.aid, u.tid), (taken net done).idxOf u.route) := by
  apply List.map_congr_left
  intro v hv
  rcases List.mem_filter.1 hv with ⟨hdone, hmatched⟩
  rw [List.idxOf_append_of_mem (route_mem_taken hdone hmatched)]

section Matched

variable (h : Covers net done warnings r) {u : Use} (hmatched : u.isMatched net = true)
include h hmatched

/-- A route that has been taken before has its channel. -/
theorem Covers.addTransition_of_lookup {id : ChannelId}
    (hlookup : r.index.lookup u.route = some id) :
    Covers net (done ++ [u]) warnings
      (addTransition net u.automaton u.aid r (u.transition, u.tid)) := by
  rcases addTransition_of_matched (r := r) u hmatched with ⟨text, heq⟩
  have hchannel : r.channel net u.route = (r, id) := by rw [channel, hlookup]
  rw [h.lookup_index] at hlookup
  have hmem : u.route ∈ taken net done := List.isSome_idxOf?.1 (by rw [hlookup]; rfl)
  have htaken : taken net (done ++ [u]) = taken net done := by simp [taken_concat, hmem]
  have hid : (taken net done).idxOf u.route = id := by
    rw [List.idxOf_eq_getD_idxOf?, hlookup, Option.getD_some]
  rw [heq, hchannel]
  refine ⟨h.index, ?_, ?_, ?_, h.warnings⟩
  · rw [htaken]
    exact h.channels
  · simp [bind, log, htaken, h.bindings, hmatched, hid]
  · simpa [bind, log, hmatched] using h.unmatched

/-- For a new route a channel is opened behind the others. -/
theorem Covers.addTransition_of_new (hlookup : r.index.lookup u.route = none) :
    Covers net (done ++ [u]) warnings
      (addTransition net u.automaton u.aid r (u.transition, u.tid)) := by
  rcases addTransition_of_matched (r := r) u hmatched with ⟨text, heq⟩
  have hchannel : ∃ report, r.channel net u.route =
      ((r.openChannel net u.route).log .info report, r.topology.channels.length) := by
    rw [channel, hlookup]
    exact ⟨_, rfl⟩
  rcases hchannel with ⟨report, hchannel⟩
  rw [h.lookup_index, List.idxOf?_eq_none_iff] at hlookup
  have htaken : taken net (done ++ [u]) = taken net done ++ [u.route] := by
    simp [taken_concat, hlookup, hmatched]
  have hlength : r.topology.channels.length = (taken net done).length := by
    rw [h.channels, Network.channels, List.length_map]
  have hnew : (taken net done ++ [u.route]).idxOf u.route = (taken net done).length := by
    simp [List.idxOf_append_of_notMem hlookup]
  rw [heq, hchannel]
  refine ⟨?_, ?_, ?_, ?_, h.warnings⟩
  · simp [bind, log, openChannel, Topology.routes, h.index, List.zipIdx_append]
  · simp [bind, log, openChannel, htaken, h.channels, Network.channels]
  · rw [htaken, List.filter_append, List.map_append, map_bindings_concat]
    simp [bind, log, openChannel, h.bindings, hmatched, hnew, hlength]
  · simpa [bind, log, openChannel, hmatched] using h.unmatched

end Matched

theorem Covers.addTransition (h : Covers net done warnings r) (u : Use) :
    Covers net (done ++ [u]) warnings
      (addTransition net u.automaton u.aid r (u.transition, u.tid)) := by
  cases hmatched : u.isMatched net with
  | false =>
    rw [addTransition_of_unmatched u hmatched]
    have htaken : taken net (done ++ [u]) = taken net done := by simp [taken_concat, hmatched]
    refine ⟨h.index, ?_, ?_, ?_, h.warnings⟩
    · rw [htaken, h.channels]
    · simp [htaken, h.bindings, hmatched]
    · simp [h.unmatched, hmatched]
  | true =>
    cases hlookup : r.index.lookup u.route with
    | some id => exact h.addTransition_of_lookup hmatched hlookup
    | none => exact h.addTransition_of_new hmatched hlookup

/-! ## All transitions -/

theorem Covers.warn (h : Covers net done warnings r) (w : Ambiguity) :
    Covers net done (warnings ++ [w]) (r.warn w) :=
  ⟨h.index, h.channels, h.bindings, h.unmatched, by simp [Resolver.warn, h.warnings]⟩

theorem covers_foldl_warn (h : Covers net done warnings r) (ws : List Ambiguity) :
    Covers net done (warnings ++ ws) (ws.foldl Resolver.warn r) := by
  induction ws generalizing r warnings with
  | nil => simpa using h
  | cons w ws ih => simpa using ih (h.warn w)

theorem covers_foldl_addTransition (h : Covers net done warnings r) (a : Automaton)
    (aid : AutomatonId) (ts : List (Transition × TransitionId)) :
    Covers net (done ++ ts.map fun t => ⟨a, aid, t.1, t.2⟩) warnings
      (ts.foldl (Resolver.addTransition net a aid) r) := by
  induction ts generalizing r done with
  | nil => simpa using h
  | cons t ts ih => simpa using ih (h.addTransition ⟨a, aid, t.1, t.2⟩)

theorem Covers.addAutomaton (h : Covers net done warnings r) (a : Automaton × AutomatonId) :
    Covers net (done ++ Network.usesOf a) (warnings ++ a.1.ambiguities) (addAutomaton net r a) :=
  covers_foldl_warn (covers_foldl_addTransition h a.1 a.2 _) _

theorem covers_foldl_addAutomaton (h : Covers net done warnings r)
    (as : List (Automaton × AutomatonId)) :
    Covers net (done ++ as.flatMap Network.usesOf)
      (warnings ++ as.flatMap fun a => a.1.ambiguities)
      (as.foldl (Resolver.addAutomaton net) r) := by
  induction as generalizing r done warnings with
  | nil => simpa using h
  | cons a as ih => simpa using ih (h.addAutomaton a)

/-- In the end all transitions and all warnings have been gone through. -/
theorem covers_run (net : Network) :
    Covers net net.uses (net.flatMap Automaton.ambiguities) (run net) := by
  have hrun := covers_foldl_addAutomaton (covers_empty net) net.zipIdx
  rwa [List.nil_append, List.nil_append, Network.flatMap_zipIdx_fst] at hrun

/-! ## The outcome -/

theorem unmatched_run (net : Network) : (run net).unmatched = net.unmatched := by
  have hlist : ∀ us : List Use,
      ((us.filter fun u => !u.isMatched net).map fun u => net.report (u.automaton, u.transition)) =
        us.flatMap fun u => if net.isMatched u.automaton.label u.transition.comm then []
          else [net.report (u.automaton, u.transition)] := by
    intro us
    induction us with
    | nil => rfl
    | cons u us ih =>
      rw [List.flatMap_cons, ← ih]
      by_cases h : net.isMatched u.automaton.label u.transition.comm = true <;>
        simp [Use.isMatched, h]
  rw [(covers_run net).unmatched, hlist, net.flatMap_uses fun a t =>
    if net.isMatched a.label t.comm then [] else [net.report (a, t)], Network.unmatched]
  refine List.flatMap_congr fun a _ => ?_
  rw [List.filterMap_eq_flatMap_toList]
  refine List.flatMap_congr fun t _ => ?_
  split <;> rfl

theorem topology_run (h : net.unmatched = []) : (run net).topology = net.resolved := by
  have hrun := covers_run net
  have hmatched : net.uses.filter (Use.isMatched net) = net.uses := by
    apply List.filter_eq_self.2
    intro u hu
    rcases Network.mem_uses.1 hu with ⟨ha, ht⟩
    exact net.isMatched_of_unmatched h (List.mem_of_getElem? ha) (List.mem_of_getElem? ht)
  have htaken : taken net net.uses = net.routes.eraseDups := by
    rw [taken, hmatched, net.map_route_uses]
  have hchannels := hrun.channels
  have hbindings := hrun.bindings
  rw [htaken] at hchannels hbindings
  rw [hmatched] at hbindings
  calc (run net).topology
      = ⟨(run net).topology.channels, (run net).topology.bindings, (run net).topology.warnings⟩ :=
        rfl
    _ = net.resolved := by rw [hchannels, hbindings, hrun.warnings]; rfl

end Resolver

namespace Topology

/-- Resolution finds the routes of a network, each once, and binds every transition to its own,
unless some transition has no counterpart. -/
theorem resolve_eq (net : Network) :
    resolve net = match net.unmatched with
      | [] => .ok net.resolved
      | us => .error (us.mergeSort fun u v => u.span.le v.span) := by
  unfold resolve
  cases h : net.unmatched with
  | nil => simp [Resolver.unmatched_run, h, Resolver.topology_run h]
  | cons u us => simp [Resolver.unmatched_run, h]

theorem resolve_eq_ok_iff {net : Network} {t : Topology} :
    resolve net = .ok t ↔ net.unmatched = [] ∧ t = net.resolved := by
  rw [resolve_eq]
  cases h : net.unmatched with
  | nil => simp [eq_comm]
  | cons u us => simp

theorem resolve_eq_error_iff {net : Network} {us : List Unmatched} :
    resolve net = .error us ↔ net.unmatched ≠ [] ∧
      us = net.unmatched.mergeSort fun u v => u.span.le v.span := by
  rw [resolve_eq]
  cases net.unmatched with
  | nil => simp
  | cons u us' => simp [eq_comm]

end Topology
end TimedAutomata
