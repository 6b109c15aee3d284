import TimedAutomata.Proofs.Topology.Resolution

/-!
# Transitions and their channels

In a network whose topology could be resolved, every transition is bound to a channel, and the
channel has the route of the transition.

* `Network.index_eq_of_label_eq`: different labels tell automata apart
* `Topology.Binds`: what holds of the topology of a network
* `Topology.binds_of_resolve`: it does
-/

namespace TimedAutomata

/-! ## Labels -/

/-- With different labels, a label stands for one automaton. -/
theorem Network.index_eq_of_label_eq {net : Network} (hlabels : (net.map Automaton.label).Nodup)
    {i j : AutomatonId} {a b : Automaton} (ha : net[i]? = some a) (hb : net[j]? = some b)
    (h : a.label = b.label) : i = j := by
  have hi : i < (net.map Automaton.label).length := by
    rw [List.length_map]
    exact (List.getElem?_eq_some_iff.1 ha).1
  apply (List.getElem?_inj hi hlabels).1
  simp [ha, hb, h]

theorem Network.mem_routes {net : Network} {r : Route} :
    r ∈ net.routes ↔ ∃ a ∈ net, ∃ t ∈ a.transitions, t.comm.route a.label = r := by
  simp [routes]

/-! ## Bound transitions -/

namespace Topology

/-- Routes belong to one channel each, and each transition is bound to the channel of its
route. -/
structure Binds (t : Topology) (net : Network) : Prop where
  nodup : t.routes.Nodup
  bound : ∀ {aid a tid tr}, net[aid]? = some a → a.transitions[tid]? = some tr →
    ∃ c, t.channelOf? aid tid = some c ∧ t.routes[c]? = some (tr.comm.route a.label)

section Resolved

variable {net : Network} {t : Topology} (h : resolve net = .ok t)
include h

theorem routes_of_resolve : t.routes = net.routes.eraseDups := by
  rcases resolve_eq_ok_iff.1 h with ⟨-, rfl⟩
  exact net.routes_channels _

theorem mem_routes_of_resolve {r : Route} : r ∈ t.routes ↔ r ∈ net.routes := by
  rw [routes_of_resolve h, List.mem_eraseDups]

theorem nodup_routes_of_resolve : t.routes.Nodup := by
  rw [routes_of_resolve h]
  exact Sequence.nodup_eraseDups _

/-- The transitions are bound, each to the channel of its route, and nothing else is. -/
theorem channelOf?_eq_some_iff {aid : AutomatonId} {tid : TransitionId} {c : ChannelId} :
    t.channelOf? aid tid = some c ↔ ∃ a tr, net[aid]? = some a ∧ a.transitions[tid]? = some tr ∧
      t.routes[c]? = some (tr.comm.route a.label) := by
  have hbindings : t.bindings = net.bindings t.routes := by
    rw [routes_of_resolve h]
    rcases resolve_eq_ok_iff.1 h with ⟨-, rfl⟩
    rfl
  -- a position has one automaton, and in it one transition, so it is bound once
  have hkeys : (t.bindings.map Prod.fst).Nodup := by
    rw [hbindings, Network.bindings, List.map_map]
    exact net.nodup_keys
  rw [channelOf?, lookup_eq_some_iff_mem hkeys, hbindings, Network.bindings, List.mem_map]
  constructor
  · rintro ⟨u, hu, heq⟩
    simp only [Prod.mk.injEq] at heq
    rcases heq with ⟨⟨rfl, rfl⟩, rfl⟩
    rcases Network.mem_uses.1 hu with ⟨ha, htr⟩
    have hmem : u.route ∈ t.routes := by
      rw [mem_routes_of_resolve h, ← net.map_route_uses]
      exact List.mem_map_of_mem hu
    refine ⟨_, _, ha, htr, ?_⟩
    rw [List.getElem?_eq_getElem (List.idxOf_lt_length_of_mem hmem), List.getElem_idxOf]
    rfl
  · rintro ⟨a, tr, ha, htr, hroute⟩
    rcases List.getElem?_eq_some_iff.1 hroute with ⟨hlt, hget⟩
    refine ⟨⟨a, aid, tr, tid⟩, Network.mem_uses.2 ⟨ha, htr⟩, ?_⟩
    have hindex := (nodup_routes_of_resolve h).idxOf_getElem c hlt
    rw [hget] at hindex
    simp [Network.Use.route, hindex]

/-- Every transition is bound to the channel of its route, and a route belongs to one channel. -/
theorem binds_of_resolve : t.Binds net where
  nodup := nodup_routes_of_resolve h
  bound {aid a tid tr} ha htr := by
    have hroute : tr.comm.route a.label ∈ t.routes := by
      rw [mem_routes_of_resolve h, Network.mem_routes]
      exact ⟨a, List.mem_of_getElem? ha, tr, List.mem_of_getElem? htr, rfl⟩
    rcases List.getElem?_of_mem hroute with ⟨c, hc⟩
    exact ⟨c, (channelOf?_eq_some_iff h).2 ⟨a, tr, ha, htr, hc⟩, hc⟩

end Resolved

end Topology
end TimedAutomata
