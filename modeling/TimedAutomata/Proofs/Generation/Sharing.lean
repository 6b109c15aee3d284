import TimedAutomata.Proofs.Compilation.Analysis
import TimedAutomata.Proofs.Generation.Choice

/-!
# The channels of a program

What a worker sees of the channels that it shares with others.

* `Hosts`: a machine with the channels of a program
* `channelName?_eq`: the channel of a transition has the name of its route
* `eval_enabledEntry_within`: a transition is enabled if its guard holds and its channel is ready
* `execAll_communicate`: performing a communication
* `getElem?_leaving`: the transition with a given ordinal
-/

namespace TimedAutomata
namespace Generation

/-! ## Names -/

theorem Route.name_ne {w : String} (hw : w.toList.take 3 ≠ ['c', 'h', 'a']) (r : Route) :
    r.name ≠ w := by
  rintro rfl
  simp [Route.name] at hw

/-- No variable of a worker hides a channel. -/
theorem lookup_vars_name (l : Locals) (o : Option Nat) (r : Route) :
    (l.vars o).lookup r.name = none := by
  rw [List.lookup_eq_none_iff]
  intro v hv
  have hnames : ((l.vars o).map Prod.fst).all (fun w => w.toList.take 3 ≠ ['c', 'h', 'a']) = true :=
    show ["choice", "x", "now", "epoch", "state", "rng"].all _ = true by decide
  have hw := List.all_eq_true.1 hnames v.1 (List.mem_map_of_mem hv)
  simpa using Route.name_ne (by simpa using hw) r

/-- The machine has the channels of the program, and no others. -/
structure Hosts (p : Program) (m : Machine) : Prop where
  present : ∀ r ∈ p.topology.routes, ∃ level, m.channels r.name = some level
  names : ∀ {name level}, m.channels name = some level → ∃ r ∈ p.topology.routes, r.name = name

/-- Channels do not hide the names that guards use. -/
theorem Hosts.reads {p : Program} {m : Machine} (h : Hosts p m) (l : Locals) (o : Option Nat) :
    Reads (m.within l o) l.clock := by
  have hnone : ∀ w : String, w.toList.take 3 ≠ ['c', 'h', 'a'] → m.channels w = none := by
    intro w hw
    rw [Option.eq_none_iff_forall_ne_some]
    intro level hlevel
    rcases h.names hlevel with ⟨r, -, hr⟩
    exact Route.name_ne hw r hr
  have hread : ∀ w, (l.vars o).lookup w = none → m.channels w = none →
      (m.within l o).read w = if w = "true" then .ret (.bool true)
        else if w = "false" then .ret (.bool false) else .trap .meaningless := by
    intro w hvars hchannels
    simp [Machine.read, Machine.within, hvars, hchannels]
  -- neither a variable nor a channel is called `true` or `false`
  refine ⟨rfl, ?_, ?_⟩
  · rw [hread "true" rfl (hnone "true" (by decide)), if_pos rfl]
  · rw [hread "false" rfl (hnone "false" (by decide)), if_neg (by decide), if_pos rfl]

/-! ## Transitions -/

section

variable {p : Program} (hp : p.Analyzed) {aid : AutomatonId} {a : Automaton}
  (ha : p.network[aid]? = some a) {tid : TransitionId} {t : Transition}
  (ht : a.transitions[tid]? = some t)
include hp ha ht

theorem route_mem_routes : t.comm.route a.label ∈ p.topology.routes := by
  rcases hp.binds.bound ha ht with ⟨c, -, hroute⟩
  exact List.mem_of_getElem? hroute

/-- The channel of a transition has the name of its route. -/
theorem channelName?_eq : channelName? p aid tid = some (t.comm.route a.label).name := by
  rcases hp.binds.bound ha ht with ⟨c, hc, hroute⟩
  rw [Topology.routes, List.getElem?_map, Option.map_eq_some_iff] at hroute
  rcases hroute with ⟨channel, hchannel, heq⟩
  simp [channelName?, hc, hchannel, heq]

/-- A worker finds a transition enabled if its guard holds and its channel is ready. -/
theorem eval_enabledEntry_within {m : Machine} (hm : Hosts p m) {level : Nat}
    (hlevel : m.channels (t.comm.route a.label).name = some level) (l : Locals) (o : Option Nat) :
    (enabledEntry p aid (tid, t)).eval goCall (m.within l o) =
      .ret (.bool (t.guard.holds l.clock && m.allows t.comm.direction level)) := by
  rcases hp.exists_edge ha (List.mem_of_getElem? ht) with ⟨e, he, hedge⟩
  have hguard : t.guard.expr.Bounded := by
    rw [hedge.guard]
    exact he.guard
  have hshows : (m.within l o).Shows (t.comm.route a.label).name level :=
    ⟨lookup_vars_name l o _, hlevel⟩
  exact eval_enabledEntry (hm.reads l o) hguard (channelName?_eq hp ha ht) hshows

end

/-- A communication over a channel that is ready. -/
theorem execAll_communicate {m : Machine} {c : Communication} {name : String} {level : Nat}
    (hchannel : m.channels name = some level) (hallows : m.allows c.direction level = true) :
    Stmt.execAll goCall m (communicate c name) = .ret (.on, m.communicated c.direction name) := by
  have hgo : m.communicate c.direction name = .ret (m.communicated c.direction name) := by
    simp [Machine.communicate, hchannel, hallows]
  unfold communicate
  cases hd : c.direction with
  | send =>
    rw [hd] at hgo
    simp [Stmt.execAll, Stmt.exec, Expr.eval, hgo]
  | receive =>
    rw [hd] at hgo
    simp [Stmt.execAll, Stmt.exec, hgo]

/-- Ordinals count the transitions that leave a state. -/
theorem getElem?_leaving {a : Automaton} (h : a.WellFormed) {sid : StateId} {s : State}
    (hs : a.states[sid]? = some s) {i : Nat} {tid : TransitionId} {t : Transition}
    (htid : s.outgoing[i]? = some tid) (ht : a.transitions[tid]? = some t) :
    (leaving a s)[i]? = some (tid, t) := by
  have hvalid := fun tid (hmem : tid ∈ s.outgoing) => h.exists_transition hs hmem
  -- no transition is dropped, so positions are kept
  unfold leaving
  generalize s.outgoing = tids at htid hvalid
  induction tids generalizing i with
  | nil => simp at htid
  | cons u tids ih =>
    rw [List.forall_mem_cons] at hvalid
    rcases hvalid with ⟨⟨v, hv⟩, hvalid⟩
    cases i with
    | zero =>
      obtain rfl : u = tid := by simpa using htid
      simp [ht]
    | succ i => simpa [hv] using ih (by simpa using htid) hvalid

end Generation
end TimedAutomata
