import GrammarAtlas.Proofs.Automaton.Distance
import GrammarAtlas.Proofs.Graph.Drawing

/-!
# The ranks of a drawing

The rank of a node is its distance from the start along the edges that are drawn
(`ranks_region`).  Every node has one: the states of a full region are within reach by steps of
the region itself, and a contraction cuts nobody off, since a route through a state that is taken
off can go around it.  Going around makes a route no longer, so contraction never moves a node
away from the start (`Shortened`).

The states of a region are listed in the order of their distances in the full region
(`breadth_first_region`).  Contraction shortens some routes and not others, and leaves the order
as it is.
-/

namespace GrammarAtlas

namespace RegionState

variable {states left : List RegionState} {s : RegionState}
  {start id successor u v : StateId} {k : Nat}

/-! ## Routes around a state -/

/-- A transition of the states leads from one id to another. -/
def Joins (states : List RegionState) (u v : StateId) : Prop := ∃ l, steps states u l v

theorem joins_without : Joins (without id successor states) u v ↔
    u ≠ id ∧ ∃ v', Joins states u v' ∧ v = detour id successor v' := by
  constructor
  · rintro ⟨l, hstep⟩
    obtain ⟨hid, v', hstep', rfl⟩ := steps_without.mp hstep
    exact ⟨hid, v', ⟨l, hstep'⟩, rfl⟩
  · rintro ⟨hid, v', ⟨l, hstep⟩, rfl⟩
    exact ⟨l, steps_without.mpr ⟨hid, v', hstep, rfl⟩⟩

/-- A route through a state that leads to one successor can go around it, and is no longer
then. -/
theorem exists_route_without (honly : ∀ v, Joins states id v → v = successor)
    (hne : successor ≠ id) (hstart : start ≠ id) (h : Route (Joins states) start k v) :
    ∃ n ≤ k, Route (Joins (without id successor states)) start n (detour id successor v) := by
  induction h with
  | refl =>
    rw [detour_of_ne hstart]
    exact ⟨0, Nat.le_refl 0, .refl⟩
  | @tail k v w _ hstep ih =>
    obtain ⟨n, hn, hroute⟩ := ih
    by_cases hv : v = id
    · -- the route has got to the successor without this step
      obtain rfl := honly w (hv ▸ hstep)
      rw [hv, detour_self] at hroute
      rw [detour_of_ne hne]
      exact ⟨n, Nat.le_succ_of_le hn, hroute⟩
    · rw [detour_of_ne hv] at hroute
      exact ⟨n + 1, Nat.succ_le_succ hn, hroute.tail (joins_without.mpr ⟨hv, w, hstep, rfl⟩)⟩

/-- The states that are left are reached as before, on routes that are no longer. -/
def Shortened (start : StateId) (states left : List RegionState) : Prop :=
  ∀ v ∈ left.map (·.id), ∀ k, Route (Joins states) start k v →
    ∃ n ≤ k, Route (Joins left) start n v

theorem Shortened.without (h : Shortened start states left) (hnodup : (left.map (·.id)).Nodup)
    (hs : s ∈ left) (hbypass : s.bypass? start = some successor) :
    Shortened start states (without s.id successor left) := by
  obtain ⟨htrans, hstart, -, hne⟩ := bypass?_eq_some_iff.mp hbypass
  have honly : ∀ v, Joins left s.id v → v = successor := by
    rintro v ⟨l, p, hp, hid, ht⟩
    rw [List.inj_on_of_nodup_map hnodup hp hs hid, htrans, List.mem_singleton] at ht
    exact congrArg Transition.target ht
  intro v hv k hroute
  obtain ⟨hleft, hid⟩ := mem_map_id_without.mp hv
  obtain ⟨n, hn, hroute'⟩ := h v hleft k hroute
  obtain ⟨m, hm, haround⟩ := exists_route_without honly hne hstart.symm hroute'
  rw [detour_of_ne hid] at haround
  exact ⟨m, hm.trans hn, haround⟩

/-- **Contraction cuts no state off and moves none away from the start.** -/
theorem shortened_contract (hnodup : (states.map (·.id)).Nodup) :
    Shortened start states (Contraction.contract start states).1 :=
  Contraction.contract_induction hnodup
    (fun _ _ _ hleft hs hbypass h => h.without hleft hs hbypass)
    fun _ _ k hroute => ⟨k, Nat.le_refl k, hroute⟩

end RegionState

open RegionState BreadthFirst

namespace Region

variable {g : Region} {id u v : StateId} {k : Nat} {n : Node} {name : Text}

/-! ## The ranks of a region -/

/-- The state with an id, where ids are distinct. -/
theorem state?_eq_some_iff (hnodup : g.ids.Nodup) {s : RegionState} :
    g.state? u = some s ↔ s ∈ g.states ∧ s.id = u := by
  have hfound {q : RegionState} (hq : g.state? u = some q) : q ∈ g.states ∧ q.id = u :=
    ⟨List.mem_of_find?_eq_some hq, by simpa using List.find?_some hq⟩
  refine ⟨hfound, ?_⟩
  rintro ⟨hs, hid⟩
  have hsome : (g.state? u).isSome = true :=
    isSome_state?_iff.mpr (List.mem_map.mpr ⟨s, hs, hid⟩)
  obtain ⟨q, hq⟩ := Option.isSome_iff_exists.mp hsome
  obtain ⟨hmem, hqid⟩ := hfound hq
  rw [hq, List.inj_on_of_nodup_map hnodup hmem hs (hqid.trans hid.symm)]

theorem mem_successors_iff_joins (hnodup : g.ids.Nodup) :
    v ∈ g.successors u ↔ Joins g.states u v := by
  rw [mem_successors]
  constructor
  · rintro ⟨s, hs, ⟨l, v⟩, ht, rfl⟩
    obtain ⟨hmem, hid⟩ := (state?_eq_some_iff hnodup).mp hs
    exact ⟨l, s, hmem, hid, ht⟩
  · rintro ⟨l, s, hmem, hid, ht⟩
    exact ⟨s, (state?_eq_some_iff hnodup).mpr ⟨hmem, hid⟩, _, ht, rfl⟩

/-- The ids that ranking a region may come across. -/
theorem successors_subset (g : Region) (u : StateId) :
    g.successors u ⊆ g.start :: (g.states.flatMap (·.transitions)).map (·.target) := by
  intro v hv
  obtain ⟨s, hs, t, ht, rfl⟩ := mem_successors.mp hv
  refine List.mem_cons_of_mem _ (List.mem_map_of_mem ?_)
  exact List.mem_flatMap.mpr ⟨s, List.mem_of_find?_eq_some hs, ht⟩

/-- Ranking lists the distances. -/
theorem mem_ranks_iff (hnodup : g.ids.Nodup) :
    (v, k) ∈ g.ranks ↔ Distance (Joins g.states) g.start v k := by
  rw [ranks, mem_order_iff_distance List.mem_cons_self g.successors_subset
    (by rw [List.length_cons, List.length_map, transitionCount])]
  exact Distance.congr fun _ _ _ _ => mem_successors_iff_joins hnodup

/-- The rank of an id is its distance from the start. -/
theorem rank_eq_of_distance (hnodup : g.ids.Nodup) (h : Distance (Joins g.states) g.start v k) :
    g.rank v = k := by
  obtain ⟨front, back, hranks⟩ := List.append_of_mem ((mem_ranks_iff hnodup).mpr h)
  have hlisted : ((front ++ (v, k) :: back).map (·.1)).Nodup := hranks ▸ nodup_order ..
  rw [List.map_append, List.map_cons, List.nodup_append] at hlisted
  have hfront : ∀ p ∈ front, (v != p.1) = true := by
    intro p hp
    rw [bne_iff_ne]
    exact (hlisted.2.2 p.1 (List.mem_map_of_mem hp) v List.mem_cons_self).symm
  rw [rank, List.lookup_eq_some_iff.mpr ⟨front, back, hranks, hfront⟩, Option.getD_some]

/-- An id that some route leads to has a rank. -/
theorem distance_rank (hnodup : g.ids.Nodup) (h : ∃ n, Route (Joins g.states) g.start n v) :
    Distance (Joins g.states) g.start v (g.rank v) := by
  obtain ⟨k, hk⟩ := Distance.exists_of_route h
  rwa [rank_eq_of_distance hnodup hk]

end Region

/-! ## Drawings -/

/-- An edge is drawn from one state to another. -/
def Graph.Joins (G : Graph) (u v : StateId) : Prop := ∃ e ∈ G.edges, e.source = u ∧ e.target = v

/-- **Every node stands at its distance from the start**, and only the start stands at none. -/
structure Graph.Ranked (G : Graph) (start : StateId) : Prop where
  distance : ∀ n ∈ G.nodes, Distance G.Joins start n.state n.rank
  zero : ∀ n ∈ G.nodes, (n.rank = 0 ↔ n.state = start)

namespace Region

variable {g : Region} {u v : StateId} {name : Text}

theorem joins_draw : (g.draw name).Joins u v ↔ RegionState.Joins g.states u v := by
  constructor
  · rintro ⟨e, he, rfl, rfl⟩
    obtain ⟨s, hs, ⟨l, v⟩, ht, rfl⟩ := mem_edges.mp he
    exact ⟨l, s, hs, rfl, ht⟩
  · rintro ⟨l, s, hs, rfl, ht⟩
    exact ⟨_, mem_edges.mpr ⟨s, hs, _, ht, rfl⟩, rfl, rfl⟩

theorem mem_nodes {n : Node} : n ∈ g.nodes ↔
    ∃ s ∈ g.states, n = ⟨s.id, StateId.text s.id, s.accepting, g.rank s.id⟩ := by
  simp only [nodes, List.mem_map, rank, eq_comm]

theorem exists_node? (name : Text) (hv : v ∈ g.ids) :
    ∃ o, (g.draw name).node? v = some o ∧ o.rank = g.rank v := by
  obtain ⟨o, ho⟩ := Option.isSome_iff_exists.mp (containsState_draw.mpr hv)
  obtain ⟨s, -, rfl⟩ := mem_nodes.mp (List.mem_of_find?_eq_some ho)
  have hid : s.id = v := by simpa using List.find?_some ho
  exact ⟨_, ho, congrArg g.rank hid⟩

theorem map_rank_nodes (g : Region) : g.nodes.map (·.rank) = g.ids.map g.rank := by
  rw [nodes, ids, List.map_map, List.map_map]
  rfl

end Region

namespace Automaton

variable {a : Automaton} {start u v : StateId} {k : Nat}

/-! ## Regions of automata -/

/-- What a state within reach leads to, it leads to in the region. -/
theorem mem_successors_iff_joins (hstart : start < a.size) (hu : Leads a.steps start u) :
    v ∈ a.successors u ↔ Joins (a.region start false).states u v := by
  rw [mem_successors_iff]
  refine exists_congr fun l => ⟨?_, ?_⟩
  · rintro ⟨s, hs, ht⟩
    refine ⟨⟨u, s.accepting, s.transitions⟩, (mem_states_region hstart).mpr ⟨?_, hu⟩, rfl, ht⟩
    rw [regionState?, hs, Option.map_some]
  · rintro ⟨s, hs, rfl, ht⟩
    obtain ⟨hstate, -⟩ := (mem_states_region hstart).mp hs
    obtain ⟨p, hp, heq⟩ := Option.map_eq_some_iff.mp hstate
    exact ⟨p, hp, (congrArg (·.transitions) heq : p.transitions = s.transitions) ▸ ht⟩

theorem leads_of_route (h : Route (Next a.successors) start k v) : Leads a.steps start v := by
  induction h with
  | refl => exact .refl
  | tail _ hstep ih => exact ih.tail (mem_successors_iff.mp hstep)

/-- The walk that collects a region lists the distances in the full region. -/
theorem mem_order_iff_distance_region (hstart : start < a.size) :
    (v, k) ∈ order a.successors (a.transitionCount + 1) start ↔
      Distance (Joins (a.region start false).states) start v k := by
  rw [mem_order_iff_distance List.mem_cons_self (a.successors_subset_start_targets start)
    (by rw [length_start_targets])]
  exact Distance.congr fun _ _ _ hroute => mem_successors_iff_joins hstart (leads_of_route hroute)

/-- What it lists are the ranks in the full region. -/
theorem rank_of_mem_order (hstart : start < a.size)
    (h : (v, k) ∈ order a.successors (a.transitionCount + 1) start) :
    (a.region start false).rank v = k :=
  Region.rank_eq_of_distance (a.nodup_ids_region start false)
    ((mem_order_iff_distance_region hstart).mp h)

/-- **Contraction leaves all states of a region within reach**, on routes that are no longer. -/
theorem exists_route_region (hstart : start < a.size) (optimize : Bool)
    (hv : v ∈ (a.region start optimize).ids) :
    ∃ k ≤ (a.region start false).rank v,
      Route (Joins (a.region start optimize).states) start k v := by
  have hfull : v ∈ (a.region start false).ids := (a.sublist_ids_region start optimize).subset hv
  obtain ⟨-, hleads⟩ := (mem_ids_region hstart).mp hfull
  obtain ⟨⟨v, k⟩, hk, rfl⟩ := List.mem_map.mp (mem_order_iff.mpr hleads)
  have hroute := ((mem_order_iff_distance_region hstart).mp hk).route
  rw [rank_of_mem_order hstart hk]
  cases optimize with
  | false => exact ⟨k, Nat.le_refl k, hroute⟩
  | true => exact shortened_contract (a.nodup_reachable start) v hv k hroute

/-- Every state of a region is drawn at its distance from the start. -/
theorem distance_draw (hstart : start < a.size) (optimize : Bool) (name : Text)
    (hv : v ∈ (a.region start optimize).ids) :
    Distance ((a.region start optimize).draw name).Joins start v
      ((a.region start optimize).rank v) := by
  obtain ⟨k, -, hroute⟩ := exists_route_region hstart optimize hv
  have hdistance := Region.distance_rank (a.nodup_ids_region start optimize) (v := v)
  rw [start_region] at hdistance
  exact (Distance.congr fun _ _ _ _ => Region.joins_draw).mpr (hdistance ⟨k, hroute⟩)

/-! ## The order of the states -/

theorem sublist_ids_order (hstart : start < a.size) (optimize : Bool) :
    (a.region start optimize).ids.Sublist
      ((order a.successors (a.transitionCount + 1) start).map (·.1)) := by
  refine (a.sublist_ids_region start optimize).trans ?_
  show ((a.reachable start).map (·.id)).Sublist _
  rw [reachable, if_pos hstart]
  exact a.map_id_filterMap_regionState? _

/-- What begins a list of different things begins every part of the list that it is in. -/
theorem head?_of_sublist {x : StateId} {part rest : List StateId} (h : part.Sublist (x :: rest))
    (hnodup : (x :: rest).Nodup) (hx : x ∈ part) : part.head? = some x := by
  cases h with
  | cons _ h => exact absurd (h.subset hx) (List.nodup_cons.mp hnodup).1
  | cons_cons _ _ => rfl

theorem head?_ids_region (hstart : start < a.size) (optimize : Bool) :
    (a.region start optimize).ids.head? = some start := by
  obtain ⟨rest, hrest, -⟩ := a.exists_order_eq_cons start
  have hsublist := a.sublist_ids_order hstart optimize
  have hnodup := nodup_order a.successors (a.transitionCount + 1) start
  rw [hrest, List.map_cons] at hsublist hnodup
  exact head?_of_sublist hsublist hnodup (start_mem_ids_region hstart optimize)

/-- The ids of a region are listed in the order of their ranks in the full region. -/
theorem pairwise_ids_region (hstart : start < a.size) (optimize : Bool) :
    (a.region start optimize).ids.Pairwise fun u v =>
      (a.region start false).rank u ≤ (a.region start false).rank v := by
  refine List.Pairwise.sublist (sublist_ids_order hstart optimize) (List.pairwise_map.mpr ?_)
  obtain ⟨rest, hrest, hsorted⟩ := a.exists_order_eq_cons start
  rw [← hrest] at hsorted
  refine hsorted.imp_of_mem fun hp hq hle => ?_
  rwa [rank_of_mem_order hstart hp, rank_of_mem_order hstart hq]

/-- **A region is listed breadth-first, as it was before its contraction.**  The start comes
first, and the others follow in the order of their distances in the full region.  So along the
nodes of a full drawing ranks do not decrease. -/
theorem breadth_first_region (hstart : start < a.size) (optimize : Bool) (name : Text) :
    (a.region start optimize).ids.head? = some start ∧
    (∀ v ∈ (a.region start optimize).ids,
      Distance ((a.region start false).draw name).Joins start v ((a.region start false).rank v)) ∧
    ((a.region start optimize).ids.Pairwise fun u v =>
      (a.region start false).rank u ≤ (a.region start false).rank v) ∧
    (((a.region start false).draw name).nodes.map (·.rank)).Pairwise (· ≤ ·) := by
  refine ⟨head?_ids_region hstart optimize, fun v hv => ?_, pairwise_ids_region hstart optimize, ?_⟩
  · exact distance_draw hstart false name ((a.sublist_ids_region start optimize).subset hv)
  · show ((a.region start false).nodes.map (·.rank)).Pairwise _
    rw [Region.map_rank_nodes, List.pairwise_map]
    exact pairwise_ids_region hstart false

/-- Two ways lead from state 0, over 1 to 3 and over 2 to 4, and state 2 is bypassed: then 4 is
next to the start, but still listed behind 3, which is not. -/
theorem breadth_first_of_bypass :
    let a : Automaton := ⟨[⟨[⟨.symbol ['x'], 1⟩, ⟨.symbol ['y'], 2⟩], false⟩,
      ⟨[⟨.symbol ['z'], 3⟩], false⟩, ⟨[⟨.epsilon, 4⟩], false⟩, {}, {}], []⟩
    0 < a.size ∧ (a.region 0 true).ids = [0, 1, 3, 4] ∧ (a.region 0 true).ids.head? = some 0 ∧
    (∀ v ∈ (a.region 0 true).ids,
      Distance ((a.region 0 false).draw ['r']).Joins 0 v ((a.region 0 false).rank v)) ∧
    ((a.region 0 true).ids.Pairwise fun u v =>
      (a.region 0 false).rank u ≤ (a.region 0 false).rank v) ∧
    (((a.region 0 false).draw ['r']).nodes.map (·.rank)).Pairwise (· ≤ ·) :=
  ⟨by decide, by decide, breadth_first_region (by decide) true ['r']⟩

/-- In the drawing of this region, the ranks along the nodes are 0, 1, 2 and 1. -/
theorem not_breadth_first_of_bypass :
    let a : Automaton := ⟨[⟨[⟨.symbol ['x'], 1⟩, ⟨.symbol ['y'], 2⟩], false⟩,
      ⟨[⟨.symbol ['z'], 3⟩], false⟩, ⟨[⟨.epsilon, 4⟩], false⟩, {}, {}], []⟩
    let g := (a.region 0 true).draw ['r']
    0 < a.size ∧ g.nodes.map (·.state) = [0, 1, 3, 4] ∧ Distance g.Joins 0 3 2 ∧
      Distance g.Joins 0 4 1 ∧ ¬ (g.nodes.map (·.rank)).Pairwise (· ≤ ·) := by
  intro a g
  have hstart : 0 < a.size := by decide
  have hrank₃ : (a.region 0 true).rank 3 = 2 := by decide
  have hrank₄ : (a.region 0 true).rank 4 = 1 := by decide
  refine ⟨hstart, by decide, ?_, ?_, by decide⟩
  · rw [← hrank₃]
    exact distance_draw hstart true ['r'] (by decide)
  · rw [← hrank₄]
    exact distance_draw hstart true ['r'] (by decide)

/-! ## Ranks -/

/-- **Ranks are distances.**  In every drawing of an existing state's region, contracted or not,
each node can be reached from the start along the edges, its rank is the length of a shortest
route, and only the start has rank 0.  The rank of a node that contraction leaves is no greater
than it was. -/
theorem ranked_region (hstart : start < a.size) (name : Text) :
    (∀ optimize, ((a.region start optimize).draw name).containsState start = true ∧
      ((a.region start optimize).draw name).Ranked start) ∧
    ∀ n ∈ ((a.region start true).draw name).nodes, ∃ o,
      ((a.region start false).draw name).node? n.state = some o ∧ n.rank ≤ o.rank := by
  constructor
  · intro optimize
    have hdistance : ∀ n ∈ ((a.region start optimize).draw name).nodes,
        Distance ((a.region start optimize).draw name).Joins start n.state n.rank := by
      intro n hn
      obtain ⟨s, hs, rfl⟩ := Region.mem_nodes.mp hn
      exact distance_draw hstart optimize name (List.mem_map_of_mem hs)
    refine ⟨Region.containsState_draw.mpr (start_mem_ids_region hstart optimize), hdistance, ?_⟩
    exact fun n hn => (hdistance n hn).eq_zero_iff
  · intro n hn
    obtain ⟨s, hs, rfl⟩ := Region.mem_nodes.mp hn
    have hid : s.id ∈ (a.region start true).ids := List.mem_map_of_mem hs
    obtain ⟨o, ho, hrank⟩ := Region.exists_node? name
      ((a.sublist_ids_region start true).subset hid)
    obtain ⟨k, hk, hroute⟩ := exists_route_region hstart true hid
    refine ⟨o, ho, ?_⟩
    rw [hrank]
    refine ((distance_draw hstart true name hid).le ?_).trans hk
    exact (Route.congr fun _ _ _ _ => Region.joins_draw).mpr hroute

/-- Some transitions lead back to the start, to a state that does not exist, and through a state
that is bypassed. -/
theorem ranked_of_bypass :
    let a : Automaton := ⟨[⟨[⟨.symbol ['x'], 1⟩, ⟨.symbol ['y'], 2⟩], false⟩,
      ⟨[⟨.symbol ['z'], 3⟩], false⟩, ⟨[⟨.epsilon, 4⟩], false⟩, ⟨[⟨.symbol ['w'], 9⟩], true⟩,
      ⟨[⟨.rule ['r'], 0⟩], false⟩], []⟩
    0 < a.size ∧ (a.region 0 false).nodes.map (·.rank) = [0, 1, 1, 2, 2] ∧
    (a.region 0 true).nodes.map (·.rank) = [0, 1, 2, 1] ∧
    (∀ optimize, ((a.region 0 optimize).draw ['r']).containsState 0 = true ∧
      ((a.region 0 optimize).draw ['r']).Ranked 0) ∧
    ∀ n ∈ ((a.region 0 true).draw ['r']).nodes, ∃ o,
      ((a.region 0 false).draw ['r']).node? n.state = some o ∧ n.rank ≤ o.rank :=
  ⟨by decide, by decide, by decide, ranked_region (by decide) ['r']⟩

end Automaton
end GrammarAtlas
