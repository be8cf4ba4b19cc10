import GrammarAtlas.Graph.Basic
import GrammarAtlas.Proofs.Automaton.Calls
import GrammarAtlas.Proofs.Automaton.Remainder

/-!
# Drawings have no loose ends

The nodes of a drawing are the states of a region, and its edges are their transitions.  If all
transitions of the region lead to its states (`RegionState.Tied`), every edge has a node at both
ends.  Regions of an automaton that calls have made are of this kind, contracted or not, so
whatever is drawn of such an automaton is complete, and no state is looked up that is not there
(`Reached.no_loose_ends`).
-/

namespace GrammarAtlas

namespace Region

variable {g : Region} {id : StateId} {name : Text}

theorem map_state_nodes (g : Region) : g.nodes.map (·.state) = g.ids := by
  rw [nodes, List.map_map]
  rfl

/-- The states that are drawn are those of the region. -/
theorem containsState_draw : (g.draw name).containsState id = true ↔ id ∈ g.ids := by
  rw [Graph.containsState, Graph.node?, List.find?_isSome, ← map_state_nodes, List.mem_map]
  simp only [decide_eq_true_eq]
  rfl

theorem mem_edges {e : Edge} : e ∈ g.edges ↔
    ∃ s ∈ g.states, ∃ t ∈ s.transitions, e = ⟨s.id, t.target, t.label⟩ := by
  simp only [edges, List.mem_flatMap, List.mem_map, eq_comm]

theorem isSome_state?_iff : (g.state? id).isSome = true ↔ id ∈ g.ids := by
  rw [state?, List.find?_isSome, ids, List.mem_map]
  simp only [decide_eq_true_eq]

theorem mem_successors {u v : StateId} : v ∈ g.successors u ↔
    ∃ s, g.state? u = some s ∧ ∃ t ∈ s.transitions, t.target = v := by
  rw [successors]
  cases g.state? u with
  | none => simp
  | some s => simp

/-- Ranking a region whose transitions lead to its states comes across no others. -/
theorem mem_ids_of_mem_ranks (h : RegionState.Tied g.states) (hstart : g.start ∈ g.ids) :
    ∀ p ∈ g.ranks, p.1 ∈ g.ids := by
  refine BreadthFirst.forall_mem_walk (P := (· ∈ g.ids)) (fun u _ v hv => ?_) ?_
  · obtain ⟨s, hs, t, ht, rfl⟩ := mem_successors.mp hv
    exact h s (List.mem_of_find?_eq_some hs) t ht
  · intro p hp
    obtain rfl := List.mem_singleton.mp hp
    exact hstart

end Region

/-- A drawing without loose ends: it has one node for each state, and a node at both ends of each
edge. -/
structure Graph.Whole (g : Graph) : Prop where
  distinct : (g.nodes.map (·.state)).Nodup
  ends : ∀ e ∈ g.edges, g.containsState e.source = true ∧ g.containsState e.target = true

theorem Region.whole_draw {g : Region} (hdistinct : g.ids.Nodup) (h : RegionState.Tied g.states)
    (name : Text) : (g.draw name).Whole where
  distinct := by
    show (g.nodes.map (·.state)).Nodup
    rwa [map_state_nodes]
  ends := by
    intro e he
    obtain ⟨s, hs, t, ht, rfl⟩ := mem_edges.mp he
    exact ⟨containsState_draw.mpr (List.mem_map_of_mem hs), containsState_draw.mpr (h s hs t ht)⟩

namespace Automaton

variable {a : Automaton} {start id : StateId}

/-- **No state is missing** when the region of a start is collected and ranked. -/
structure NoneMissing (a : Automaton) (start : StateId) (optimize : Bool) : Prop where
  /-- All ids that the walk through the automaton finds are states. -/
  found : ∀ p ∈ BreadthFirst.order a.successors (a.transitionCount + 1) start,
    ∃ s, a.state p.1 = .ok s
  /-- All ids that are ranked are states of the region. -/
  ranked : ∀ p ∈ (a.region start optimize).ranks,
    ∃ s, (a.region start optimize).state? p.1 = some s

theorem exists_state (h : id < a.size) : ∃ s, a.state id = .ok s := by
  have hget : a.get? id = some a.states[id] := List.getElem?_eq_getElem h
  exact ⟨a.states[id], by rw [state, hget]⟩

theorem start_region (a : Automaton) (start : StateId) (optimize : Bool) :
    (a.region start optimize).start = start := by
  cases optimize <;> rfl

theorem Closed.noneMissing (ha : a.Closed) (hstart : start < a.size) (optimize : Bool) :
    a.NoneMissing start optimize where
  found := by
    intro p hp
    refine exists_state
      (BreadthFirst.forall_mem_walk (P := (· < a.size)) (fun u _ v hv => ?_) ?_ p hp)
    · obtain ⟨l, hstep⟩ := mem_successors_iff.mp hv
      exact ha.lt_size u l v hstep
    · intro p hp
      obtain rfl := List.mem_singleton.mp hp
      exact hstart
  ranked := by
    intro p hp
    refine Option.isSome_iff_exists.mp (Region.isSome_state?_iff.mpr ?_)
    refine Region.mem_ids_of_mem_ranks (tied_region ha.lt_size hstart optimize) ?_ p hp
    rw [start_region]
    exact start_mem_ids_region hstart optimize

end Automaton

open Automaton

/-- **No drawn edge dangles.**  Let an automaton be made by calls that are given ids which earlier
calls have returned.  Every further call of this kind succeeds, every id that was returned is that
of a state, and whatever is drawn from a state or a rule, with or without contraction, has one
node for each state and a node at both ends of each edge. -/
theorem Reached.no_loose_ends {a : Automaton} {known : List StateId} (h : Reached a known) :
    (∀ c : Call, c.given ⊆ known → ∃ returned b, c.make.run a = .ok (returned, b)) ∧
    (∀ id ∈ known, ∃ s, a.state id = .ok s) ∧
    ∀ start, (start < a.size ∨ ∃ name, a.startState? name = some start) → ∀ optimize name,
      ((a.region start optimize).draw name).containsState start = true ∧
        ((a.region start optimize).draw name).Whole ∧ a.NoneMissing start optimize := by
  obtain ⟨hintact, hknown⟩ := h.intact
  refine ⟨fun c hgiven => ?_, fun id hid => exists_state (hknown id hid), ?_⟩
  · obtain ⟨returned, b, hrun, -⟩ := c.succeeds hintact fun id hid => hknown id (hgiven hid)
    exact ⟨returned, b, hrun⟩
  · intro start hstart optimize name
    have hlt : start < a.size := by
      rcases hstart with hlt | ⟨rule, hrule⟩
      · exact hlt
      · obtain ⟨ends, hends, rfl⟩ := Option.map_eq_some_iff.mp hrule
        exact hintact.starts rule ends hends
    exact ⟨Region.containsState_draw.mpr (start_mem_ids_region hlt optimize),
      Region.whole_draw (a.nodup_ids_region start optimize)
        (tied_region hintact.closed.lt_size hlt optimize) name,
      hintact.closed.noneMissing hlt optimize⟩

/-- A fragment that is joined to itself and then defined as a rule the wrong way round.  One state
of the rule is contracted. -/
theorem Reached.no_loose_ends_of_reuse :
    let a : Automaton := ⟨[⟨[⟨.symbol ['x'], 1⟩, ⟨.epsilon, 3⟩], false⟩, ⟨[⟨.epsilon, 0⟩], false⟩,
      ⟨[⟨.epsilon, 1⟩], false⟩, ⟨[], true⟩], [(['r'], ⟨2, 3⟩)]⟩
    Reached a [2, 3, 0, 1, 0, 1] ∧ a.startState? ['r'] = some 2 ∧
      (a.region 2 true).ids = [2, 0, 3] ∧
      ((a.region 2 true).draw ['r']).containsState 2 = true ∧
      ((a.region 2 true).draw ['r']).Whole ∧ a.NoneMissing 2 true := by
  intro a
  have h₁ : Reached ⟨[⟨[⟨.symbol ['x'], 1⟩], false⟩, {}], []⟩ [0, 1] :=
    .call (.symbol ['x']) .empty (by decide) rfl
  have h₂ : Reached ⟨[⟨[⟨.symbol ['x'], 1⟩], false⟩, ⟨[⟨.epsilon, 0⟩], false⟩], []⟩ [0, 1, 0, 1] :=
    .call (.sequence [⟨0, 1⟩, ⟨0, 1⟩]) h₁ (by decide) rfl
  have h₃ : Reached a [2, 3, 0, 1, 0, 1] := .call (.defineRule ['r'] ⟨1, 0⟩) h₂ (by decide) rfl
  have hrule : a.startState? ['r'] = some 2 := by decide
  exact ⟨h₃, hrule, by decide, h₃.no_loose_ends.2.2 2 (.inr ⟨['r'], hrule⟩) true ['r']⟩

end GrammarAtlas
