import GrammarAtlas.Proofs.Group.Assembly

/-!
# Contraction only prunes a group

The group of a finding is compared with the one that is made of contracted regions.  A contracted
region has fewer states and no new ones, so a path that touches it touches the full one
(`Finding.Touches.mono`).  Hence, in each place of the finding's list of names, a contracted graph
stands only where the full one stands, and if the contracted one is missing, all that the paths
have of the full graph are states that were contracted away (`group_contracted`).
-/

namespace GrammarAtlas

theorem Finding.Touches.mono {f : Finding} {g g' : Region} (h : f.Touches g)
    (hsub : g.ids ⊆ g'.ids) : f.Touches g' := by
  obtain ⟨path, hpath, id, hid, hmem⟩ := h
  exact ⟨path, hpath, id, hid, hsub hmem⟩

/-- **Contraction has taken the state away**: it only passed on. -/
structure Automaton.Eliminated (a : Automaton) (start id : StateId) : Prop where
  gone : id ∉ (a.region start true).ids
  passed : ∃ s ∈ (a.region start false).states, s.id = id ∧ s.PassesThrough start

theorem Automaton.eliminated_of_mem {a : Automaton} {start id : StateId}
    (hid : id ∈ (a.region start false).ids) (hgone : id ∉ (a.region start true).ids) :
    a.Eliminated start id where
  gone := hgone
  passed := by
    obtain ⟨s, hs, rfl⟩ := List.mem_map.mp hid
    rcases (a.thinned_region start).lost s hs with hleft | hpasses
    · exact absurd hleft hgone
    · exact ⟨s, hs, rfl, hpasses⟩

namespace AssemblyConfig

variable {a : Automaton} {f : Finding} {name : Text} {graph : Graph}

/-- What a group has in the place of each name: its graph, or nothing. -/
def picks (c : AssemblyConfig) (a : Automaton) (f : Finding) : List (Option Graph) :=
  f.rules.map (c.pick? a f)

theorem graphs_group (c : AssemblyConfig) (reports : Diagnostics) :
    (c.group a f reports).1.graphs = (c.picks a f).reduceOption := by
  show (c.group a f reports).1.graphs = (f.rules.map (c.pick? a f)).filterMap id
  rw [group_eq, List.filterMap_map]
  rfl

theorem getElem?_picks {c : AssemblyConfig} {i : Nat} {pick : Option Graph} :
    (c.picks a f)[i]? = some pick ↔ ∃ name, f.rules[i]? = some name ∧ c.pick? a f name = pick := by
  rw [picks, List.getElem?_map, Option.map_eq_some_iff]

/-- A contracted graph stands where the full one stands, and has some of its states. -/
theorem exists_pick?_of_contracted (h : pick? ⟨true⟩ a f name = some graph) :
    ∃ whole, pick? ⟨false⟩ a f name = some whole ∧
      (graph.nodes.map (·.state)).Sublist (whole.nodes.map (·.state)) := by
  obtain ⟨start, hstart, htouched, rfl⟩ := pick?_eq_some_iff.mp h
  have hsub : (a.region start true).ids.Sublist (a.region start false).ids :=
    a.sublist_ids_region start true
  refine ⟨(a.region start false).draw name, ?_, ?_⟩
  · exact pick?_eq_some_iff.mpr ⟨start, hstart, htouched.mono hsub.subset, rfl⟩
  · show ((a.region start true).nodes.map _).Sublist ((a.region start false).nodes.map _)
    rwa [Region.map_state_nodes, Region.map_state_nodes]

/-- Where contraction makes a graph go, the paths had only states of it that are contracted away. -/
theorem eliminated_of_pick?_eq_none (h : pick? ⟨false⟩ a f name = some graph)
    (hnone : pick? ⟨true⟩ a f name = none) :
    ∃ start, a.startState? name = some start ∧
      ∀ path ∈ f.paths, ∀ id ∈ path, graph.containsState id = true → a.Eliminated start id := by
  obtain ⟨start, hstart, -, rfl⟩ := pick?_eq_some_iff.mp h
  refine ⟨start, hstart, fun path hpath id hid hdrawn => ?_⟩
  refine Automaton.eliminated_of_mem (Region.containsState_draw.mp hdrawn) fun hleft => ?_
  have hpick : pick? ⟨true⟩ a f name = some ((a.region start true).draw name) :=
    pick?_eq_some_iff.mpr ⟨start, hstart, ⟨path, hpath, id, hid, hleft⟩, rfl⟩
  rw [hnone] at hpick
  cases hpick

/-- **Contraction only prunes a group.**  Where a graph is kept with contraction, one with the same
states and perhaps more is kept without.  Where one is kept only without, the paths share with it
none but states that contraction has taken away.  All else about the group is the same: its name,
its traces with their marks, and the reports. -/
theorem group_contracted (a : Automaton) (f : Finding) (reports : Diagnostics) :
    let whole := group ⟨false⟩ a f reports
    let contracted := group ⟨true⟩ a f reports
    whole.1.graphs = (picks ⟨false⟩ a f).reduceOption ∧
    contracted.1.graphs = (picks ⟨true⟩ a f).reduceOption ∧
    (∀ i : Nat, ∀ graph, (picks ⟨true⟩ a f)[i]? = some (some graph) →
      ∃ full, (picks ⟨false⟩ a f)[i]? = some (some full) ∧
        graph.nodes.map (·.state) ⊆ full.nodes.map (·.state)) ∧
    (∀ i : Nat, ∀ full, (picks ⟨false⟩ a f)[i]? = some (some full) →
      (picks ⟨true⟩ a f)[i]? = some none →
        ∃ start, f.rules[i]?.bind a.startState? = some start ∧
          ∀ path ∈ f.paths, ∀ id ∈ path, full.containsState id = true → a.Eliminated start id) ∧
    contracted.1.name = whole.1.name ∧ contracted.1.traces = whole.1.traces ∧
      contracted.2 = whole.2 := by
  refine ⟨graphs_group _ reports, graphs_group _ reports, fun i graph hi => ?_,
    fun i full hfull hnone => ?_, ?_⟩
  · obtain ⟨name, hname, hpick⟩ := getElem?_picks.mp hi
    obtain ⟨full, hfull, hsub⟩ := exists_pick?_of_contracted hpick
    exact ⟨full, getElem?_picks.mpr ⟨name, hname, hfull⟩, hsub.subset⟩
  · obtain ⟨name, hname, hpick⟩ := getElem?_picks.mp hfull
    obtain ⟨name', hname', hpick'⟩ := getElem?_picks.mp hnone
    obtain rfl : name = name' := Option.some.inj (hname.symm.trans hname')
    rw [hname]
    exact eliminated_of_pick?_eq_none hpick hpick'
  · rw [group_eq, group_eq]
    exact ⟨rfl, rfl, rfl⟩

/-- A path through nothing but states that pass on: its graph goes with contraction. -/
theorem group_contracted_of_passing_path :
    let a : Automaton := ⟨[⟨[⟨.epsilon, 1⟩], false⟩, ⟨[⟨.epsilon, 2⟩], false⟩,
      ⟨[⟨.symbol ['x'], 3⟩], false⟩, ⟨[⟨.epsilon, 4⟩], false⟩, ⟨[], true⟩], [(['r'], ⟨0, 4⟩)]⟩
    let f : Finding := { rules := [['q'], ['r']], paths := [[1, 3]] }
    (picks ⟨true⟩ a f)[1]? = some none ∧ ∃ full, (picks ⟨false⟩ a f)[1]? = some (some full) ∧
      full.containsState 3 = true ∧ ∃ start, a.startState? ['r'] = some start ∧
        a.Eliminated start 3 := by
  intro a f
  obtain ⟨-, -, -, hdropped, -⟩ := group_contracted a f []
  have hnone : (picks ⟨true⟩ a f)[1]? = some none := by decide
  have hfull : (picks ⟨false⟩ a f)[1]? = some (some ((a.region 0 false).draw ['r'])) := by decide
  obtain ⟨start, hstart, heliminated⟩ := hdropped 1 _ hfull hnone
  have hdrawn : ((a.region 0 false).draw ['r']).containsState 3 = true := by decide
  exact ⟨hnone, _, hfull, hdrawn, start, hstart,
    heliminated [1, 3] List.mem_cons_self 3 (by decide) hdrawn⟩

end AssemblyConfig
end GrammarAtlas
