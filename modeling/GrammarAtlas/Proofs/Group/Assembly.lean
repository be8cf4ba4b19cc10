import GrammarAtlas.Group.Assembly
import GrammarAtlas.Proofs.Graph.Drawing

/-!
# What is in the group of a finding

The group of a finding is put together name by name and path by path, with the reports passed on
from one step to the next.  Here it is told without the steps (`group_eq`).  What becomes of a
name depends on no other name and on no report (`pick?`): its graph is in the group if the name
has an automaton and a path of the finding touches the states that are built of it.  So a name
without an automaton costs a report, and nothing else (`group_assembled`).
-/

namespace GrammarAtlas

/-- Some path of the finding has a state of the region. -/
def Finding.Touches (f : Finding) (g : Region) : Prop := ∃ path ∈ f.paths, ∃ id ∈ path, id ∈ g.ids

instance (f : Finding) (g : Region) : Decidable (f.Touches g) :=
  inferInstanceAs (Decidable (∃ path ∈ f.paths, ∃ id ∈ path, id ∈ g.ids))

/-- A drawing contains a state of a path just when its region is touched. -/
theorem Region.any_containsAny_draw (g : Region) (f : Finding) (name : Text) :
    f.paths.any (g.draw name).containsAny = decide (f.Touches g) := by
  refine Bool.eq_iff_iff.mpr ?_
  simp only [Graph.containsAny, List.any_eq_true, containsState_draw, decide_eq_true_eq]
  rfl

/-- The paths of the finding as they are shown first. -/
def Finding.traces (f : Finding) : List Trace :=
  f.paths.mapIdx fun i states => ⟨states, decide (f.pathsDisabled[i]? ≠ some true), decide (i = 0)⟩

/-- The report on a name that has no automaton. -/
def Diagnostic.unresolved (name : Text) : Diagnostic := .report .unresolvedRule none (some name)

namespace GraphGroup

/-- Adding traces one after the other puts them behind those of the group, hidden. -/
theorem foldl_addTrace (disabled : Nat → Bool) (paths : List (List StateId × Nat))
    (g : GraphGroup) :
    paths.foldl (fun g (path, i) => g.addTrace path (disabled i)) g =
      { g with traces := g.traces ++ paths.map fun (path, i) => ⟨path, !disabled i, false⟩ } := by
  induction paths generalizing g with
  | nil => rw [List.foldl_nil, List.map_nil, List.append_nil]
  | cons p paths ih =>
    rw [List.foldl_cons, ih, List.map_cons]
    simp only [addTrace, List.append_assoc, List.singleton_append]

end GraphGroup

namespace AssemblyConfig

variable (c : AssemblyConfig) (a : Automaton) (f : Finding)

/-- The graph that a group has for a name, if it has one. -/
def pick? (name : Text) : Option Graph :=
  (a.startState? name).bind fun start =>
    if f.Touches (a.region start c.optimize) then some ((a.region start c.optimize).draw name)
    else none

variable {c a f} {name : Text}

theorem pick?_eq_some_iff {graph : Graph} : c.pick? a f name = some graph ↔
    ∃ start, a.startState? name = some start ∧ f.Touches (a.region start c.optimize) ∧
      (a.region start c.optimize).draw name = graph := by
  simp only [pick?, Option.bind_eq_some_iff, Option.ite_none_right_eq_some, Option.some.injEq]

/-- **One name**: its graph is added if it is picked, and a report if it has no automaton. -/
theorem addRule_eq (made : GraphGroup × Diagnostics) (name : Text) :
    c.addRule a f.paths made name =
      ({ made.1 with graphs := made.1.graphs ++ (c.pick? a f name).toList },
        made.2 ++ if a.startState? name = none then [.unresolved name] else []) := by
  rw [addRule, graph?, pick?]
  cases a.startState? name with
  | none => simp [Diagnostic.unresolved]
  | some start =>
    simp only [Region.any_containsAny_draw, Option.bind_some]
    by_cases htouched : f.Touches (a.region start c.optimize)
    · simp [htouched, GraphGroup.addGraph]
    · simp [htouched]

theorem foldl_addRule (names : List Text) (made : GraphGroup × Diagnostics) :
    names.foldl (c.addRule a f.paths) made =
      ({ made.1 with graphs := made.1.graphs ++ names.filterMap (c.pick? a f) },
        made.2 ++ (names.filter (a.startState? · = none)).map .unresolved) := by
  induction names generalizing made with
  | nil => simp
  | cons name names ih =>
    rw [List.foldl_cons, ih, addRule_eq]
    refine Prod.ext ?_ ?_
    · cases hpick : c.pick? a f name <;> simp [hpick]
    · by_cases hnone : a.startState? name = none <;> simp [hnone]

/-- Showing the first trace gives it the mark that it has in the group. -/
theorem modify_eq_traces : ((f.paths.zipIdx.map fun (path, i) =>
      (⟨path, !f.isPathDisabled i, false⟩ : Trace)).modify 0 fun t => { t with visible := true }) =
    f.traces := by
  have henabled (i : Nat) : (!f.isPathDisabled i) = decide (f.pathsDisabled[i]? ≠ some true) := by
    rw [Finding.isPathDisabled]
    rcases f.pathsDisabled[i]? with _ | _ | _ <;> rfl
  refine List.ext_getElem? fun i => ?_
  rw [List.getElem?_modify, List.getElem?_map, List.getElem?_zipIdx, Finding.traces,
    List.getElem?_mapIdx]
  cases f.paths[i]? with
  | none => rfl
  | some path => cases i <;> simp [henabled]

/-- **The group of a finding and the reports on it**, without the steps. -/
theorem group_eq (c : AssemblyConfig) (a : Automaton) (f : Finding) (reports : Diagnostics) :
    c.group a f reports =
      (⟨f.message, f.rules.filterMap (c.pick? a f), f.traces⟩,
        reports ++ (f.rules.filter (a.startState? · = none)).map .unresolved ++
          if f.paths = [] then [.report .emptyDiagnosticPath none (some f.message)] else []) := by
  rw [group, foldl_addRule, GraphGroup.foldl_addTrace, List.nil_append, List.nil_append]
  simp only [GraphGroup.setVisible?, List.length_map, List.length_zipIdx, modify_eq_traces]
  by_cases hpaths : f.paths = []
  · simp [hpaths, Finding.traces]
  · rw [if_pos (List.length_pos_iff.mpr hpaths), if_neg hpaths, List.append_nil]

/-- **The group of a finding is assembled as it should be**, and a name without an automaton does
not matter to the rest.  The graphs are, in the order of the names, those of the names that have an
automaton and of whose region a path has a state.  The traces are the paths, each enabled unless it
is switched off, and the first one visible.  Behind the earlier reports there is one for each name
without an automaton, and one more if there are no paths.  Without these names the group would be
the same. -/
theorem group_assembled (c : AssemblyConfig) (a : Automaton) (f : Finding) (reports : Diagnostics) :
    (c.group a f reports).1.name = f.message ∧
    (c.group a f reports).1.graphs = f.rules.filterMap (fun name =>
      (a.startState? name).bind fun start =>
        if ∃ path ∈ f.paths, ∃ id ∈ path, id ∈ (a.region start c.optimize).ids then
          some ((a.region start c.optimize).draw name)
        else none) ∧
    (c.group a f reports).1.traces = f.paths.mapIdx (fun i states =>
      { states, enabled := decide (f.pathsDisabled[i]? ≠ some true), visible := decide (i = 0) }) ∧
    (c.group a f reports).2 = reports ++
      (f.rules.filter (a.startState? · = none)).map
        (fun name => .report .unresolvedRule none (some name)) ++
      (if f.paths = [] then [.report .emptyDiagnosticPath none (some f.message)] else []) ∧
    ∀ others, (c.group a { f with rules := f.rules.filter (a.startState? · ≠ none) } others).1 =
      (c.group a f reports).1 := by
  rw [group_eq]
  refine ⟨rfl, rfl, rfl, rfl, fun others => ?_⟩
  rw [group_eq]
  refine congrArg (GraphGroup.mk f.message · f.traces) ?_
  show (f.rules.filter (a.startState? · ≠ none)).filterMap (c.pick? a f) = _
  rw [List.filterMap_filter]
  refine List.filterMap_congr fun name _ => ?_
  cases hstart : a.startState? name <;> simp [pick?, hstart]

end AssemblyConfig
end GrammarAtlas
