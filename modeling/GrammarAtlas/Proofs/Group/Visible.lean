import GrammarAtlas.Proofs.Group.Assembly

/-!
# At most one trace is shown

A group is worked with by adding graphs and traces, by switching traces on and off, and by
showing, hiding and selecting them.  Only two of these show a trace without hiding the others:
showing all, and showing one by its index (`Operation.reveals`).  No other operation makes two
traces visible where there was one at most (`visibleCount_apply_le_one`), and a selection that
finds a trace leaves this one alone visible, whatever was visible before (`select_eq_some`).

So at most one trace of a finding's group is shown, until others are revealed, and then again from
the next selection on that finds one (`AssemblyConfig.visibleCount_group_le_one`).
-/

namespace GrammarAtlas

/-- Where a selection looks for the trace to show. -/
inductive Direction where
  | next
  | previous
  deriving DecidableEq, Repr

/-- One operation on a group. -/
inductive Operation where
  | addGraph (graph : Graph)
  | addTrace (states : List StateId) (disabled : Bool)
  | select (direction : Direction)
  | toggleEnabled (i : Nat)
  | setVisible (i : Nat) (value : Bool)
  | hideAll
  | showAll
  deriving DecidableEq, Repr

namespace GraphGroup

/-- The selection in a direction. -/
def select (g : GraphGroup) : Direction → GraphGroup × Option Nat
  | .next => g.selectNext
  | .previous => g.selectPrevious

end GraphGroup

namespace Operation

/-- The group behind the operation.  An index without a trace changes nothing. -/
def apply (g : GraphGroup) : Operation → GraphGroup
  | addGraph graph => g.addGraph graph
  | addTrace states disabled => g.addTrace states disabled
  | select direction => (g.select direction).1
  | toggleEnabled i => ((g.toggleEnabled? i).map (·.1)).getD g
  | setVisible i value => (g.setVisible? i value).getD g
  | hideAll => g.hideAll
  | showAll => g.showAll

/-- Whether the operation shows traces and leaves the others as they are. -/
def reveals : Operation → Bool
  | setVisible _ value => value
  | showAll => true
  | _ => false

end Operation

namespace GraphGroup

variable {g : GraphGroup} {i j : Nat} {direction : Direction} {op : Operation}
  {ops : List Operation}

/-- The group behind some operations. -/
def run (g : GraphGroup) (ops : List Operation) : GraphGroup := ops.foldl Operation.apply g

/-! ## The visible traces -/

theorem mem_visibleIndices : i ∈ g.visibleIndices ↔
    ∃ t, g.traces[i]? = some t ∧ t.visible = true := by
  simp only [visibleIndices, List.mem_map, List.mem_filter, List.mk_mem_zipIdx_iff_getElem?,
    Prod.exists]
  constructor
  · rintro ⟨t, k, ⟨ht, hvisible⟩, rfl⟩
    exact ⟨t, ht, hvisible⟩
  · rintro ⟨t, ht, hvisible⟩
    exact ⟨t, i, ⟨ht, hvisible⟩, rfl⟩

theorem nodup_visibleIndices (g : GraphGroup) : g.visibleIndices.Nodup := by
  refine (List.filter_sublist.map _).nodup ?_
  rw [List.zipIdx_map_snd]
  exact List.nodup_range'

theorem length_visibleIndices (g : GraphGroup) : g.visibleIndices.length = g.visibleCount := by
  rw [visibleIndices, List.length_map, ← List.countP_eq_length_filter, visibleCount]
  conv_rhs => rw [← List.zipIdx_map_fst 0 g.traces, List.countP_map]
  rfl

/-- If nothing but one trace can be visible, no two are. -/
theorem visibleCount_le_one_of_forall (h : ∀ j ∈ g.visibleIndices, j = i) : g.visibleCount ≤ 1 := by
  rw [← length_visibleIndices]
  have hsubset : g.visibleIndices ⊆ [i] := fun j hj => List.mem_singleton.mpr (h j hj)
  exact (g.nodup_visibleIndices.subperm hsubset).length_le

theorem mem_visibleIndices_showOnly :
    j ∈ (g.showOnly i).visibleIndices ↔ j = i ∧ i < g.traces.length := by
  rw [mem_visibleIndices, showOnly]
  simp only [List.getElem?_mapIdx, Option.map_eq_some_iff]
  constructor
  · rintro ⟨_, ⟨t, ht, rfl⟩, hvisible⟩
    obtain rfl : j = i := eq_of_beq hvisible
    exact ⟨rfl, (List.getElem?_eq_some_iff.mp ht).1⟩
  · rintro ⟨rfl, hlt⟩
    exact ⟨_, ⟨g.traces[j], List.getElem?_eq_getElem hlt, rfl⟩, beq_self_eq_true j⟩

theorem visibleIndices_showOnly (h : i < g.traces.length) :
    (g.showOnly i).visibleIndices = [i] := by
  refine List.perm_singleton.mp
    ((List.perm_ext_iff_of_nodup (nodup_visibleIndices _) (List.nodup_singleton i)).mpr fun j => ?_)
  rw [mem_visibleIndices_showOnly, List.mem_singleton, and_iff_left h]

theorem visibleCount_showOnly_le_one (g : GraphGroup) (i : Nat) : (g.showOnly i).visibleCount ≤ 1 :=
  visibleCount_le_one_of_forall fun _ hj => (mem_visibleIndices_showOnly.mp hj).1

/-! ## Selections -/

theorem isEnabled_showOnly (g : GraphGroup) (i j : Nat) :
    (g.showOnly i).isEnabled j = g.isEnabled j := by
  rw [isEnabled, showOnly, List.getElem?_mapIdx, Option.map_map, isEnabled]
  rfl

theorem lt_of_isEnabled (h : g.isEnabled i = true) : i < g.traces.length := by
  by_contra hge
  rw [isEnabled, List.getElem?_eq_none (Nat.le_of_not_lt hge)] at h
  cases h

/-- A selection shows an enabled trace alone, or it finds none and changes nothing. -/
theorem select_cases (g : GraphGroup) (direction : Direction) :
    g.select direction = (g, none) ∨
      ∃ i, g.isEnabled i = true ∧ g.select direction = (g.showOnly i, some i) := by
  have hfirst (candidates : List Nat) : g.selectFirst candidates = (g, none) ∨
      ∃ i, g.isEnabled i = true ∧ g.selectFirst candidates = (g.showOnly i, some i) := by
    rw [selectFirst]
    cases hfind : candidates.find? g.isEnabled with
    | none => exact .inl rfl
    | some i => exact .inr ⟨i, List.find?_some hfind, rfl⟩
  cases direction <;> exact hfirst _

/-- **A selection that finds a trace shows it alone**, and the trace is enabled. -/
theorem select_eq_some (h : (g.select direction).2 = some i) :
    (g.select direction).1.visibleIndices = [i] ∧ (g.select direction).1.isEnabled i = true := by
  rcases g.select_cases direction with heq | ⟨j, henabled, heq⟩
  · rw [heq] at h
    cases h
  · rw [heq] at h ⊢
    obtain rfl : j = i := Option.some.inj h
    exact ⟨visibleIndices_showOnly (lt_of_isEnabled henabled),
      (g.isEnabled_showOnly j j).trans henabled⟩

/-! ## Operations -/

/-- Changing one element so that it does not come to satisfy a predicate does not add to those
that do. -/
theorem countP_modify_le {α : Type} {p : α → Bool} {f : α → α}
    (hf : ∀ x, p (f x) = true → p x = true) (l : List α) (i : Nat) :
    (l.modify i f).countP p ≤ l.countP p := by
  induction l generalizing i with
  | nil => rw [List.modify_nil]
  | cons x l ih =>
    cases i with
    | zero =>
      rw [List.modify_zero_cons, List.countP_cons, List.countP_cons]
      have hx := hf x
      split <;> split <;> simp_all
    | succ i =>
      rw [List.modify_succ_cons, List.countP_cons, List.countP_cons]
      exact Nat.add_le_add_right (ih i) _

theorem visibleCount_modify_le {f : Trace → Trace}
    (hf : ∀ t, (f t).visible = true → t.visible = true) (g : GraphGroup) (i : Nat) :
    { g with traces := g.traces.modify i f }.visibleCount ≤ g.visibleCount :=
  countP_modify_le (p := Trace.visible) hf g.traces i

/-- **One operation**: if it reveals nothing, at most one trace stays visible. -/
theorem visibleCount_apply_le_one (h : g.visibleCount ≤ 1) (hop : op.reveals = false) :
    (op.apply g).visibleCount ≤ 1 := by
  cases op with
  | addGraph graph => exact h
  | addTrace states disabled =>
    rw [Operation.apply, addTrace, visibleCount, List.countP_append]
    exact h
  | select direction =>
    show (g.select direction).1.visibleCount ≤ 1
    rcases g.select_cases direction with heq | ⟨i, -, heq⟩
    · rwa [heq]
    · rw [heq]
      exact visibleCount_showOnly_le_one g i
  | toggleEnabled i =>
    rw [Operation.apply, toggleEnabled?]
    cases g.traces[i]? with
    | none => exact h
    | some t =>
      have hle := visibleCount_modify_le (f := fun t => { t with enabled := !t.enabled })
        (fun _ ht => ht) g i
      exact hle.trans h
  | setVisible i value =>
    obtain rfl : value = false := hop
    rw [Operation.apply, setVisible?]
    split
    · exact (visibleCount_modify_le (fun _ ht => absurd ht Bool.false_ne_true) g i).trans h
    · exact h
  | hideAll =>
    have hnone : g.hideAll.visibleCount = 0 := by
      simp [hideAll, visibleCount]
    exact hnone.trans_le (Nat.zero_le 1)
  | showAll => cases hop

/-- **A run of operations** that reveal nothing leaves at most one trace visible. -/
theorem visibleCount_run_le_one (h : g.visibleCount ≤ 1) (hops : ∀ op ∈ ops, op.reveals = false) :
    (g.run ops).visibleCount ≤ 1 := by
  induction ops generalizing g with
  | nil => exact h
  | cons op ops ih =>
    obtain ⟨hop, hops⟩ := List.forall_mem_cons.mp hops
    exact ih (visibleCount_apply_le_one h hop) hops

end GraphGroup

namespace AssemblyConfig

open GraphGroup

/-- No trace but the first is visible in the group of a finding. -/
theorem visibleCount_group (c : AssemblyConfig) (a : Automaton) (f : Finding)
    (reports : Diagnostics) : (c.group a f reports).1.visibleCount ≤ 1 := by
  refine visibleCount_le_one_of_forall (i := 0) fun j hj => ?_
  rw [group_eq, mem_visibleIndices] at hj
  obtain ⟨t, ht, hvisible⟩ := hj
  rw [Finding.traces, List.getElem?_mapIdx, Option.map_eq_some_iff] at ht
  obtain ⟨states, -, rfl⟩ := ht
  exact of_decide_eq_true hvisible

/-- **At most one trace is shown.**  Whatever is done to the group of a finding, as long as nothing
is revealed, no two traces are visible.  Whatever was done, a selection that tells an index leaves
the trace there as the one that is visible, and this trace is enabled; from then on, no two are
visible as long as nothing is revealed. -/
theorem visibleCount_group_le_one (c : AssemblyConfig) (a : Automaton) (f : Finding)
    (reports : Diagnostics) (ops : List Operation) :
    ((∀ op ∈ ops, op.reveals = false) →
      ((c.group a f reports).1.run ops).visibleCount ≤ 1) ∧
    ∀ direction i, (((c.group a f reports).1.run ops).select direction).2 = some i →
      (((c.group a f reports).1.run ops).select direction).1.visibleIndices = [i] ∧
      (((c.group a f reports).1.run ops).select direction).1.isEnabled i = true ∧
      ∀ more : List Operation, (∀ op ∈ more, op.reveals = false) →
        ((((c.group a f reports).1.run ops).select direction).1.run more).visibleCount ≤ 1 := by
  refine ⟨visibleCount_run_le_one (visibleCount_group c a f reports), fun direction i hselect => ?_⟩
  obtain ⟨hvisible, henabled⟩ := select_eq_some hselect
  refine ⟨hvisible, henabled, fun more hmore => visibleCount_run_le_one ?_ hmore⟩
  rw [← length_visibleIndices, hvisible, List.length_singleton]

/-- Three paths, of which the first is switched off: all are shown, and then a selection shows one
again. -/
theorem visibleCount_group_le_one_of_showAll :
    let f : Finding := { paths := [[0], [1], [2]], pathsDisabled := [true] }
    let g := (group {} {} f []).1
    (g.run [.select .previous, .toggleEnabled 1]).visibleCount ≤ 1 ∧
    (g.run [.select .previous, .toggleEnabled 1, .showAll]).visibleCount = 3 ∧
    ((g.run [.select .previous, .toggleEnabled 1, .showAll]).select .next).2 = some 2 ∧
    ((g.run [.select .previous, .toggleEnabled 1, .showAll]).select .next).1.visibleIndices = [2] ∧
    (((g.run [.select .previous, .toggleEnabled 1, .showAll]).select .next).1.run
      [.addTrace [3] false, .setVisible 2 false]).visibleCount ≤ 1 := by
  intro f g
  obtain ⟨hquiet, -⟩ := visibleCount_group_le_one {} {} f [] [.select .previous, .toggleEnabled 1]
  obtain ⟨-, hselected⟩ :=
    visibleCount_group_le_one {} {} f [] [.select .previous, .toggleEnabled 1, .showAll]
  have hselect : ((g.run [.select .previous, .toggleEnabled 1, .showAll]).select .next).2 =
    some 2 := by decide
  obtain ⟨hvisible, -, hmore⟩ := hselected .next 2 hselect
  exact ⟨hquiet (by decide), by decide, hselect, hvisible, hmore _ (by decide)⟩

end AssemblyConfig
end GrammarAtlas
