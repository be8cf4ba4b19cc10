import GrammarAtlas.Proofs.Group.Stepping

/-!
# Stepping back

A walk around the circle of indices that is read from its end is the walk in the opposite
direction (`Direction.walk_opposite`).  Where one trace is visible alone and is enabled, both
walks meet this trace last, and the others in reversed order (`Shows.exists_met`).

A selection shows alone what its walk meets first.  From there the walk the other way comes to
what the first walk met last, and that is the trace which was visible before
(`Shows.select_opposite`).  As a selection again leaves one enabled trace visible alone, any
number of steps is undone by as many steps back (`restored_by_steps_back`).
-/

namespace GrammarAtlas

namespace Direction

variable {direction : Direction} {n i k : Nat}

/-- The direction that leads back. -/
def opposite : Direction → Direction
  | next => previous
  | previous => next

theorem step_opposite_step (hi : i < n) : direction.opposite.step n (direction.step n i) = i := by
  cases direction with
  | next => exact step_previous_step_next n i
  | previous =>
    show next.step n (previous.step n i) = i
    rw [step_next, step_previous]
    split <;> split <;> omega

theorem iterate_step_lt (hi : i < n) (k : Nat) : (direction.step n)^[k] i < n := by
  induction k with
  | zero => exact hi
  | succ k ih =>
    rw [Function.iterate_succ_apply']
    exact step_lt ih

/-- As many steps back as there were steps. -/
theorem iterate_opposite_iterate (hi : i < n) (k : Nat) :
    (direction.opposite.step n)^[k] ((direction.step n)^[k] i) = i := by
  induction k with
  | zero => rfl
  | succ k ih =>
    rw [Function.iterate_succ_apply, Function.iterate_succ_apply',
      step_opposite_step (iterate_step_lt hi k), ih]

/-- Some steps back are the steps that remain once around the circle. -/
theorem iterate_opposite (hi : i < n) (hk : k ≤ n) :
    (direction.opposite.step n)^[k] i = (direction.step n)^[n - k] i := by
  have hround : (direction.step n)^[k] ((direction.step n)^[n - k] i) = i := by
    rw [← Function.iterate_add_apply, Nat.add_sub_cancel' hk, iterate_step_self hi]
  calc (direction.opposite.step n)^[k] i
    _ = (direction.opposite.step n)^[k]
          ((direction.step n)^[k] ((direction.step n)^[n - k] i)) := by rw [hround]
    _ = (direction.step n)^[n - k] i := iterate_opposite_iterate (iterate_step_lt hi _) k

/-- **A walk read from its end is the walk in the opposite direction.** -/
theorem walk_opposite (hi : i < n) :
    direction.opposite.walk n (direction.opposite.step n i) = (direction.walk n i).reverse := by
  refine List.ext_getElem ?_ fun k hk _ => ?_
  · simp [walk]
  have hkn : k < n := by simpa [walk] using hk
  simp only [walk, List.getElem_reverse, List.getElem_iterate, List.length_iterate]
  rw [← Function.iterate_succ_apply, iterate_opposite hi hkn, Nat.sub_sub, Nat.add_comm]

end Direction

namespace GraphGroup

open Direction

variable {g : GraphGroup} {direction : Direction} {i j : Nat}

/-- One trace is visible alone, and it is enabled. -/
structure Shows (g : GraphGroup) (i : Nat) : Prop where
  visible : g.visibleIndices = [i]
  enabled : g.isEnabled i = true

/-! ## Showing one trace -/

theorem showOnly_showOnly (g : GraphGroup) (i j : Nat) :
    (g.showOnly i).showOnly j = g.showOnly j := by
  have htraces : ((g.showOnly i).showOnly j).traces = (g.showOnly j).traces := by
    simp only [showOnly, List.mapIdx_mapIdx]
    rfl
  exact congrArg (GraphGroup.mk g.name g.graphs) htraces

/-- Showing a trace that is visible alone changes nothing. -/
theorem showOnly_of_visibleIndices (h : g.visibleIndices = [i]) : g.showOnly i = g := by
  have htraces : (g.showOnly i).traces = g.traces := by
    refine List.ext_getElem? fun j => ?_
    rw [showOnly, List.getElem?_mapIdx]
    cases htrace : g.traces[j]? with
    | none => rfl
    | some t =>
      have hvisible : t.visible = true ↔ j = i := by
        rw [← List.mem_singleton (b := i), ← h, mem_visibleIndices, htrace]
        simp
      have hflag : (j == i) = t.visible := by
        rw [Bool.eq_iff_iff, beq_iff_eq, hvisible]
      rw [Option.map_some, hflag]
  exact congrArg (GraphGroup.mk g.name g.graphs) htraces

/-- A trace that is visible alone is the first visible one. -/
theorem firstVisible?_of_visibleIndices (h : g.visibleIndices = [i]) :
    g.firstVisible? = some i := by
  have hmem : i ∈ g.visibleIndices := h ▸ List.mem_singleton_self i
  obtain ⟨t, ht, -⟩ := mem_visibleIndices.mp hmem
  have hlt : i < g.traces.length := (List.getElem?_eq_some_iff.mp ht).1
  rw [← showOnly_of_visibleIndices h]
  exact firstVisible?_showOnly hlt

/-- A selection that tells an index shows the trace there. -/
theorem shows_of_select (h : (g.select direction).2 = some i) :
    (g.select direction).1.Shows i := by
  obtain ⟨hvisible, henabled⟩ := select_eq_some h
  exact ⟨hvisible, henabled⟩

/-! ## One step back -/

/-- **Walks in opposite directions** from a trace that is visible alone: both meet this trace
last, and the others in reversed order. -/
theorem Shows.exists_met (h : g.Shows i) (direction : Direction) :
    ∃ is, g.met direction = is ++ [i] ∧ g.met direction.opposite = is.reverse ++ [i] := by
  have hfirst := firstVisible?_of_visibleIndices h.visible
  have hlt := firstVisible?_lt hfirst
  -- the walk from the trace itself
  obtain ⟨js, hwalk⟩ : ∃ js, direction.walk g.traces.length i = i :: js := by
    obtain ⟨n, hn⟩ := Nat.exists_eq_add_one.mpr (Nat.zero_lt_of_lt hlt)
    rw [hn]
    exact ⟨_, rfl⟩
  refine ⟨js.filter g.isEnabled, ?_, ?_⟩
  · rw [met, outset, hfirst, walk_step hlt, hwalk, List.rotate_cons_succ, List.rotate_zero,
      List.filter_append, List.filter_cons_of_pos h.enabled, List.filter_nil]
  · rw [met, outset, hfirst, walk_opposite hlt, hwalk, List.reverse_cons, List.filter_append,
      List.filter_reverse, List.filter_cons_of_pos h.enabled, List.filter_nil]

/-- A selection from where a trace is shown finds one, and shows it. -/
theorem Shows.exists_select (h : g.Shows i) (direction : Direction) :
    ∃ j is, g.met direction = j :: is ∧ g.select direction = (g.showOnly j, some j) ∧
      (g.showOnly j).Shows j ∧ (g.showOnly j).met direction = is ++ [j] := by
  obtain ⟨ks, hmet, -⟩ := h.exists_met direction
  obtain ⟨j, is, hcons⟩ : ∃ j is, g.met direction = j :: is :=
    List.exists_cons_of_ne_nil (by simp [hmet])
  obtain ⟨hselect, hnext⟩ := select_of_met_cons hcons
  have hshows : (g.select direction).1.Shows j := shows_of_select (by rw [hselect])
  rw [hselect] at hshows
  exact ⟨j, is, hcons, hselect, hshows, hnext⟩

/-- **One step back.** -/
theorem Shows.select_opposite (h : g.Shows i) (direction : Direction) :
    (g.select direction).1.select direction.opposite = (g, some i) := by
  obtain ⟨ks, hmet, -⟩ := h.exists_met direction
  obtain ⟨j, is, hcons, hselect, hshows, hnext⟩ := h.exists_select direction
  obtain ⟨is', hmet', hopposite⟩ := hshows.exists_met direction
  -- what the walk back meets first is what the walk met last
  obtain rfl : is = is' := List.append_cancel_right (hnext.symm.trans hmet')
  have hback : (g.showOnly j).met direction.opposite = i :: ks.reverse := by
    rw [hopposite, ← List.reverse_cons, ← hcons, hmet, List.reverse_concat]
  obtain ⟨hselect', -⟩ := select_of_met_cons hback
  rw [hselect, hselect', showOnly_showOnly, showOnly_of_visibleIndices h.visible]

/-! ## Any number of steps -/

theorem run_append (g : GraphGroup) (ops ops' : List Operation) :
    g.run (ops ++ ops') = (g.run ops).run ops' := List.foldl_append

/-- Steps in a direction, one after the other. -/
theorem run_replicate_succ (g : GraphGroup) (direction : Direction) (k : Nat) :
    g.run (List.replicate (k + 1) (.select direction)) =
      (g.select direction).1.run (List.replicate k (.select direction)) := rfl

/-- **Steps back undo steps.**  Where one trace is visible alone and is enabled, a selection and
then a selection the other way tell the index of this trace and leave the group as it was; and so
do any number of selections and as many the other way. -/
theorem restored_by_steps_back (h : g.Shows i) (direction : Direction) :
    (g.select direction).1.select direction.opposite = (g, some i) ∧
      ∀ k, g.run (List.replicate k (.select direction) ++
        List.replicate k (.select direction.opposite)) = g := by
  refine ⟨h.select_opposite direction, fun k => ?_⟩
  rw [run_append]
  induction k generalizing g i with
  | zero => rfl
  | succ k ih =>
    obtain ⟨j, -, -, hselect, hshows, -⟩ := h.exists_select direction
    have hback := h.select_opposite direction
    rw [hselect] at hback
    rw [run_replicate_succ g, hselect, List.replicate_succ', run_append, ih hshows]
    exact congrArg Prod.fst hback

/-- Of five traces the third is visible, and the first, the third and the last are enabled. -/
theorem restored_by_steps_back_of_five :
    let g : GraphGroup := { traces := [⟨[], true, false⟩, ⟨[], false, false⟩, ⟨[], true, true⟩,
      ⟨[], false, false⟩, ⟨[], true, false⟩] }
    g.Shows 2 ∧ (g.select .next).2 = some 4 ∧ (g.select .previous).2 = some 0 ∧
      (g.select .previous).1.select .next = (g, some 2) ∧
      (g.select .next).1.select .previous = (g, some 2) ∧
      ∀ k,
        g.run (List.replicate k (.select .next) ++ List.replicate k (.select .previous)) = g := by
  intro g
  have hshows : g.Shows 2 := ⟨by decide, by decide⟩
  obtain ⟨hback, -⟩ := restored_by_steps_back hshows .previous
  exact ⟨hshows, by decide, by decide, hback, restored_by_steps_back hshows .next⟩

end GraphGroup
end GrammarAtlas
