import Mathlib.Data.List.Iterate
import Mathlib.Data.List.Rotate
import GrammarAtlas.Proofs.Group.Visible

/-!
# Stepping through the enabled traces

The indices of a group's traces lie on a circle.  A selection walks once around it, index by
index, from behind the first visible trace, and shows the first enabled trace that it comes to
(`select_of_met_cons`).  What it has found becomes the first visible trace, so the next walk
begins behind it: the enabled indices are met in the same order, but the one that was found is
now the last of them.

So a list of what a walk meets is taken off from the front and put on again at the back, and as
many selections as there are enabled traces find each of them once
(`stepsThrough_enabledIndices`).
-/

namespace GrammarAtlas

/-! ## The circle of indices -/

namespace Direction

variable {direction : Direction} {n i k : Nat}

/-- The index next to another one on the circle of `n` indices. -/
def step (n : Nat) : Direction → Nat → Nat
  | next, i => if i + 1 = n then 0 else i + 1
  | previous, i => if i = 0 then n - 1 else i - 1

/-- The index at which a walk begins when no trace is visible. -/
def outset (n : Nat) : Direction → Nat
  | next => 0
  | previous => n - 1

/-- Increasing indices in the order of the direction. -/
def arrange (is : List Nat) : Direction → List Nat
  | next => is
  | previous => is.reverse

@[simp] theorem outset_next (n : Nat) : next.outset n = 0 := rfl

@[simp] theorem outset_previous (n : Nat) : previous.outset n = n - 1 := rfl

@[simp] theorem arrange_next (is : List Nat) : next.arrange is = is := rfl

@[simp] theorem arrange_previous (is : List Nat) : previous.arrange is = is.reverse := rfl

@[simp] theorem step_next (n i : Nat) : next.step n i = if i + 1 = n then 0 else i + 1 := rfl

@[simp] theorem step_previous (n i : Nat) :
    previous.step n i = if i = 0 then n - 1 else i - 1 := rfl

theorem step_lt (hi : i < n) : direction.step n i < n := by
  cases direction
  · rw [step_next]
    split <;> omega
  · rw [step_previous]
    split <;> omega

theorem step_next_mod (hn : 0 < n) (i : Nat) : next.step n (i % n) = (i + 1) % n := by
  have hlt : i % n < n := Nat.mod_lt i hn
  rw [step_next, ← Nat.mod_add_mod i n 1]
  split
  · rename_i hlast
    rw [hlast, Nat.mod_self]
  · exact (Nat.mod_eq_of_lt (by omega)).symm

/-- A step back undoes a step forward. -/
theorem step_previous_step_next (n i : Nat) : previous.step n (next.step n i) = i := by
  rw [step_next, step_previous]
  split <;> split <;> omega

theorem iterate_step_next (hi : i < n) (k : Nat) : (next.step n)^[k] i = (i + k) % n := by
  induction k with
  | zero => exact (Nat.mod_eq_of_lt hi).symm
  | succ k ih =>
    rw [Function.iterate_succ_apply', ih, step_next_mod (Nat.zero_lt_of_lt hi), Nat.add_assoc]

theorem iterate_step_previous (hi : i < n) (hk : k ≤ n) :
    (previous.step n)^[k] i = (i + n - k) % n := by
  induction k with
  | zero => exact ((Nat.add_mod_right i n).trans (Nat.mod_eq_of_lt hi)).symm
  | succ k ih =>
    have hn : 0 < n := Nat.zero_lt_of_lt hi
    have hfront : i + n - k = i + n - (k + 1) + 1 := by omega
    rw [Function.iterate_succ_apply', ih (Nat.le_of_succ_le hk), hfront, ← step_next_mod hn,
      step_previous_step_next]

/-- Once around the circle. -/
theorem iterate_step_self (hi : i < n) : (direction.step n)^[n] i = i := by
  cases direction with
  | next => rw [iterate_step_next hi, Nat.add_mod_right, Nat.mod_eq_of_lt hi]
  | previous =>
    rw [iterate_step_previous hi (Nat.le_refl n), Nat.add_sub_cancel, Nat.mod_eq_of_lt hi]

/-- The walk around the circle from an index. -/
def walk (n : Nat) (direction : Direction) (i : Nat) : List Nat :=
  List.iterate (direction.step n) i n

theorem walk_step (hi : i < n) :
    direction.walk n (direction.step n i) = (direction.walk n i).rotate 1 := by
  cases n with
  | zero => exact absurd hi (Nat.not_lt_zero i)
  | succ n =>
    have hround : (direction.step (n + 1))^[n] (direction.step (n + 1) i) = i :=
      iterate_step_self hi
    show List.iterate _ _ (n + 1) = (i :: List.iterate _ _ n).rotate 1
    rw [List.iterate_add, hround, List.rotate_cons_succ, List.rotate_zero]
    rfl

/-- A walk that begins later meets the same indices, those in front behind the others. -/
theorem walk_iterate (hi : i < n) (k : Nat) :
    direction.walk n ((direction.step n)^[k] i) = (direction.walk n i).rotate k := by
  induction k generalizing i with
  | zero => rw [List.rotate_zero]; rfl
  | succ k ih =>
    rw [Function.iterate_succ_apply, ih (step_lt hi), walk_step hi, List.rotate_rotate,
      Nat.add_comm 1 k]

/-- **A walk from behind an index that another walk meets.** -/
theorem walk_behind {j : Nat} {as bs : List Nat} (hi : i < n)
    (h : direction.walk n i = as ++ j :: bs) :
    direction.walk n (direction.step n j) = bs ++ (as ++ [j]) := by
  have hj : (direction.step n)^[as.length] i = j := by
    have hget : (direction.walk n i)[as.length]? = some j := by simp [h]
    have hlt : as.length < n := by
      have hlength := congrArg List.length h
      simp only [walk, List.length_iterate, List.length_append, List.length_cons] at hlength
      omega
    rw [walk, List.getElem?_iterate _ _ _ _ hlt] at hget
    exact Option.some.inj hget
  have hrotate := List.rotate_append_length_eq (as ++ [j]) bs
  calc direction.walk n (direction.step n j)
    _ = direction.walk n ((direction.step n)^[as.length + 1] i) := by
        rw [Function.iterate_succ_apply', hj]
    _ = (as ++ j :: bs).rotate (as.length + 1) := by rw [walk_iterate hi, h]
    _ = bs ++ (as ++ [j]) := by simpa using hrotate

/-- The walk from the first index in the direction is through all of them in order. -/
theorem walk_outset (n : Nat) (direction : Direction) :
    direction.walk n (direction.outset n) = direction.arrange (List.range n) := by
  refine List.ext_getElem ?_ fun k hk hk' => ?_
  · cases direction <;> simp [walk]
  have hkn : k < n := by simpa [walk] using hk
  simp only [walk, List.getElem_iterate]
  cases direction with
  | next =>
    simp only [outset_next, arrange_next, List.getElem_range]
    rw [iterate_step_next (Nat.zero_lt_of_lt hkn), Nat.zero_add, Nat.mod_eq_of_lt hkn]
  | previous =>
    have hlast : n - 1 < n := by omega
    have hindex : n - 1 + n - k = n - 1 - k + n := by omega
    simp only [outset_previous, arrange_previous, List.getElem_reverse, List.getElem_range,
      List.length_range]
    rw [iterate_step_previous hlast (Nat.le_of_lt hkn), hindex, Nat.add_mod_right,
      Nat.mod_eq_of_lt (by omega)]

/-- **Every walk is once around the circle.** -/
theorem isRotated_walk (hi : i < n) :
    (direction.walk n i).IsRotated (direction.arrange (List.range n)) := by
  have hmem : i ∈ direction.arrange (List.range n) := by
    cases direction <;> simpa using hi
  rw [← walk_outset, walk, List.mem_iterate] at hmem
  obtain ⟨k, -, rfl⟩ := hmem
  have houtset : direction.outset n < n := by
    cases direction
    · exact Nat.zero_lt_of_lt hi
    · exact Nat.sub_lt (Nat.zero_lt_of_lt hi) Nat.zero_lt_one
  rw [walk_iterate houtset, walk_outset]
  exact .forall _ k

end Direction

/-- Filtering keeps what is a rotation of what. -/
theorem isRotated_filter {α : Type} {l l' : List α} (h : l.IsRotated l') (p : α → Bool) :
    (l.filter p).IsRotated (l'.filter p) := by
  obtain ⟨k, hk, rfl⟩ := List.isRotated_iff_mod.mp h
  have hparts : l.filter p = (l.take k).filter p ++ (l.drop k).filter p := by
    rw [← List.filter_append, List.take_append_drop]
  rw [List.rotate_eq_drop_append_take hk, List.filter_append, hparts]
  exact List.isRotated_append

namespace GraphGroup

open Direction

variable {g : GraphGroup} {direction : Direction} {i : Nat} {is js : List Nat}

/-! ## What a walk meets -/

/-- The indices of the enabled traces. -/
def enabledIndices (g : GraphGroup) : List Nat := (List.range g.traces.length).filter g.isEnabled

/-- Where a selection begins to look: behind the first visible trace. -/
def outset (g : GraphGroup) (direction : Direction) : Nat :=
  match g.firstVisible? with
  | some i => direction.step g.traces.length i
  | none => direction.outset g.traces.length

/-- The indices of the enabled traces in the order in which a selection would come to them. -/
def met (g : GraphGroup) (direction : Direction) : List Nat :=
  (direction.walk g.traces.length (g.outset direction)).filter g.isEnabled

/-- What some selections in a direction tell, one after the other. -/
def selections (g : GraphGroup) (direction : Direction) : Nat → List (Option Nat)
  | 0 => []
  | k + 1 => (g.select direction).2 :: (g.select direction).1.selections direction k

theorem firstVisible?_lt (h : g.firstVisible? = some i) : i < g.traces.length := by
  obtain ⟨hi, -⟩ := List.findIdx?_eq_some_iff_getElem.mp h
  exact hi

theorem outset_lt (direction : Direction) (h : g.traces ≠ []) :
    g.outset direction < g.traces.length := by
  have hlength : 0 < g.traces.length := List.length_pos_iff.mpr h
  unfold outset
  split
  · rename_i i hi
    exact step_lt (firstVisible?_lt hi)
  · cases direction
    · exact hlength
    · exact Nat.sub_lt hlength Nat.zero_lt_one

theorem forward_eq_walk {n i : Nat} (hi : i < n) : forward n i = next.walk n (next.step n i) := by
  rw [forward, walk, ← List.range_map_iterate]
  refine List.map_congr_left fun k _ => ?_
  rw [← Function.iterate_succ_apply, iterate_step_next hi]

theorem backward_eq_walk {n i : Nat} (hi : i < n) :
    backward n i = previous.walk n (previous.step n i) := by
  rw [backward, walk, ← List.range_map_iterate]
  refine List.map_congr_left fun k hk => ?_
  rw [← Function.iterate_succ_apply, iterate_step_previous hi (List.mem_range.mp hk)]

/-- **A selection takes the first enabled trace of a walk.** -/
theorem select_eq_selectFirst (g : GraphGroup) (direction : Direction) :
    g.select direction = g.selectFirst (direction.walk g.traces.length (g.outset direction)) := by
  by_cases hempty : g.traces = []
  · cases direction <;> simp [select, selectNext, selectPrevious, forward, backward, walk, hempty]
  have hlength : 0 < g.traces.length := List.length_pos_iff.mpr hempty
  cases direction with
  | next =>
    show g.selectFirst (forward g.traces.length (g.firstVisible?.getD (g.traces.length - 1))) = _
    unfold outset
    cases hvisible : g.firstVisible? with
    | some i => rw [Option.getD_some, forward_eq_walk (firstVisible?_lt hvisible)]
    | none =>
      have hlast : next.step g.traces.length (g.traces.length - 1) = 0 := by simp; omega
      rw [Option.getD_none, forward_eq_walk (Nat.sub_lt hlength Nat.zero_lt_one), hlast]
      rfl
  | previous =>
    show g.selectFirst (backward g.traces.length (g.firstVisible?.getD 0)) = _
    unfold outset
    cases hvisible : g.firstVisible? with
    | some i => rw [Option.getD_some, backward_eq_walk (firstVisible?_lt hvisible)]
    | none => rw [Option.getD_none, backward_eq_walk hlength]; rfl

/-- What a walk meets are the enabled indices, going around the circle. -/
theorem isRotated_met (g : GraphGroup) (direction : Direction) :
    (g.met direction).IsRotated (direction.arrange g.enabledIndices) := by
  have harrange : (direction.arrange (List.range g.traces.length)).filter g.isEnabled =
      direction.arrange g.enabledIndices := by
    cases direction
    · rfl
    · exact List.filter_reverse
  by_cases hempty : g.traces = []
  · cases direction <;> simp [met, walk, enabledIndices, hempty]
  · rw [← harrange]
    exact isRotated_filter (isRotated_walk (outset_lt direction hempty)) g.isEnabled

theorem length_met (g : GraphGroup) (direction : Direction) :
    (g.met direction).length = g.enabledIndices.length := by
  rw [(g.isRotated_met direction).perm.length_eq]
  cases direction
  · rfl
  · exact List.length_reverse

/-! ## Selections one after the other -/

@[simp] theorem length_traces_showOnly (g : GraphGroup) (i : Nat) :
    (g.showOnly i).traces.length = g.traces.length := List.length_mapIdx

theorem firstVisible?_showOnly (hi : i < g.traces.length) :
    (g.showOnly i).firstVisible? = some i := by
  refine List.findIdx?_eq_some_iff_getElem.mpr ⟨by simpa using hi, ?_, fun j hj => ?_⟩
  · simp [showOnly]
  · simp [showOnly, Nat.ne_of_lt hj]

/-- **One selection**: it shows the first index that its walk meets, and the next walk meets this
one last. -/
theorem select_of_met_cons (h : g.met direction = i :: is) :
    g.select direction = (g.showOnly i, some i) ∧
      (g.showOnly i).met direction = is ++ [i] := by
  obtain ⟨as, bs, hwalk, has, hi, hbs⟩ := List.filter_eq_cons_iff.mp h
  have hne : g.traces ≠ [] := by
    intro hempty
    simp [hempty, walk] at hwalk
  have hfind :
      (direction.walk g.traces.length (g.outset direction)).find? g.isEnabled = some i := by
    rw [hwalk]
    exact List.find?_eq_some_iff_append.mpr ⟨hi, as, bs, rfl, by simpa using has⟩
  have hbehind := walk_behind (outset_lt direction hne) hwalk
  have henabled : (g.showOnly i).isEnabled = g.isEnabled := funext (g.isEnabled_showOnly i)
  refine ⟨by rw [select_eq_selectFirst, selectFirst, hfind], ?_⟩
  rw [met, outset, firstVisible?_showOnly (lt_of_isEnabled hi), length_traces_showOnly, henabled]
  simp only [hbehind, List.filter_append, List.filter_eq_nil_iff.mpr has, hbs, hi,
    List.filter_cons_of_pos, List.filter_nil, List.nil_append]

/-- **As many selections as a walk meets indices** find these, one after the other. -/
theorem selections_of_met_append (h : g.met direction = is ++ js) :
    g.selections direction is.length = is.map some := by
  induction is generalizing g js with
  | nil => rfl
  | cons i is ih =>
    rw [List.cons_append] at h
    obtain ⟨hselect, hmet⟩ := select_of_met_cons h
    rw [List.append_assoc] at hmet
    rw [List.length_cons, selections, hselect, ih hmet, List.map_cons]

/-- Where no trace is enabled, a selection finds none. -/
theorem select_of_enabledIndices_nil (direction : Direction) (h : g.enabledIndices = []) :
    g.select direction = (g, none) := by
  rcases g.select_cases direction with heq | ⟨i, henabled, -⟩
  · exact heq
  · have hmem : i ∈ g.enabledIndices :=
      List.mem_filter.mpr ⟨List.mem_range.mpr (lt_of_isEnabled henabled), henabled⟩
    rw [h] at hmem
    exact absurd hmem List.not_mem_nil

/-- The first index that a walk meets is the first enabled one on its way. -/
theorem exists_iterate_of_met_cons (h : g.met direction = i :: is) :
    ∃ k, (direction.step g.traces.length)^[k] (g.outset direction) = i ∧ g.isEnabled i = true ∧
      ∀ j < k, g.isEnabled ((direction.step g.traces.length)^[j] (g.outset direction)) = false := by
  obtain ⟨as, bs, hwalk, has, hi, -⟩ := List.filter_eq_cons_iff.mp h
  have hat {j : Nat} (hj : j < as.length + 1) :
      (as ++ i :: bs)[j]? = some ((direction.step g.traces.length)^[j] (g.outset direction)) := by
    have hlength := congrArg List.length hwalk
    simp only [walk, List.length_iterate, List.length_append, List.length_cons] at hlength
    rw [← hwalk, walk, List.getElem?_iterate _ _ _ _ (by omega)]
  refine ⟨as.length, ?_, hi, fun j hj => ?_⟩
  · have hlast := hat (Nat.lt_succ_self as.length)
    simpa using hlast.symm
  · have hmem := hat (Nat.lt_succ_of_lt hj)
    rw [List.getElem?_append_left hj] at hmem
    exact Bool.eq_false_iff.mpr (has _ (List.mem_of_getElem? hmem))

/-- Showing one trace alone changes nothing but what is visible. -/
theorem hideAll_showOnly (g : GraphGroup) (i : Nat) : (g.showOnly i).hideAll = g.hideAll := by
  have htraces : (g.showOnly i).hideAll.traces = g.hideAll.traces := by
    refine List.ext_getElem? fun j => ?_
    simp only [hideAll, showOnly, List.getElem?_map, List.getElem?_mapIdx, Option.map_map]
    rfl
  exact congrArg (GraphGroup.mk g.name g.graphs) htraces

/-- **Stepping through the enabled traces** of a group in a direction, beginning with a trace. -/
structure StepsThrough (g : GraphGroup) (direction : Direction) (i : Nat) : Prop where
  /-- Going around the circle from where a selection begins to look, the trace is the first one
  that is enabled. -/
  first : ∃ k, (direction.step g.traces.length)^[k] (g.outset direction) = i ∧
    g.isEnabled i = true ∧
    ∀ j < k, g.isEnabled ((direction.step g.traces.length)^[j] (g.outset direction)) = false
  told : (g.select direction).2 = some i
  shown : (g.select direction).1.visibleIndices = [i]
  /-- But for what is visible, the group stays as it is. -/
  unchanged : (g.select direction).1.hideAll = g.hideAll
  /-- As many selections as there are enabled traces find each of them, once around the circle,
  and one more begins anew. -/
  round : ∃ is : List Nat, is.IsRotated (direction.arrange g.enabledIndices) ∧ is.head? = some i ∧
    g.selections direction g.enabledIndices.length = is.map some ∧
    g.selections direction (g.enabledIndices.length + 1) = is.map some ++ [some i]

theorem stepsThrough_of_met_cons (h : g.met direction = i :: is) : g.StepsThrough direction i := by
  obtain ⟨hselect, hmet⟩ := select_of_met_cons h
  have hlength : g.enabledIndices.length = is.length + 1 := by
    rw [← length_met g direction, h, List.length_cons]
  have hlt : i < g.traces.length := by
    obtain ⟨-, -, hi, -⟩ := exists_iterate_of_met_cons h
    exact lt_of_isEnabled hi
  refine ⟨exists_iterate_of_met_cons h, ?_, ?_, ?_, i :: is, h ▸ g.isRotated_met direction, rfl,
    ?_, ?_⟩
  · rw [hselect]
  · rw [hselect]
    exact visibleIndices_showOnly hlt
  · rw [hselect]
    exact hideAll_showOnly g i
  · rw [hlength]
    exact selections_of_met_append (h.trans (List.append_nil _).symm)
  · -- behind the first selection the walk meets the others, and then the first once more
    have hnext := selections_of_met_append (hmet.trans (List.append_nil _).symm)
    rw [List.length_append, List.length_singleton, ← hlength] at hnext
    rw [selections, hselect, hnext]
    simp

/-- **Selections step through the enabled traces of a group**, whatever is visible, in either
direction.  Without an enabled trace they find none and change nothing. -/
theorem stepsThrough_enabledIndices (g : GraphGroup) (direction : Direction) :
    (g.enabledIndices = [] → g.select direction = (g, none)) ∧
      (g.enabledIndices ≠ [] → ∃ i, g.StepsThrough direction i) := by
  refine ⟨select_of_enabledIndices_nil direction, fun hne => ?_⟩
  have hmet : g.met direction ≠ [] := by
    rw [← List.length_pos_iff, length_met, List.length_pos_iff]
    exact hne
  obtain ⟨i, is, h⟩ := List.exists_cons_of_ne_nil hmet
  exact ⟨i, stepsThrough_of_met_cons h⟩

/-- Of five traces the second and the last are visible, and the first, the third and the last are
enabled. -/
theorem stepsThrough_three_of_five :
    let g : GraphGroup := { traces := [⟨[], true, false⟩, ⟨[], false, true⟩, ⟨[], true, false⟩,
      ⟨[], false, false⟩, ⟨[], true, true⟩] }
    g.enabledIndices = [0, 2, 4] ∧ g.selections .next 4 = [some 2, some 4, some 0, some 2] ∧
      g.selections .previous 4 = [some 0, some 4, some 2, some 0] ∧
      ∃ i, g.StepsThrough .previous i := by
  intro g
  have henabled : g.enabledIndices = [0, 2, 4] := by decide
  exact ⟨henabled, by decide, by decide,
    (stepsThrough_enabledIndices g .previous).2 (henabled ▸ List.cons_ne_nil 0 _)⟩

end GraphGroup
end GrammarAtlas
