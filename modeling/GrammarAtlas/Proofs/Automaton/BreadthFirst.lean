import Mathlib.Data.List.Nodup
import GrammarAtlas.Automaton.Region

/-!
# What a breadth-first walk lists

The list `done ++ queue` of a walk never names an id twice, since only ids that
are not on it are put behind it.  So the states of a region have distinct ids.
-/

namespace GrammarAtlas
namespace BreadthFirst

/-- Fresh ids are those that were not seen. -/
theorem mem_fresh {id : StateId} {ids seen : List StateId} :
    id ∈ fresh seen ids ↔ id ∈ ids ∧ id ∉ seen := by
  induction ids generalizing seen with
  | nil => simp [fresh]
  | cons next ids ih =>
    rw [fresh]
    split
    · rename_i hseen
      rw [ih, List.mem_cons]
      refine and_congr_left fun hid => (or_iff_right ?_).symm
      rintro rfl
      exact hid hseen
    · rename_i hnext
      rw [List.mem_cons, ih, List.mem_cons, List.mem_cons]
      by_cases heq : id = next
      · simp [heq, hnext]
      · simp [heq]

/-- Fresh ids are listed once. -/
theorem nodup_fresh : ∀ ids seen : List StateId, (fresh seen ids).Nodup
  | [], _ => List.nodup_nil
  | next :: ids, seen => by
    rw [fresh]
    split
    · exact nodup_fresh ids seen
    · refine List.nodup_cons.mpr ⟨fun h => ?_, nodup_fresh ids _⟩
      exact (mem_fresh.mp h).2 (List.mem_cons_self ..)

/-- What is listed behind one turn of a walk: what was listed before, and the fresh ids. -/
theorem map_turn (done queue : List (StateId × Nat)) (id : StateId) (distance : Nat)
    (ids : List StateId) :
    ((done ++ [(id, distance)] ++ (queue ++ ids.map fun next => (next, distance + 1))).map (·.1)) =
      (done ++ (id, distance) :: queue).map (·.1) ++ ids := by
  simp [Function.comp_def]

/-- A turn of a walk that has listed every id once goes on doing so. -/
theorem nodup_turn {done queue : List (StateId × Nat)} {id : StateId} {distance : Nat}
    (h : ((done ++ (id, distance) :: queue).map (·.1)).Nodup) (ids : List StateId) :
    ((done ++ [(id, distance)] ++ (queue ++
      (fresh ((done ++ (id, distance) :: queue).map (·.1)) ids).map
        fun next => (next, distance + 1))).map (·.1)).Nodup := by
  rw [map_turn]
  exact List.Nodup.append h (nodup_fresh ..) fun next hold hnew => (mem_fresh.mp hnew).2 hold

/-- A walk that has listed every id once goes on doing so. -/
theorem nodup_walk (successors : StateId → List StateId) :
    ∀ (bound : Nat) (done queue : List (StateId × Nat)), ((done ++ queue).map (·.1)).Nodup →
      ((walk successors bound done queue).map (·.1)).Nodup
  | 0, _, _, h => h
  | _ + 1, done, [], h => by simpa [walk] using h
  | bound + 1, done, (id, distance) :: queue, h => by
    rw [walk]
    exact nodup_walk successors bound _ _ (nodup_turn h _)

/-- The order lists every id once. -/
theorem nodup_order (successors : StateId → List StateId) (bound : Nat) (start : StateId) :
    ((order successors bound start).map (·.1)).Nodup :=
  nodup_walk successors bound [] [(start, 0)] (by simp)

end BreadthFirst

namespace Automaton

theorem id_of_regionState? {a : Automaton} {id : StateId} {s : RegionState}
    (h : a.regionState? id = some s) : s.id = id := by
  rw [regionState?, Option.map_eq_some_iff] at h
  obtain ⟨_, _, rfl⟩ := h
  rfl

/-- Looking up found ids keeps their order and drops those of missing states. -/
theorem map_id_filterMap_regionState? (a : Automaton) :
    ∀ found : List (StateId × Nat),
      List.Sublist ((found.filterMap fun p => a.regionState? p.1).map (·.id)) (found.map (·.1))
  | [] => List.Sublist.slnil
  | p :: found => by
    have ih := map_id_filterMap_regionState? a found
    cases h : a.regionState? p.1 with
    | none =>
      simp only [List.filterMap_cons, h, List.map_cons]
      exact ih.cons _
    | some s =>
      simp only [List.filterMap_cons, h, List.map_cons, id_of_regionState? h]
      exact ih.cons_cons _

/-- **The states within reach have distinct ids.** -/
theorem nodup_reachable (a : Automaton) (start : StateId) :
    ((a.reachable start).map (·.id)).Nodup := by
  rw [reachable]
  split
  · exact (map_id_filterMap_regionState? a _).nodup (BreadthFirst.nodup_order ..)
  · exact List.nodup_nil

end Automaton
end GrammarAtlas
