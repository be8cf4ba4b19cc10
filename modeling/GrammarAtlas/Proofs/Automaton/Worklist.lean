import Mathlib.Computability.StateTransition
import GrammarAtlas.Proofs.Automaton.Reach

/-!
# The loop that collects a region

A region can be collected by a loop that keeps three lists: the ids that were found, those of
them that are still to be looked at, and the states that were listed.  A turn takes the first id
from the queue.  If a state has this id, the state is listed, and what it leads to is put behind
the queue unless it was found before; the id of a missing state is passed over.  The loop goes on
for as long as there is something in the queue.

The walk of `Automaton.reachable` keeps one list of all that was found, looks the states up when
it is over, and has a bound on its turns.  Turn by turn it is that loop (`turn?_ofWalk`).  So the
loop ends, whatever leads in circles or to states that are missing, and what it has listed then
are the states within reach (`collect_eq_reachable`).

At every moment what was found is what comes up, each id once, in the transitions of the ids that
were looked at (`LookedAt`).
-/

namespace GrammarAtlas

namespace BreadthFirst

/-- Of what was seen, only the members matter. -/
theorem fresh_congr {seen other : List StateId} (h : ∀ id, id ∈ seen ↔ id ∈ other)
    (ids : List StateId) : fresh seen ids = fresh other ids := by
  induction ids generalizing seen other with
  | nil => rfl
  | cons id ids ih =>
    rw [fresh, fresh]
    by_cases hid : id ∈ seen
    · rw [if_pos hid, if_pos ((h id).mp hid), ih h]
    · rw [if_neg hid, if_neg (hid ∘ (h id).mpr)]
      refine congrArg (id :: ·) (ih fun v => ?_)
      rw [List.mem_cons, List.mem_cons, h v]

/-- Further ids are fresh unless they were seen before or stand in front. -/
theorem fresh_append (seen ids more : List StateId) :
    fresh seen (ids ++ more) = fresh seen ids ++ fresh (seen ++ ids) more := by
  induction ids generalizing seen with
  | nil =>
    rw [List.append_nil]
    rfl
  | cons id ids ih =>
    rw [List.cons_append, fresh, fresh]
    split
    · rename_i hid
      have hsame (v : StateId) : v ∈ seen ++ ids ↔ v ∈ seen ++ id :: ids := by
        have himp : v = id → v ∈ seen := fun hv => hv ▸ hid
        rw [List.mem_append, List.mem_append, List.mem_cons]
        tauto
      rw [ih, fresh_congr hsame]
    · have hsame (v : StateId) : v ∈ id :: seen ++ ids ↔ v ∈ seen ++ id :: ids := by
        rw [List.mem_append, List.mem_append, List.mem_cons, List.mem_cons]
        tauto
      rw [ih, fresh_congr hsame, List.cons_append]

end BreadthFirst

namespace Automaton

/-- The ids that come up when some ids are looked at one after the other: the start, and then
whatever they lead to. -/
def trail (a : Automaton) (start : StateId) (looked : List StateId) : List StateId :=
  start :: looked.flatMap a.successors

theorem trail_append (a : Automaton) (start : StateId) (looked more : List StateId) :
    a.trail start (looked ++ more) = a.trail start looked ++ more.flatMap a.successors := by
  rw [trail, trail, List.flatMap_append, List.cons_append]

end Automaton

/-! ## The loop -/

/-- The collection of a region under way. -/
structure Worklist where
  /-- The ids that were found. -/
  seen : List StateId
  /-- The ids that are still to be looked at. -/
  queue : List StateId
  /-- The states that were listed. -/
  listed : List RegionState
  deriving DecidableEq, Repr

namespace Worklist

open BreadthFirst Automaton StateTransition

variable {a : Automaton} {start u v : StateId} {looked : List StateId} {w next last : Worklist}

/-- The start is found, and nothing was looked at. -/
def ofStart (start : StateId) : Worklist := ⟨[start], [start], []⟩

/-- Puts an id behind the queue unless it was found before. -/
def find (w : Worklist) (id : StateId) : Worklist :=
  if id ∈ w.seen then w else { w with seen := w.seen ++ [id], queue := w.queue ++ [id] }

/-- One turn of the loop; none when the queue is empty. -/
def turn? (a : Automaton) (w : Worklist) : Option Worklist :=
  match w.queue with
  | [] => none
  | id :: queue =>
    match a.regionState? id with
    | none => some { w with queue }
    | some s => some <| s.transitions.foldl (fun w t => w.find t.target)
        { w with queue, listed := w.listed ++ [s] }

/-- What the loop has listed when it ends, if it does. -/
def collect (a : Automaton) (start : StateId) : Part (List RegionState) :=
  (eval (turn? a) (ofStart start)).map (·.listed)

/-- Found are the ids that are fresh. -/
theorem foldl_find (ids : List StateId) (w : Worklist) : ids.foldl find w =
    { w with seen := w.seen ++ fresh w.seen ids, queue := w.queue ++ fresh w.seen ids } := by
  induction ids generalizing w with
  | nil => simp [fresh]
  | cons id ids ih =>
    rw [List.foldl_cons, ih, find, fresh]
    split
    · rfl
    · have hsame (v : StateId) : v ∈ w.seen ++ [id] ↔ v ∈ id :: w.seen := by
        rw [List.mem_append, List.mem_singleton, List.mem_cons, or_comm]
      rw [fresh_congr hsame, List.append_assoc, List.append_assoc, List.singleton_append]

/-- **What a turn does.** -/
theorem turn?_cons (a : Automaton) (seen : List StateId) (id : StateId) (queue : List StateId)
    (listed : List RegionState) :
    turn? a ⟨seen, id :: queue, listed⟩ = some ⟨seen ++ fresh seen (a.successors id),
      queue ++ fresh seen (a.successors id), listed ++ (a.regionState? id).toList⟩ := by
  cases hid : a.regionState? id with
  | none => simp [turn?, hid, successors_eq_nil hid, fresh]
  | some s =>
    have hfound := foldl_find (s.transitions.map (·.target)) ⟨seen, queue, listed ++ [s]⟩
    rw [List.foldl_map] at hfound
    simp [turn?, hid, hfound, successors_eq_targets hid]

/-- A turn looks at the first id of the queue. -/
theorem exists_of_turn? (h : w.turn? a = some next) : ∃ id queue, w.queue = id :: queue ∧
    next = ⟨w.seen ++ fresh w.seen (a.successors id), queue ++ fresh w.seen (a.successors id),
      w.listed ++ (a.regionState? id).toList⟩ := by
  obtain ⟨seen, _ | ⟨id, queue⟩, listed⟩ := w
  · exact absurd h (by simp [turn?])
  · rw [turn?_cons] at h
    exact ⟨id, queue, rfl, (Option.some.inj h).symm⟩

/-! ## The end of the loop -/

/-- The worklist of a walk. -/
def ofWalk (a : Automaton) (done queue : List (StateId × Nat)) : Worklist :=
  ⟨(done ++ queue).map (·.1), queue.map (·.1), done.filterMap fun found => a.regionState? found.1⟩

/-- **A turn of the loop is a turn of the walk.** -/
theorem turn?_ofWalk (a : Automaton) (done queue : List (StateId × Nat)) (id : StateId)
    (distance : Nat) :
    (ofWalk a done ((id, distance) :: queue)).turn? a =
      some (ofWalk a (done ++ [(id, distance)]) (queue ++
        (fresh ((done ++ (id, distance) :: queue).map (·.1)) (a.successors id)).map
          fun next => (next, distance + 1))) := by
  rw [ofWalk, List.map_cons, turn?_cons]
  cases hid : a.regionState? id <;> simp [ofWalk, hid, Function.comp_def]

/-- **The loop ends** with the walk. -/
theorem exists_mem_eval (a : Automaton) (start : StateId) :
    ∃ last ∈ eval (turn? a) (ofStart start), last.queue = [] ∧
      last.seen = (order a.successors (a.transitionCount + 1) start).map (·.1) ∧
      last.listed = a.reachable start := by
  have hbound : (start :: a.targets).length ≤ 0 + (a.transitionCount + 1) := by
    rw [length_start_targets, Nat.zero_add]
  have hreaches := (a.walking_start start).walk_induction
    (P := fun done queue => Reaches (turn? a) (ofStart start) (ofWalk a done queue))
    (fun done id distance queue h => h.tail (turn?_ofWalk a done queue id distance))
    (a.successors_subset_start_targets start) hbound .refl
  refine ⟨_, mem_eval.mpr ⟨hreaches, rfl⟩, rfl, ?_, (a.reachable_eq_filterMap start).symm⟩
  rw [ofWalk, List.append_nil, order]

theorem collect_eq_reachable (a : Automaton) (start : StateId) :
    collect a start = .some (a.reachable start) := by
  obtain ⟨last, hlast, -, -, hlisted⟩ := exists_mem_eval a start
  rw [collect, Part.eq_some_iff.mpr hlast, Part.map_some, hlisted]

/-! ## What was found -/

/-- The ids that were looked at stand in front of the queue, and what was found is what came up
when they were looked at. -/
structure LookedAt (a : Automaton) (start : StateId) (looked : List StateId) (w : Worklist) :
    Prop where
  seen_eq : w.seen = looked ++ w.queue
  came_up : w.seen = fresh [] (a.trail start looked)

theorem LookedAt.mem_seen_iff (h : LookedAt a start looked w) :
    v ∈ w.seen ↔ v ∈ a.trail start looked := by
  rw [h.came_up, mem_fresh]
  exact and_iff_left List.not_mem_nil

/-- **One turn of the loop** looks at one more id. -/
theorem LookedAt.turn (h : LookedAt a start looked w) (hturn : w.turn? a = some next) :
    ∃ id, LookedAt a start (looked ++ [id]) next := by
  obtain ⟨id, queue, hqueue, rfl⟩ := exists_of_turn? hturn
  refine ⟨id, ?_, ?_⟩
  · rw [h.seen_eq, hqueue]
    simp
  · rw [trail_append, List.flatMap_singleton, fresh_append, ← h.came_up, List.nil_append,
      fresh_congr fun v => h.mem_seen_iff]

theorem exists_lookedAt (h : Reaches (turn? a) (ofStart start) w) :
    ∃ looked, LookedAt a start looked w := by
  induction h with
  | refl => exact ⟨[], rfl, by simp [ofStart, trail, fresh]⟩
  | tail _ hturn ih =>
    obtain ⟨looked, hlooked⟩ := ih
    obtain ⟨id, hnext⟩ := hlooked.turn hturn
    exact ⟨looked ++ [id], hnext⟩

/-- What was found stays in front of what is found later. -/
theorem prefix_seen (h : Reaches (turn? a) w last) : w.seen <+: last.seen := by
  induction h with
  | refl => exact List.prefix_rfl
  | tail _ hturn ih =>
    obtain ⟨id, queue, -, rfl⟩ := exists_of_turn? hturn
    exact ih.trans (List.prefix_append ..)

/-- In some turn, looking at one id finds another. -/
def Finds (a : Automaton) (start u v : StateId) : Prop :=
  ∃ w next, Reaches (turn? a) (ofStart start) w ∧ w.turn? a = some next ∧
    w.queue.head? = some u ∧ v ∉ w.seen ∧ v ∈ next.seen

/-- All but the start is found by looking at something. -/
theorem exists_finds (h : Reaches (turn? a) (ofStart start) w) (hv : v ∈ w.seen)
    (hne : v ≠ start) : ∃ u, Finds a start u v := by
  induction h with
  | refl => exact absurd (List.mem_singleton.mp hv) hne
  | @tail w next hreaches hturn ih =>
    by_cases hseen : v ∈ w.seen
    · exact ih hseen
    · obtain ⟨id, queue, hqueue, -⟩ := exists_of_turn? hturn
      exact ⟨id, w, next, hreaches, hturn, by rw [hqueue]; rfl, hseen, hv⟩

/-- What is found by looking at an id has not come up in front of it. -/
theorem Finds.exists_split (h : Finds a start u v) : ∃ looked rest,
    (order a.successors (a.transitionCount + 1) start).map (·.1) = looked ++ u :: rest ∧
      v ∈ a.successors u ∧ v ∉ a.trail start looked := by
  obtain ⟨w, next, hreaches, hturn, hhead, hold, hnew⟩ := h
  obtain ⟨looked, hlooked⟩ := exists_lookedAt hreaches
  obtain ⟨id, queue, hqueue, rfl⟩ := exists_of_turn? hturn
  obtain rfl : id = u := by simpa [hqueue] using hhead
  -- from here the loop goes on to its end, and what it finds stands behind what it has found
  obtain ⟨last, hlast, -, hseen, -⟩ := exists_mem_eval a start
  rw [reaches_eval hreaches] at hlast
  obtain ⟨rest, hrest⟩ := prefix_seen (mem_eval.mp hlast).1
  refine ⟨looked, queue ++ rest, ?_, ?_, fun hv => hold (hlooked.mem_seen_iff.mpr hv)⟩
  · rw [← hseen, ← hrest, hlooked.seen_eq, hqueue, List.append_assoc, List.cons_append]
  · exact (mem_fresh.mp ((List.mem_append.mp hnew).resolve_left hold)).1

end Worklist
end GrammarAtlas
