import Mathlib.Order.Bounds.Basic
import GrammarAtlas.Proofs.Automaton.Reach

/-!
# Distances that a walk finds

A route leads from one id to another in a number of steps, and the distance is the least number
of steps of a route.  A breadth-first walk lists with every id the length of a route to it.  Its
queue never holds more than two distances, which differ by one, and so distances do not decrease
along the list (`Ranked`).

When the walk is over, every step leads from an id that is listed to one that is listed no more
than one further.  So no route is shorter than the distance that is listed for its end: what is
listed are the distances (`mem_order_iff_distance`).  The walk of an automaton begins with its
start and goes on by distances (`exists_order_eq_cons`).
-/

namespace GrammarAtlas

/-! ## Routes -/

/-- A route of so many steps from one id to another. -/
inductive Route (r : StateId → StateId → Prop) (u : StateId) : Nat → StateId → Prop where
  | refl : Route r u 0 u
  | tail {k : Nat} {v w : StateId} (h : Route r u k v) (hstep : r v w) : Route r u (k + 1) w

/-- The number of steps of a shortest route. -/
def Distance (r : StateId → StateId → Prop) (u v : StateId) (k : Nat) : Prop :=
  IsLeast {n | Route r u n v} k

namespace Route

variable {r r' : StateId → StateId → Prop} {u v : StateId} {k : Nat}

theorem eq_of_zero (h : Route r u 0 v) : v = u := by
  cases h
  rfl

/-- A route over steps of one kind is one over steps of another, if those are steps of the other
kind that leave what the start leads to. -/
theorem mono (h : Route r u k v) (hsub : ∀ k v w, Route r u k v → r v w → r' v w) :
    Route r' u k v := by
  induction h with
  | refl => exact .refl
  | tail h hstep ih => exact ih.tail (hsub _ _ _ h hstep)

/-- Steps that are the same where the start leads to make the same routes. -/
theorem congr (hsame : ∀ k v w, Route r u k v → (r v w ↔ r' v w)) :
    Route r u k v ↔ Route r' u k v := by
  constructor
  · exact fun h => h.mono fun k v w hv => (hsame k v w hv).mp
  · intro h
    induction h with
    | refl => exact .refl
    | tail _ hstep ih => exact ih.tail ((hsame _ _ _ ih).mpr hstep)

end Route

namespace Distance

variable {r r' : StateId → StateId → Prop} {u v : StateId} {k n : Nat}

theorem congr (hsame : ∀ k v w, Route r u k v → (r v w ↔ r' v w)) :
    Distance r u v k ↔ Distance r' u v k := by
  have hroutes : {n | Route r u n v} = {n | Route r' u n v} := by
    ext n
    exact Route.congr hsame
  rw [Distance, Distance, hroutes]

theorem route (h : Distance r u v k) : Route r u k v := h.1

theorem le (h : Distance r u v k) (hroute : Route r u n v) : k ≤ n := h.2 hroute

/-- Where a route leads, there is a distance. -/
theorem exists_of_route (h : ∃ n, Route r u n v) : ∃ k, Distance r u v k := by
  classical
  exact ⟨Nat.find h, Nat.find_spec h, fun _ hn => Nat.find_min' h hn⟩

/-- What is at no distance is where one is. -/
theorem eq_zero_iff (h : Distance r u v k) : k = 0 ↔ v = u := by
  constructor
  · rintro rfl
    exact h.route.eq_of_zero
  · rintro rfl
    exact Nat.le_zero.mp (h.le .refl)

end Distance

namespace BreadthFirst

variable {successors : StateId → List StateId} {ids : List StateId} {start id v : StateId}
  {done queue : List (StateId × Nat)} {distance bound k n : Nat}

/-! ## The walk -/

/-- To be a successor. -/
def Next (successors : StateId → List StateId) (u v : StateId) : Prop := v ∈ successors u

/-- **A walk that ranks what it lists.**  Each id is listed with the length of a route, in the
order of these lengths.  The queue is at most one step ahead of its first id, and the successors
of an id that is done are listed at most one step further. -/
structure Ranked (successors : StateId → List StateId) (start : StateId)
    (done queue : List (StateId × Nat)) : Prop where
  first : (done ++ queue).head? = some (start, 0)
  routes : ∀ p ∈ done ++ queue, Route (Next successors) start p.2 p.1
  sorted : (done ++ queue).Pairwise fun p q => p.2 ≤ q.2
  near : ∀ p ∈ done ++ queue, ∀ q ∈ queue, p.2 ≤ q.2 + 1
  closed : ∀ p ∈ done, ∀ v ∈ successors p.1, ∃ d, (v, d) ∈ done ++ queue ∧ d ≤ p.2 + 1

namespace Ranked

theorem init (successors : StateId → List StateId) (start : StateId) :
    Ranked successors start [] [(start, 0)] where
  first := rfl
  routes := by
    intro p hp
    obtain rfl := List.mem_singleton.mp hp
    exact .refl
  sorted := List.pairwise_singleton ..
  near := by
    intro p hp q _
    obtain rfl := List.mem_singleton.mp hp
    exact Nat.zero_le _
  closed := nofun

/-- **One turn of the walk.**  What is put behind the queue is one step further than its first
id, hence as far as anything in it or further by one. -/
theorem turn (h : Ranked successors start done ((id, distance) :: queue)) :
    Ranked successors start (done ++ [(id, distance)]) (queue ++
      (fresh ((done ++ (id, distance) :: queue).map (·.1)) (successors id)).map
        fun next => (next, distance + 1)) := by
  generalize hnew : (fresh ((done ++ (id, distance) :: queue).map (·.1)) (successors id)).map
    (fun next => (next, distance + 1)) = new
  have hmem : ∀ p ∈ new, p.2 = distance + 1 ∧ p.1 ∈ successors id := by
    intro p hp
    rw [← hnew, List.mem_map] at hp
    obtain ⟨next, hnext, rfl⟩ := hp
    exact ⟨rfl, (mem_fresh.mp hnext).1⟩
  have hhead : (id, distance) ∈ done ++ (id, distance) :: queue := by simp
  have hqueue : ∀ q ∈ queue, distance ≤ q.2 :=
    (List.pairwise_cons.mp (List.pairwise_append.mp h.sorted).2.1).1
  have hold : ∀ p ∈ done ++ (id, distance) :: queue, p.2 ≤ distance + 1 := fun p hp =>
    h.near p hp (id, distance) List.mem_cons_self
  have heq : done ++ [(id, distance)] ++ (queue ++ new) =
      (done ++ (id, distance) :: queue) ++ new := by simp
  constructor
  case first =>
    rw [heq, List.head?_append, h.first]
    rfl
  case routes =>
    intro p hp
    rw [heq, List.mem_append] at hp
    rcases hp with hp | hp
    · exact h.routes p hp
    · obtain ⟨hdistance, hsuccessor⟩ := hmem p hp
      rw [hdistance]
      exact (h.routes _ hhead).tail hsuccessor
  case sorted =>
    rw [heq, List.pairwise_append]
    refine ⟨h.sorted, ?_, fun p hp q hq => ?_⟩
    · exact List.pairwise_of_forall_mem_list fun p hp q hq =>
        (((hmem p hp).1.trans (hmem q hq).1.symm).le)
    · rw [(hmem q hq).1]
      exact hold p hp
  case near =>
    intro p hp q hq
    have hp' : p.2 ≤ distance + 1 := by
      rw [heq, List.mem_append] at hp
      rcases hp with hp | hp
      · exact hold p hp
      · exact (hmem p hp).1.le
    rcases List.mem_append.mp hq with hq | hq
    · exact hp'.trans (Nat.succ_le_succ (hqueue q hq))
    · rw [(hmem q hq).1]
      exact hp'.trans (Nat.le_succ _)
  case closed =>
    intro p hp v hv
    rw [heq]
    rcases List.mem_append.mp hp with hp | hp
    · obtain ⟨d, hd, hle⟩ := h.closed p hp v hv
      exact ⟨d, List.mem_append_left _ hd, hle⟩
    · obtain rfl := List.mem_singleton.mp hp
      by_cases hseen : v ∈ (done ++ (id, distance) :: queue).map (·.1)
      · obtain ⟨⟨v, d⟩, hd, rfl⟩ := List.mem_map.mp hseen
        exact ⟨d, List.mem_append_left _ hd, hold _ hd⟩
      · refine ⟨distance + 1, List.mem_append_right _ ?_, Nat.le_refl _⟩
        rw [← hnew]
        exact List.mem_map_of_mem (mem_fresh.mpr ⟨hv, hseen⟩)

/-- When the walk is over, it has listed the end of every route, and no further than the route. -/
theorem exists_le_of_route (h : Ranked successors start done [])
    (hroute : Route (Next successors) start n v) : ∃ d, (v, d) ∈ done ∧ d ≤ n := by
  induction hroute with
  | refl =>
    have hfirst := h.first
    rw [List.append_nil] at hfirst
    exact ⟨0, List.mem_of_mem_head? hfirst, Nat.le_refl 0⟩
  | tail _ hstep ih =>
    obtain ⟨d, hd, hle⟩ := ih
    obtain ⟨e, he, hnext⟩ := h.closed _ hd _ hstep
    rw [List.append_nil] at he
    exact ⟨e, he, hnext.trans (Nat.succ_le_succ hle)⟩

end Ranked

/-! ## The order -/

/-- A walk with enough turns ends up ranking all that it lists. -/
theorem ranked_order (hstart : start ∈ ids) (hids : ∀ id, successors id ⊆ ids)
    (hbound : ids.length ≤ bound) : Ranked successors start (order successors bound start) [] :=
  Walking.walk_induction (P := Ranked successors start) (fun _ _ _ _ h => h.turn)
    (Walking.init hstart) hids (by rwa [List.length_nil, Nat.zero_add]) (Ranked.init ..)

/-- **What is listed are the distances.** -/
theorem mem_order_iff_distance (hstart : start ∈ ids) (hids : ∀ id, successors id ⊆ ids)
    (hbound : ids.length ≤ bound) :
    (v, k) ∈ order successors bound start ↔ Distance (Next successors) start v k := by
  have hranked := ranked_order hstart hids hbound
  have hnodup := nodup_order successors bound start
  have hroute : ∀ d, (v, d) ∈ order successors bound start →
      Route (Next successors) start d v := fun d hd =>
    hranked.routes _ (List.mem_append_left [] hd)
  constructor
  · intro hk
    refine ⟨hroute k hk, fun n hn => ?_⟩
    obtain ⟨d, hd, hle⟩ := hranked.exists_le_of_route hn
    obtain ⟨-, rfl⟩ := Prod.mk.inj (List.inj_on_of_nodup_map hnodup hk hd rfl)
    exact hle
  · intro hk
    obtain ⟨d, hd, hle⟩ := hranked.exists_le_of_route hk.route
    obtain rfl : d = k := Nat.le_antisymm hle (hk.le (hroute d hd))
    exact hd

end BreadthFirst

namespace Automaton

open BreadthFirst

/-- The walk that collects a region begins with the start. -/
theorem exists_order_eq_cons (a : Automaton) (start : StateId) :
    ∃ rest, order a.successors (a.transitionCount + 1) start = (start, 0) :: rest ∧
      ((start, 0) :: rest).Pairwise fun p q => p.2 ≤ q.2 := by
  have hstart : start ∈ start :: a.targets := List.mem_cons_self
  have hranked := ranked_order hstart (a.successors_subset_start_targets start)
    (length_start_targets a start).le
  have hfirst := hranked.first
  have hsorted := hranked.sorted
  rw [List.append_nil] at hfirst hsorted
  obtain ⟨rest, hrest⟩ := List.head?_eq_some_iff.mp hfirst
  exact ⟨rest, hrest, hrest ▸ hsorted⟩

end Automaton
end GrammarAtlas
