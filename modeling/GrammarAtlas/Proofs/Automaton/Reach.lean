import Mathlib.Data.List.Perm.Subperm
import Mathlib.Logic.Relation
import GrammarAtlas.Proofs.Automaton.BreadthFirst
import GrammarAtlas.Proofs.Automaton.Growth

/-!
# What a region consists of

The states of a region are those that exist and that the start leads to (`mem_states_region`).
A walk looks at no id twice, so it is over when it has looked at as many ids as there are, and
its bound is no less than that (`Walking.length_le`).  What its turns keep holds when it is over
(`Walking.walk_induction`): so it has listed all successors of what it has listed
(`Walking.closed_walk`).  A greater bound makes no difference to it (`Walking.walk_add`).  From a
missing state nothing is reached, and the walk would list nothing (`reachable_eq_filterMap`).

So a region depends on the states that it consists of and on nothing else: where these are the
same in another automaton, the region is the same (`region_congr`).
-/

namespace GrammarAtlas

namespace BreadthFirst

variable {successors : StateId → List StateId} {ids : List StateId}
  {done queue : List (StateId × Nat)} {id : StateId} {distance bound : Nat}

/-- A walk at some moment: it has listed different ids of those that there are, and all
successors of the ids that are done. -/
structure Walking (successors : StateId → List StateId) (ids : List StateId)
    (done queue : List (StateId × Nat)) : Prop where
  nodup : ((done ++ queue).map (·.1)).Nodup
  subset : (done ++ queue).map (·.1) ⊆ ids
  closed : ∀ id ∈ done.map (·.1), successors id ⊆ (done ++ queue).map (·.1)

namespace Walking

/-- A walk that begins. -/
theorem init {start : StateId} (hstart : start ∈ ids) :
    Walking successors ids [] [(start, 0)] where
  nodup := List.nodup_singleton start
  subset := List.cons_subset.mpr ⟨hstart, List.nil_subset ids⟩
  closed := nofun

theorem length_le (h : Walking successors ids done queue) :
    (done ++ queue).length ≤ ids.length := by
  have hle := (h.nodup.subperm h.subset).length_le
  rwa [List.length_map] at hle

/-- **One turn of the walk.** -/
theorem turn (h : Walking successors ids done ((id, distance) :: queue))
    (hids : successors id ⊆ ids) :
    Walking successors ids (done ++ [(id, distance)]) (queue ++
      (fresh ((done ++ (id, distance) :: queue).map (·.1)) (successors id)).map
        fun next => (next, distance + 1)) where
  nodup := nodup_turn h.nodup _
  subset := by
    rw [map_turn]
    refine List.append_subset.mpr ⟨h.subset, fun next hnext => ?_⟩
    exact hids (mem_fresh.mp hnext).1
  closed := by
    intro old hold next hnext
    rw [map_turn, List.mem_append]
    rw [List.map_append, List.mem_append] at hold
    rcases hold with hold | hold
    · exact .inl (h.closed old hold hnext)
    · obtain rfl : old = id := List.mem_singleton.mp hold
      by_cases hseen : next ∈ (done ++ (old, distance) :: queue).map (·.1)
      · exact .inl hseen
      · exact .inr (mem_fresh.mpr ⟨hnext, hseen⟩)

/-- Without turns left, a walk that had enough of them is over. -/
theorem queue_eq_nil (h : Walking successors ids done queue) (hbound : ids.length ≤ done.length) :
    queue = [] := by
  have hle := h.length_le
  rw [List.length_append] at hle
  exact List.length_eq_zero_iff.mp (by omega)

/-- **What turns keep holds when the walk is over**, if it had enough of them. -/
theorem walk_induction {P : List (StateId × Nat) → List (StateId × Nat) → Prop}
    (hturn : ∀ done id distance queue, P done ((id, distance) :: queue) →
      P (done ++ [(id, distance)]) (queue ++
        (fresh ((done ++ (id, distance) :: queue).map (·.1)) (successors id)).map
          fun next => (next, distance + 1)))
    (h : Walking successors ids done queue) (hids : ∀ id, successors id ⊆ ids)
    (hbound : ids.length ≤ done.length + bound) (hP : P done queue) :
    P (walk successors bound done queue) [] := by
  induction bound generalizing done queue with
  | zero =>
    obtain rfl := h.queue_eq_nil hbound
    rwa [walk, List.append_nil]
  | succ bound ih =>
    cases queue with
    | nil => exact hP
    | cons entry queue =>
      rw [walk]
      refine ih (h.turn (hids entry.1)) ?_ (hturn _ _ _ _ hP)
      rw [List.length_append, List.length_singleton]
      omega

/-- A walk that has enough turns lists all successors of what it lists. -/
theorem closed_walk (h : Walking successors ids done queue) (hids : ∀ id, successors id ⊆ ids)
    (hbound : ids.length ≤ done.length + bound) :
    ∀ id ∈ (walk successors bound done queue).map (·.1),
      successors id ⊆ (walk successors bound done queue).map (·.1) := by
  have hover : Walking successors ids (walk successors bound done queue) [] :=
    walk_induction (P := Walking successors ids) (fun _ _ _ _ hwalking => hwalking.turn (hids _))
      h hids hbound h
  simpa only [List.append_nil] using hover.closed

/-- **A greater bound makes no difference.** -/
theorem walk_add (h : Walking successors ids done queue) (hids : ∀ id, successors id ⊆ ids)
    (hbound : ids.length ≤ done.length + bound) (more : Nat) :
    walk successors (bound + more) done queue = walk successors bound done queue := by
  induction bound generalizing done queue with
  | zero =>
    obtain rfl := h.queue_eq_nil hbound
    rw [walk, List.append_nil]
    cases more <;> simp [walk]
  | succ bound ih =>
    rw [Nat.add_right_comm]
    cases queue with
    | nil => rfl
    | cons entry queue =>
      rw [walk, walk]
      refine ih (h.turn (hids entry.1)) ?_
      rw [List.length_append, List.length_singleton]
      omega

end Walking

/-- What was listed stays listed. -/
theorem subset_walk (successors : StateId → List StateId) (bound : Nat)
    (done queue : List (StateId × Nat)) :
    done ++ queue ⊆ walk successors bound done queue := by
  induction bound generalizing done queue with
  | zero => exact List.Subset.refl _
  | succ bound ih =>
    cases queue with
    | nil =>
      rw [walk, List.append_nil]
      exact List.Subset.refl _
    | cons entry queue =>
      rw [walk]
      refine List.Subset.trans ?_ (ih _ _)
      rw [← List.append_assoc, List.append_assoc done]
      exact List.subset_append_left ..

/-- A walk stays among ids that are closed under successors. -/
theorem forall_mem_walk {P : StateId → Prop} (hP : ∀ id, P id → ∀ next ∈ successors id, P next)
    (h : ∀ p ∈ done ++ queue, P p.1) : ∀ p ∈ walk successors bound done queue, P p.1 := by
  induction bound generalizing done queue with
  | zero => exact h
  | succ bound ih =>
    cases queue with
    | nil => rwa [List.append_nil] at h
    | cons entry queue =>
      rw [walk]
      refine ih fun p hp => ?_
      have hid : P entry.1 := h entry (by simp)
      rw [← List.append_assoc, List.append_assoc done, List.mem_append] at hp
      rcases hp with hp | hp
      · exact h p hp
      · obtain ⟨next, hnext, rfl⟩ := List.mem_map.mp hp
        exact hP entry.1 hid next (mem_fresh.mp hnext).1

/-- Two walks are the same where their successors are. -/
theorem walk_congr {other : StateId → List StateId} {P : StateId → Prop}
    (hP : ∀ id, P id → ∀ next ∈ successors id, P next)
    (hsame : ∀ id, P id → other id = successors id) (h : ∀ p ∈ queue, P p.1) :
    walk other bound done queue = walk successors bound done queue := by
  induction bound generalizing done queue with
  | zero => rfl
  | succ bound ih =>
    cases queue with
    | nil => rfl
    | cons entry queue =>
      have hid : P entry.1 := h entry List.mem_cons_self
      rw [walk, walk, hsame entry.1 hid]
      refine ih fun p hp => ?_
      rcases List.mem_append.mp hp with hp | hp
      · exact h p (List.mem_cons_of_mem _ hp)
      · obtain ⟨next, hnext, rfl⟩ := List.mem_map.mp hp
        exact hP entry.1 hid next (mem_fresh.mp hnext).1

end BreadthFirst

/-! ## Regions -/

/-- Some path over the steps leads from one state to another. -/
def Leads (E : Steps) : StateId → StateId → Prop := Relation.ReflTransGen fun u v => ∃ l, E u l v

namespace Leads

variable {E F : Steps} {u v : StateId} {l : Label}

theorem step (h : E u l v) : Leads E u v := .single ⟨l, h⟩

/-- More steps, more paths. -/
theorem mono (h : Leads E u v) (hsub : ∀ u l v, E u l v → F u l v) : Leads F u v :=
  Relation.ReflTransGen.mono (fun u v ⟨l, hstep⟩ => ⟨l, hsub u l v hstep⟩) u v h

/-- A path does not leave a set of states that no step leaves. -/
theorem mem_of_closed {P : StateId → Prop} (h : Leads E u v) (hP : ∀ u l v, P u → E u l v → P v)
    (hu : P u) : P v := by
  induction h with
  | refl => exact hu
  | tail _ hstep ih =>
    obtain ⟨l, hstep⟩ := hstep
    exact hP _ l _ ih hstep

end Leads

namespace Automaton

open BreadthFirst

variable {a b : Automaton} {start u v : StateId}

theorem mem_successors_iff : v ∈ a.successors u ↔ ∃ l, a.steps u l v := by
  show _ ↔ ∃ l s, a.get? u = some s ∧ ⟨l, v⟩ ∈ s.transitions
  rw [successors]
  cases a.get? u with
  | none => simp
  | some s =>
    simp only [Option.map_some, Option.getD_some, List.mem_map, Option.some.injEq,
      exists_eq_left']
    constructor
    · rintro ⟨⟨l, target⟩, ht, rfl⟩
      exact ⟨l, ht⟩
    · rintro ⟨l, ht⟩
      exact ⟨⟨l, v⟩, ht, rfl⟩

/-- The targets of all transitions. -/
def targets (a : Automaton) : List StateId := (a.states.flatMap (·.transitions)).map (·.target)

theorem successors_subset_targets (a : Automaton) (u : StateId) : a.successors u ⊆ a.targets := by
  intro v hv
  obtain ⟨l, s, hs, ht⟩ := mem_successors_iff.mp hv
  exact List.mem_map.mpr ⟨_, List.mem_flatMap.mpr ⟨s, List.mem_of_getElem? hs, ht⟩, rfl⟩

/-- A walk that begins with a state. -/
theorem walking_start (a : Automaton) (start : StateId) :
    Walking a.successors (start :: a.targets) [] [(start, 0)] :=
  .init List.mem_cons_self

theorem length_start_targets (a : Automaton) (start : StateId) :
    (start :: a.targets).length = a.transitionCount + 1 := by
  rw [List.length_cons, targets, List.length_map, transitionCount]

theorem successors_subset_start_targets (a : Automaton) (start u : StateId) :
    a.successors u ⊆ start :: a.targets :=
  List.Subset.trans (a.successors_subset_targets u) (List.subset_cons_self ..)

/-- **A walk lists what its start leads to.** -/
theorem mem_order_iff : v ∈ (order a.successors (a.transitionCount + 1) start).map (·.1) ↔
    Leads a.steps start v := by
  constructor
  · intro h
    obtain ⟨p, hp, rfl⟩ := List.mem_map.mp h
    refine forall_mem_walk (P := Leads a.steps start) (fun u hu v hv => ?_) ?_ p hp
    · obtain ⟨l, hstep⟩ := mem_successors_iff.mp hv
      exact hu.tail ⟨l, hstep⟩
    · intro p hp
      obtain rfl := List.mem_singleton.mp hp
      exact .refl
  · intro h
    have hbound : (start :: a.targets).length ≤ 0 + (a.transitionCount + 1) := by
      rw [length_start_targets, Nat.zero_add]
    have hclosed := (a.walking_start start).closed_walk (a.successors_subset_start_targets start)
      hbound
    refine h.mem_of_closed
      (P := (· ∈ (order a.successors (a.transitionCount + 1) start).map (·.1)))
      (fun u l v hu hstep => ?_) ?_
    · exact hclosed u hu (mem_successors_iff.mpr ⟨l, hstep⟩)
    · exact List.mem_map_of_mem (subset_walk a.successors _ [] [(start, 0)] List.mem_cons_self)

/-- **The region of a state** consists of the existing states that it leads to. -/
theorem mem_states_region (hstart : start < a.size) {s : RegionState} :
    s ∈ (a.region start false).states ↔
      a.regionState? s.id = some s ∧ Leads a.steps start s.id := by
  show s ∈ a.reachable start ↔ _
  rw [reachable, if_pos hstart, ← mem_order_iff, List.mem_filterMap, List.mem_map]
  constructor
  · rintro ⟨p, hp, hs⟩
    rw [id_of_regionState? hs]
    exact ⟨hs, p, hp, rfl⟩
  · rintro ⟨hs, p, hp, hid⟩
    exact ⟨p, hp, hid.symm ▸ hs⟩

theorem mem_ids_region (hstart : start < a.size) :
    v ∈ (a.region start false).ids ↔ v < a.size ∧ Leads a.steps start v := by
  rw [Region.ids, List.mem_map]
  constructor
  · rintro ⟨s, hs, rfl⟩
    obtain ⟨hstate, hleads⟩ := (mem_states_region hstart).mp hs
    obtain ⟨t, ht, -⟩ := Option.map_eq_some_iff.mp hstate
    exact ⟨(List.getElem?_eq_some_iff.mp ht).1, hleads⟩
  · rintro ⟨hlt, hleads⟩
    have ht : a.get? v = some a.states[v] := List.getElem?_eq_getElem hlt
    refine ⟨⟨v, a.states[v].accepting, a.states[v].transitions⟩, ?_, rfl⟩
    refine (mem_states_region hstart).mpr ⟨?_, hleads⟩
    rw [regionState?, ht, Option.map_some]

/-! ## Missing states -/

theorem successors_eq_nil (h : a.regionState? u = none) : a.successors u = [] := by
  rw [regionState?, Option.map_eq_none_iff] at h
  rw [successors, h]
  rfl

theorem successors_eq_targets {s : RegionState} (h : a.regionState? u = some s) :
    a.successors u = s.transitions.map (·.target) := by
  obtain ⟨t, ht, rfl⟩ := Option.map_eq_some_iff.mp h
  rw [successors, ht]
  rfl

theorem regionState?_eq_none_iff : a.regionState? u = none ↔ ¬ u < a.size := by
  rw [regionState?, Option.map_eq_none_iff, get?, List.getElem?_eq_none_iff, Nat.not_lt]
  rfl

/-- A missing state leads nowhere. -/
theorem eq_of_leads_of_missing (h : a.regionState? start = none) (hleads : Leads a.steps start v) :
    v = start := by
  refine hleads.mem_of_closed (P := (· = start)) ?_ rfl
  rintro u l v rfl hstep
  have hv : v ∈ a.successors u := mem_successors_iff.mpr ⟨l, hstep⟩
  rw [successors_eq_nil h] at hv
  exact absurd hv List.not_mem_nil

/-- The walk from a missing state comes across no state, so it does not matter that it is not
begun. -/
theorem reachable_eq_filterMap (a : Automaton) (start : StateId) :
    a.reachable start = (order a.successors (a.transitionCount + 1) start).filterMap
      fun found => a.regionState? found.1 := by
  rw [reachable]
  split
  · rfl
  · rename_i hstart
    have hmissing : a.regionState? start = none := regionState?_eq_none_iff.mpr hstart
    refine (List.filterMap_eq_nil_iff.mpr fun found hfound => ?_).symm
    have hleads : Leads a.steps start found.1 := mem_order_iff.mp (List.mem_map_of_mem hfound)
    rwa [eq_of_leads_of_missing hmissing hleads]

/-- What is listed are the existing states that the start leads to, whether it exists or not. -/
theorem mem_reachable_iff {s : RegionState} :
    s ∈ a.reachable start ↔ a.regionState? s.id = some s ∧ Leads a.steps start s.id := by
  by_cases hstart : start < a.size
  · exact mem_states_region hstart
  · have hmissing : a.regionState? start = none := regionState?_eq_none_iff.mpr hstart
    rw [reachable, if_neg hstart]
    refine iff_of_false List.not_mem_nil ?_
    rintro ⟨hs, hleads⟩
    rw [eq_of_leads_of_missing hmissing hleads, hmissing] at hs
    exact Option.some_ne_none s hs.symm

/-! ## Regions of other automata -/

/-- The bound of a walk may as well be greater. -/
theorem order_of_le (a : Automaton) (start : StateId) {bound : Nat}
    (h : a.transitionCount + 1 ≤ bound) :
    order a.successors bound start = order a.successors (a.transitionCount + 1) start := by
  obtain ⟨more, rfl⟩ := Nat.exists_eq_add_of_le h
  refine (a.walking_start start).walk_add (a.successors_subset_start_targets start) ?_ more
  rw [length_start_targets, List.length_nil]
  omega

theorem successors_congr (h : b.get? u = a.get? u) : b.successors u = a.successors u := by
  rw [successors, successors, h]

/-- **A region is the same in an automaton that has its states.** -/
theorem region_congr (hin : ∀ u l v, a.steps u l v → v < a.size) (hsize : a.size ≤ b.size)
    (hold : ∀ u < a.size, b.get? u = a.get? u) (hstart : start < a.size) (optimize : Bool) :
    b.region start optimize = a.region start optimize := by
  have hclosed : ∀ u < a.size, ∀ v ∈ a.successors u, v < a.size := by
    intro u _ v hv
    obtain ⟨l, hstep⟩ := mem_successors_iff.mp hv
    exact hin u l v hstep
  have hqueue : ∀ p ∈ [(start, 0)], p.1 < a.size := by
    intro p hp
    obtain rfl := List.mem_singleton.mp hp
    exact hstart
  -- The bounds differ, so both walks are compared with a bound that is enough for either.
  have horder : order b.successors (b.transitionCount + 1) start =
      order a.successors (a.transitionCount + 1) start := by
    rw [← b.order_of_le start (Nat.le_max_right (a.transitionCount + 1) _),
      ← a.order_of_le start (Nat.le_max_left _ (b.transitionCount + 1))]
    exact walk_congr hclosed (fun u hu => successors_congr (hold u hu)) hqueue
  have hreachable : b.reachable start = a.reachable start := by
    rw [reachable, reachable, if_pos hstart, if_pos (hstart.trans_le hsize), horder]
    refine List.filterMap_congr fun p hp => ?_
    have hlt := forall_mem_walk (P := (· < a.size)) hclosed hqueue p hp
    rw [regionState?, regionState?, hold p.1 hlt]
  rw [region, region, hreachable]

end Automaton
end GrammarAtlas
