import GrammarAtlas.Proofs.Automaton.Distance
import GrammarAtlas.Proofs.Automaton.Worklist

/-!
# What is collected, and in which order

A region is listed from its start on.  Listed are the existing states that the start leads to,
each once and as it is, by their distances from the start; and those that are found by looking at
the same state stand in the order of the transitions that they are found by
(`collected_reachable`).

The order is that of the loop.  All that it finds is what comes up in the transitions of the ids
it has looked at, and an id is found where it comes up first.  So one id is listed in front of
another if it comes up in front of it (`pairwise_idxOf_fresh`), and what comes up when a certain
id is looked at stands behind all that came up before (`idxOf_trail`).
-/

namespace GrammarAtlas

namespace BreadthFirst

/-- Fresh ids are listed in the order in which they come up. -/
theorem pairwise_idxOf_fresh (seen ids : List StateId) :
    (fresh seen ids).Pairwise fun u v => ids.idxOf u < ids.idxOf v := by
  induction ids generalizing seen with
  | nil => exact List.Pairwise.nil
  | cons id ids ih =>
    -- behind an id that differs from both, two ids come up as they do without it
    have hbehind (seen : List StateId) (hid : id ∈ seen) :
        (fresh seen ids).Pairwise fun u v => (id :: ids).idxOf u < (id :: ids).idxOf v := by
      refine (ih seen).imp_of_mem fun {u v} hu hv hlt => ?_
      have hne : ∀ w ∈ fresh seen ids, id ≠ w := by
        rintro w hw rfl
        exact (mem_fresh.mp hw).2 hid
      rw [List.idxOf_cons_ne _ (hne u hu), List.idxOf_cons_ne _ (hne v hv)]
      exact Nat.succ_lt_succ hlt
    rw [fresh]
    split
    · rename_i hid
      exact hbehind seen hid
    · refine List.pairwise_cons.mpr ⟨fun v hv => ?_, hbehind _ List.mem_cons_self⟩
      have hne : id ≠ v := by
        rintro rfl
        exact (mem_fresh.mp hv).2 List.mem_cons_self
      rw [List.idxOf_cons_self, List.idxOf_cons_ne _ hne]
      exact Nat.succ_pos _

end BreadthFirst

namespace Automaton

open BreadthFirst StateTransition Worklist

variable {a : Automaton} {start u v : StateId} {looked rest : List StateId}

/-! ## The order of the ids -/

/-- An id that comes up first when a certain id is looked at comes up behind all that came up
before, as its transitions have it. -/
theorem idxOf_trail (hfirst : v ∉ a.trail start looked) (hv : v ∈ a.successors u) :
    (a.trail start (looked ++ u :: rest)).idxOf v =
      (a.trail start looked).length + (a.successors u).idxOf v := by
  rw [trail_append, List.idxOf_append_of_notMem hfirst, List.flatMap_cons,
    List.idxOf_append_of_mem hv]

/-- **The walk lists what comes up in the transitions of what it lists**, each id once. -/
theorem map_order_eq_fresh (a : Automaton) (start : StateId) :
    let ids := (order a.successors (a.transitionCount + 1) start).map (·.1)
    ids = fresh [] (a.trail start ids) := by
  intro ids
  obtain ⟨last, hlast, hqueue, hseen, -⟩ := exists_mem_eval a start
  obtain ⟨looked, hlooked⟩ := exists_lookedAt (mem_eval.mp hlast).1
  have hall : last.seen = looked := by rw [hlooked.seen_eq, hqueue, List.append_nil]
  calc ids = last.seen := hseen.symm
    _ = fresh [] (a.trail start looked) := hlooked.came_up
    _ = fresh [] (a.trail start ids) := by rw [← hall, hseen]

/-- **What is found by looking at one id is listed by its transitions.** -/
theorem pairwise_order_of_finds (a : Automaton) (start : StateId) :
    ((order a.successors (a.transitionCount + 1) start).map (·.1)).Pairwise fun v w =>
      ∀ u, Finds a start u v → Finds a start u w →
        (a.successors u).idxOf v < (a.successors u).idxOf w := by
  have hnodup := nodup_order a.successors (a.transitionCount + 1) start
  have hids := a.map_order_eq_fresh start
  generalize hlisted : (order a.successors (a.transitionCount + 1) start).map (·.1) = ids
    at hids hnodup ⊢
  have hpairwise : ids.Pairwise fun v w =>
      (a.trail start ids).idxOf v < (a.trail start ids).idxOf w := by
    have h := pairwise_idxOf_fresh [] (a.trail start ids)
    rwa [← hids] at h
  refine hpairwise.imp fun {v w} hlt u hv hw => ?_
  obtain ⟨looked, rest, hsplit, hsuccessor, hfirst⟩ := hv.exists_split
  obtain ⟨looked', rest', hsplit', hsuccessor', hfirst'⟩ := hw.exists_split
  rw [hlisted] at hsplit hsplit'
  -- an id is looked at once
  obtain ⟨rfl, -, -⟩ : looked = looked' ∧ u = u ∧ rest = rest' := by
    rw [hsplit, List.nodup_middle, List.nodup_cons, List.mem_append, not_or] at hnodup
    have h := hsplit.symm.trans hsplit'
    exact (List.append_cons_inj_of_notMem hnodup.1.1 hnodup.1.2).mp h
  rw [hsplit, idxOf_trail hfirst hsuccessor, idxOf_trail hfirst' hsuccessor'] at hlt
  exact Nat.lt_of_add_lt_add_left hlt

/-! ## Regions -/

/-- **A list of the states within reach.**  They are listed once and as they are, the start first,
by their distances.  Each of the others is found by looking at one of them, and those that are
found by looking at the same one stand in the order of its transitions. -/
structure Collected (a : Automaton) (start : StateId) (states : List RegionState) : Prop where
  mem_iff : ∀ s, s ∈ states ↔ a.regionState? s.id = some s ∧ Leads a.steps start s.id
  nodup : (states.map (·.id)).Nodup
  first : states.head? = a.regionState? start
  near : states.Pairwise fun s t => ∃ j k, Distance (Next a.successors) start s.id j ∧
    Distance (Next a.successors) start t.id k ∧ j ≤ k
  found : ∀ s ∈ states, s.id ≠ start → ∃ p ∈ states, Finds a start p.id s.id
  turns : states.Pairwise fun s t => ∀ u, Finds a start u s.id → Finds a start u t.id →
    (a.successors u).idxOf s.id < (a.successors u).idxOf t.id

theorem head?_reachable (a : Automaton) (start : StateId) :
    (a.reachable start).head? = a.regionState? start := by
  cases hstart : a.regionState? start with
  | none =>
    rw [reachable, if_neg (regionState?_eq_none_iff.mp hstart)]
    rfl
  | some s =>
    obtain ⟨rest, hrest, -⟩ := a.exists_order_eq_cons start
    rw [reachable_eq_filterMap, hrest, List.filterMap_cons, hstart]
    rfl

/-- Nothing is listed if the start is missing, and only then. -/
theorem reachable_eq_nil_iff : a.reachable start = [] ↔ a.get? start = none := by
  rw [← List.head?_eq_none_iff, head?_reachable, regionState?, Option.map_eq_none_iff]

theorem near_reachable (a : Automaton) (start : StateId) :
    (a.reachable start).Pairwise fun s t => ∃ j k, Distance (Next a.successors) start s.id j ∧
      Distance (Next a.successors) start t.id k ∧ j ≤ k := by
  have hdistance (p : StateId × Nat) (hp : p ∈ order a.successors (a.transitionCount + 1) start) :
      Distance (Next a.successors) start p.1 p.2 :=
    (mem_order_iff_distance List.mem_cons_self (a.successors_subset_start_targets start)
      (length_start_targets a start).le).mp hp
  obtain ⟨rest, hrest, hsorted⟩ := a.exists_order_eq_cons start
  rw [← hrest] at hsorted
  rw [reachable_eq_filterMap, List.pairwise_filterMap]
  refine hsorted.imp_of_mem fun {p q} hp hq hle s hs t ht => ?_
  rw [id_of_regionState? hs, id_of_regionState? ht]
  exact ⟨p.2, q.2, hdistance p hp, hdistance q hq, hle⟩

/-- What an id is found by is a state that was listed. -/
theorem exists_mem_reachable_of_finds (h : Finds a start u v) :
    ∃ p ∈ a.reachable start, p.id = u := by
  obtain ⟨looked, rest, hsplit, hv, -⟩ := h.exists_split
  cases hu : a.regionState? u with
  | none =>
    rw [successors_eq_nil hu] at hv
    exact absurd hv List.not_mem_nil
  | some p =>
    have hid : p.id = u := id_of_regionState? hu
    have hleads : Leads a.steps start u := by
      rw [← mem_order_iff, hsplit]
      exact List.mem_append_right _ List.mem_cons_self
    exact ⟨p, mem_reachable_iff.mpr ⟨hid.symm ▸ hu, hid.symm ▸ hleads⟩, hid⟩

theorem found_reachable {s : RegionState} (hs : s ∈ a.reachable start) (hne : s.id ≠ start) :
    ∃ p ∈ a.reachable start, Finds a start p.id s.id := by
  obtain ⟨last, hlast, -, hseen, -⟩ := exists_mem_eval a start
  have hid : s.id ∈ last.seen := by
    rw [hseen, mem_order_iff]
    exact (mem_reachable_iff.mp hs).2
  obtain ⟨u, hu⟩ := exists_finds (mem_eval.mp hlast).1 hid hne
  obtain ⟨p, hp, rfl⟩ := exists_mem_reachable_of_finds hu
  exact ⟨p, hp, hu⟩

theorem turns_reachable (a : Automaton) (start : StateId) :
    (a.reachable start).Pairwise fun s t => ∀ u, Finds a start u s.id → Finds a start u t.id →
      (a.successors u).idxOf s.id < (a.successors u).idxOf t.id := by
  have hsublist := a.map_id_filterMap_regionState?
    (order a.successors (a.transitionCount + 1) start)
  rw [← reachable_eq_filterMap] at hsublist
  exact List.pairwise_map.mp ((a.pairwise_order_of_finds start).sublist hsublist)

/-- **The states within reach are collected exactly**, whatever the automaton and the start.  The
list is empty if the start is missing, and only then.  The loop ends, and this is what it has
listed. -/
theorem collected_reachable (a : Automaton) (start : StateId) :
    (a.reachable start = [] ↔ a.get? start = none) ∧ a.Collected start (a.reachable start) ∧
      collect a start = .some (a.reachable start) := by
  refine ⟨reachable_eq_nil_iff, ?_, collect_eq_reachable a start⟩
  constructor
  case mem_iff => exact fun _ => mem_reachable_iff
  case nodup => exact a.nodup_reachable start
  case first => exact a.head?_reachable start
  case near => exact a.near_reachable start
  case found => exact fun _ => found_reachable
  case turns => exact a.turns_reachable start

/-- State 0 leads to 2, to a state that is missing, to 1 and to 2 again.  State 3 is found by
looking at 2, which also leads back, and nothing leads to 4. -/
example :
    let start : State :=
      ⟨[⟨.epsilon, 2⟩, ⟨.epsilon, 9⟩, ⟨.symbol ['x'], 1⟩, ⟨.epsilon, 2⟩], false⟩
    let a : Automaton := ⟨[start, ⟨[⟨.epsilon, 3⟩], false⟩,
      ⟨[⟨.symbol ['y'], 3⟩, ⟨.epsilon, 0⟩], false⟩, ⟨[], true⟩, {}], []⟩
    (a.reachable 0).map (·.id) = [0, 2, 1, 3] ∧ a.reachable 9 = [] := by
  decide

end Automaton
end GrammarAtlas
