import GrammarAtlas.Proofs.Automaton.Contraction
import GrammarAtlas.Proofs.Automaton.Reach

/-!
# What contraction leaves of a region

Contraction takes states off a list and redirects the transitions of the others; it renames no
state and adds none.  So the states that are left are old ones, in their old order, with the
labels and the acceptance that they had, and those that are gone only passed on (`Thinned`).  If
all transitions of the list led to its states, then so do those that are left (`Tied`): the
successor of a state that is taken off is another state of the list.

Both are carried through the contraction by what taking one state off does to them
(`Thinned.without`, `Tied.without`).
-/

namespace GrammarAtlas

namespace RegionState

variable {start id successor : StateId} {states left : List RegionState} {s : RegionState}

/-- A state that does nothing but pass on: it is not the start, does not accept, and has one
transition, which consumes nothing. -/
structure PassesThrough (start : StateId) (s : RegionState) : Prop where
  not_start : s.id ≠ start
  rejecting : s.accepting = false
  sole : ∃ v, s.transitions = [⟨.epsilon, v⟩]

theorem map_id_without : (without id successor states).map (·.id) =
    (states.map (·.id)).filter (· ≠ id) := by
  rw [without, List.map_map, List.filter_map]
  rfl

theorem mem_map_id_without {u : StateId} :
    u ∈ (without id successor states).map (·.id) ↔ u ∈ states.map (·.id) ∧ u ≠ id := by
  rw [map_id_without, List.mem_filter, decide_eq_true_eq]

theorem map_label_redirect {old new : StateId} :
    (s.redirect old new).transitions.map (·.label) = s.transitions.map (·.label) := by
  rw [redirect, List.map_map]
  refine List.map_congr_left fun t _ => ?_
  rw [Function.comp_apply]
  split <;> rfl

/-! ## Transitions among the states -/

/-- All transitions of the states lead to one of them. -/
def Tied (states : List RegionState) : Prop :=
  ∀ s ∈ states, ∀ t ∈ s.transitions, t.target ∈ states.map (·.id)

theorem Tied.without (h : Tied states) (hs : s ∈ states)
    (hbypass : s.bypass? start = some successor) : Tied (without s.id successor states) := by
  obtain ⟨htrans, -, -, hne⟩ := bypass?_eq_some_iff.mp hbypass
  intro q hq t ht
  obtain ⟨p, hp, -, rfl⟩ := mem_without.mp hq
  obtain ⟨t', ht', rfl⟩ := mem_transitions_redirect.mp ht
  rw [mem_map_id_without]
  by_cases htarget : t'.target = s.id
  · rw [htarget, detour_self]
    exact ⟨h s hs ⟨.epsilon, successor⟩ (by simp [htrans]), hne⟩
  · rw [detour_of_ne htarget]
    exact ⟨h p hp t' ht', htarget⟩

/-! ## The states that are left and those that are not -/

/-- **Some states, of which passing ones were taken off.** -/
structure Thinned (start : StateId) (states left : List RegionState) : Prop where
  ids : (left.map (·.id)).Sublist (states.map (·.id))
  kept : ∀ s ∈ left, ∃ o ∈ states, o.id = s.id ∧ o.accepting = s.accepting ∧
    o.transitions.map (·.label) = s.transitions.map (·.label)
  lost : ∀ o ∈ states, o.id ∈ left.map (·.id) ∨ o.PassesThrough start

namespace Thinned

theorem refl (start : StateId) (states : List RegionState) : Thinned start states states where
  ids := .refl _
  kept := fun s hs => ⟨s, hs, rfl, rfl, rfl⟩
  lost := fun _ ho => .inl (List.mem_map_of_mem ho)

theorem without (h : Thinned start states left) (hnodup : (states.map (·.id)).Nodup) (hs : s ∈ left)
    (hbypass : s.bypass? start = some successor) :
    Thinned start states (without s.id successor left) where
  ids := by
    rw [map_id_without]
    exact List.filter_sublist.trans h.ids
  kept := by
    intro q hq
    obtain ⟨p, hp, -, rfl⟩ := mem_without.mp hq
    rw [id_redirect, accepting_redirect, map_label_redirect]
    exact h.kept p hp
  lost := by
    intro o ho
    rcases h.lost o ho with hleft | hpasses
    · by_cases hid : o.id = s.id
      · -- what is taken off now was such a state from the beginning
        obtain ⟨htrans, hstart, hreject, -⟩ := bypass?_eq_some_iff.mp hbypass
        obtain ⟨o', ho', hid', haccepting, hlabels⟩ := h.kept s hs
        obtain rfl := List.inj_on_of_nodup_map hnodup ho ho' (hid.trans hid'.symm)
        rw [htrans, List.map_singleton, List.map_eq_singleton_iff] at hlabels
        obtain ⟨⟨l, v⟩, htrans', hlabel⟩ := hlabels
        obtain rfl : l = .epsilon := hlabel
        exact .inr ⟨hid ▸ hstart, haccepting.trans hreject, v, htrans'⟩
      · exact .inl (mem_map_id_without.mpr ⟨hleft, hid⟩)
    · exact .inr hpasses

end Thinned
end RegionState

namespace Contraction

open RegionState

variable {start : StateId} {states : List RegionState}

theorem thinned_contract (hnodup : (states.map (·.id)).Nodup) :
    Thinned start states (contract start states).1 :=
  contract_induction hnodup (fun _ _ _ _ hs hbypass h => h.without hnodup hs hbypass)
    (.refl start states)

theorem tied_contract (hnodup : (states.map (·.id)).Nodup) (h : Tied states) :
    Tied (contract start states).1 :=
  contract_induction hnodup (fun _ _ _ _ hs hbypass h => h.without hs hbypass) h

end Contraction

/-! ## Regions -/

namespace Automaton

open RegionState

variable {a : Automaton} {start id : StateId}

/-- **Contracting a region takes passing states off it.** -/
theorem thinned_region (a : Automaton) (start : StateId) :
    Thinned start (a.region start false).states (a.region start true).states :=
  Contraction.thinned_contract (a.nodup_reachable start)

/-- The ids of a contracted region are ids of the full one. -/
theorem sublist_ids_region (a : Automaton) (start : StateId) (optimize : Bool) :
    (a.region start optimize).ids.Sublist (a.region start false).ids := by
  cases optimize with
  | false => exact .refl _
  | true => exact (a.thinned_region start).ids

theorem nodup_ids_region (a : Automaton) (start : StateId) (optimize : Bool) :
    (a.region start optimize).ids.Nodup :=
  (a.sublist_ids_region start optimize).nodup (a.nodup_reachable start)

/-- The start of a region stays in it. -/
theorem start_mem_ids_region (hstart : start < a.size) (optimize : Bool) :
    start ∈ (a.region start optimize).ids := by
  have hfull : start ∈ (a.region start false).ids := (mem_ids_region hstart).mpr ⟨hstart, .refl⟩
  cases optimize with
  | false => exact hfull
  | true =>
    obtain ⟨s, hs, hid⟩ := List.mem_map.mp hfull
    rcases (a.thinned_region start).lost s hs with hleft | hpasses
    · rwa [hid] at hleft
    · exact absurd hid hpasses.not_start

/-- If all transitions of an automaton lead to states, those of a region lead to its states. -/
theorem tied_region (ha : ∀ u l v, a.steps u l v → v < a.size) (hstart : start < a.size)
    (optimize : Bool) : Tied (a.region start optimize).states := by
  have hfull : Tied (a.region start false).states := by
    intro s hs t ht
    obtain ⟨hstate, hleads⟩ := (mem_states_region hstart).mp hs
    obtain ⟨p, hp, heq⟩ := Option.map_eq_some_iff.mp hstate
    have htrans : p.transitions = s.transitions := congrArg (·.transitions) heq
    have hstep : a.steps s.id t.label t.target := ⟨p, hp, htrans ▸ ht⟩
    exact (mem_ids_region hstart).mpr ⟨ha _ _ _ hstep, hleads.tail ⟨_, hstep⟩⟩
  cases optimize with
  | false => exact hfull
  | true => exact Contraction.tied_contract (a.nodup_reachable start) hfull

end Automaton
end GrammarAtlas
