import GrammarAtlas.Proofs.Automaton.Remainder

/-!
# What contraction comes to

A state that passes through has one way on, a hop.  Hops that come back make a cycle, and of
every cycle the state that is listed first stays; all other states that pass through are removed
(`Removed`).  What led to a removed state leads to where its hops first come to a state that
stays (`Settles`).

A sweep visits the states from the last to the first, and what is left of a state when it is
visited tells whether it stays.  All removed states behind it are bypassed by then.  So if it
is the first of its cycle, the others of the cycle are all bypassed, its way on leads back to
itself, and there is nothing to redirect to.  If it is another one of its cycle, its way on
stops at the first of the cycle at the latest, and it is bypassed (`Swept.visit`).

The states that are left have nothing to bypass, and contracting them again changes nothing
(`contract_eq_self`).
-/

namespace GrammarAtlas

open Relation (ReflTransGen TransGen)

namespace RegionState

variable {start u v w id successor : StateId} {states left : List RegionState}
variable {o s : RegionState} {gone gone' : StateId → Prop}

/-! ## Hops and cycles -/

/-- A state that passes through, and where its transition leads. -/
def Hop (start : StateId) (states : List RegionState) (u v : StateId) : Prop :=
  ∃ s ∈ states, s.id = u ∧ s.PassesThrough start ∧ s.transitions = [⟨.epsilon, v⟩]

/-- The state lies on a cycle of hops and is listed in front of all others on it. -/
structure FirstOfCycle (start : StateId) (states : List RegionState) (u : StateId) : Prop where
  cycle : TransGen (Hop start states) u u
  first : ∀ v, TransGen (Hop start states) u v →
    (states.map (·.id)).idxOf u ≤ (states.map (·.id)).idxOf v

/-- The state passes through, and is not the one that stays of a cycle. -/
structure Removed (start : StateId) (states : List RegionState) (u : StateId) : Prop where
  hop : ∃ v, Hop start states u v
  not_first : ¬ FirstOfCycle start states u

/-- The first state on a chain of hops that is not gone. -/
structure Settles (start : StateId) (states : List RegionState) (gone : StateId → Prop)
    (u v : StateId) : Prop where
  chain : ReflTransGen (fun a b => gone a ∧ Hop start states a b) u v
  stays : ¬ gone v

theorem Hop.mem_ids (h : Hop start states u v) : u ∈ states.map (·.id) := by
  obtain ⟨s, hs, rfl, -⟩ := h
  exact List.mem_map_of_mem hs

theorem Settles.hops (h : Settles start states gone u v) : ReflTransGen (Hop start states) u v :=
  ReflTransGen.mono (fun _ _ hop => hop.2) _ _ h.chain

section Nodup

variable (hnodup : (states.map (·.id)).Nodup)

include hnodup in
theorem Hop.unique (h : Hop start states u v) (h' : Hop start states u w) : v = w := by
  obtain ⟨s, hs, rfl, -, hsole⟩ := h
  obtain ⟨s', hs', hid, -, hsole'⟩ := h'
  obtain rfl := List.inj_on_of_nodup_map hnodup hs' hs hid
  rw [hsole, List.singleton_inj, Transition.mk.injEq] at hsole'
  exact hsole'.2

include hnodup in
/-- From everywhere on a cycle the hops come back. -/
theorem back_of_cycle (hcycle : TransGen (Hop start states) u u)
    (h : ReflTransGen (Hop start states) u w) : TransGen (Hop start states) w u := by
  induction h with
  | refl => exact hcycle
  | tail _ hop ih =>
    obtain ⟨x, hop', hrest⟩ := TransGen.head'_iff.mp ih
    obtain rfl := hop.unique hnodup hop'
    exact .trans_right hrest hcycle

include hnodup in
/-- A chain stops at one state only. -/
theorem Settles.unique (h : Settles start states gone u v) (h' : Settles start states gone u w) :
    v = w := by
  obtain ⟨hchain, hstays⟩ := h
  induction hchain using ReflTransGen.head_induction_on with
  | refl =>
    rcases h'.chain.cases_head with heq | ⟨_, ⟨hgone, -⟩, -⟩
    · exact heq
    · exact absurd hgone hstays
  | head hop _ ih =>
    rcases h'.chain.cases_head with rfl | ⟨_, ⟨-, hop'⟩, hrest⟩
    · exact absurd hop.1 h'.stays
    · obtain rfl := hop.2.unique hnodup hop'
      exact ih ⟨hrest, h'.stays⟩

/-- A cycle has one first state. -/
theorem FirstOfCycle.eq (h : FirstOfCycle start states u) (h' : FirstOfCycle start states w)
    (hhops : TransGen (Hop start states) u w) (hback : TransGen (Hop start states) w u) :
    u = w := by
  obtain ⟨_, hop, -⟩ := TransGen.head'_iff.mp h.cycle
  exact (List.idxOf_inj hop.mem_ids).mp (Nat.le_antisymm (h.first w hhops) (h'.first u hback))

include hnodup in
/-- A state whose way on stops elsewhere is not the first of a cycle, when all that are removed
behind it are gone. -/
theorem not_firstOfCycle (hop : Hop start states u v) (hsettles : Settles start states gone v w)
    (hne : w ≠ u) (hgone : ∀ x, Removed start states x →
      (states.map (·.id)).idxOf u < (states.map (·.id)).idxOf x → gone x) :
    ¬ FirstOfCycle start states u := by
  intro hfirst
  have hhops : TransGen (Hop start states) u w := .head' hop hsettles.hops
  have hback := back_of_cycle hnodup hfirst.cycle hhops.to_reflTransGen
  obtain ⟨_, hopw, -⟩ := TransGen.head'_iff.mp hback
  refine hsettles.stays (hgone w ⟨⟨_, hopw⟩, fun hw => ?_⟩ ?_)
  · exact hne (hfirst.eq hw hhops hback).symm
  · refine Nat.lt_of_le_of_ne (hfirst.first w hhops) fun heq => ?_
    exact hne ((List.idxOf_inj hop.mem_ids).mp heq).symm

include hnodup in
/-- A state whose way on leads back to itself is the first of a cycle, when all that are gone
stand behind it. -/
theorem firstOfCycle (hop : Hop start states u v)
    (hchain : ReflTransGen (fun a b => gone a ∧ Hop start states a b) v u)
    (hgone : ∀ x, gone x → (states.map (·.id)).idxOf u ≤ (states.map (·.id)).idxOf x) :
    FirstOfCycle start states u where
  cycle := .head' hop (ReflTransGen.mono (fun _ _ hop => hop.2) _ _ hchain)
  first := by
    intro w hhops
    obtain ⟨_, hop', hrest⟩ := TransGen.head'_iff.mp hhops
    obtain rfl := hop.unique hnodup hop'
    -- wherever the hops get, from there the chain leads back
    have hback : ReflTransGen (fun a b => gone a ∧ Hop start states a b) w u := by
      clear hhops
      induction hrest with
      | refl => exact hchain
      | tail _ hopw ih =>
        rcases ih.cases_head with rfl | ⟨x, ⟨-, hopx⟩, hx⟩
        · rwa [← hop.unique hnodup hopw]
        · rwa [hopw.unique hnodup hopx]
    rcases hback.cases_head with rfl | ⟨x, ⟨hw, -⟩, -⟩
    · exact Nat.le_refl _
    · exact hgone w hw

end Nodup

/-- When one more state is gone, the chains that stopped there go on to where its own chain
stops. -/
theorem Settles.detour {x t : StateId} (h : Settles start states gone t v)
    (hop : Hop start states u x) (hx : Settles start states gone x successor) (hne : successor ≠ u)
    (hgone : ∀ a, gone' a ↔ a = u ∨ gone a) :
    Settles start states gone' t (detour u successor v) := by
  have hmono {a b : StateId} :
      ReflTransGen (fun a b => gone a ∧ Hop start states a b) a b →
        ReflTransGen (fun a b => gone' a ∧ Hop start states a b) a b :=
    ReflTransGen.mono (fun a _ hab => ⟨(hgone a).mpr (.inr hab.1), hab.2⟩) a b
  by_cases hv : v = u
  · subst hv
    rw [detour_self]
    refine ⟨(hmono h.chain).trans (.head ⟨(hgone _).mpr (.inl rfl), hop⟩ (hmono hx.chain)),
      fun hsuccessor => ?_⟩
    exact ((hgone _).mp hsuccessor).elim hne hx.stays
  · rw [detour_of_ne hv]
    exact ⟨hmono h.chain, fun hstays => ((hgone v).mp hstays).elim hv h.stays⟩

/-! ## Rerouted states -/

/-- **A state with its transitions led to where their chains stop.** -/
structure Rerouted (start : StateId) (states : List RegionState) (gone : StateId → Prop)
    (o s : RegionState) : Prop where
  id : s.id = o.id
  accepting : s.accepting = o.accepting
  transitions : List.Forall₂ (fun t t' => t'.label = t.label ∧
    Settles start states gone t.target t'.target) o.transitions s.transitions

theorem transitions_redirect {old new : StateId} :
    (s.redirect old new).transitions =
      s.transitions.map fun t => ⟨t.label, RegionState.detour old new t.target⟩ := by
  refine List.map_congr_left fun t _ => ?_
  by_cases h : t.target = old
  · rw [if_pos h, h, detour_self]
  · rw [if_neg h, detour_of_ne h]

namespace Rerouted

theorem refl (hgone : ∀ u, ¬ gone u) (s : RegionState) : Rerouted start states gone s s where
  id := rfl
  accepting := rfl
  transitions := List.forall₂_same.mpr fun t _ => ⟨rfl, .refl, hgone t.target⟩

theorem redirect {x : StateId} (h : Rerouted start states gone o s) (hop : Hop start states u x)
    (hx : Settles start states gone x successor) (hne : successor ≠ u)
    (hgone : ∀ a, gone' a ↔ a = u ∨ gone a) :
    Rerouted start states gone' o (s.redirect u successor) where
  id := h.id
  accepting := h.accepting
  transitions := by
    rw [transitions_redirect, List.forall₂_map_right_iff]
    exact h.transitions.imp fun t t' ht => ⟨ht.1, ht.2.detour hop hx hne hgone⟩

/-- What can be bypassed passed through from the beginning. -/
theorem hop_of_bypass (h : Rerouted start states gone o s) (ho : o ∈ states)
    (hbypass : s.bypass? start = some successor) :
    ∃ v, Hop start states s.id v ∧ Settles start states gone v successor := by
  obtain ⟨hsole, hstart, hreject, -⟩ := bypass?_eq_some_iff.mp hbypass
  have htransitions := h.transitions
  rw [hsole] at htransitions
  obtain ⟨⟨label, v⟩, _, ⟨hlabel, hsettles⟩, hnil, heq⟩ :=
    List.forall₂_cons_right_iff.mp htransitions
  obtain rfl := List.forall₂_nil_right_iff.mp hnil
  obtain rfl : .epsilon = label := hlabel
  refine ⟨v, ⟨o, ho, h.id.symm, ⟨?_, ?_, v, heq⟩, heq⟩, hsettles⟩
  · rwa [← h.id]
  · rwa [← h.accepting]

/-- What passed through from the beginning can be bypassed, unless its way on leads back to
it. -/
theorem bypass_of_hop (h : Rerouted start states gone o s) (ho : o ∈ states)
    (hnodup : (states.map (·.id)).Nodup) (hop : Hop start states s.id v) :
    ∃ v', Settles start states gone v v' ∧ (v' ≠ s.id → s.bypass? start = some v') := by
  obtain ⟨p, hp, hid, hpasses, hsole⟩ := hop
  obtain rfl := List.inj_on_of_nodup_map hnodup hp ho (hid.trans h.id)
  have htransitions := h.transitions
  rw [hsole] at htransitions
  obtain ⟨⟨label, v'⟩, _, ⟨hlabel, hsettles⟩, hnil, heq⟩ :=
    List.forall₂_cons_left_iff.mp htransitions
  obtain rfl := List.forall₂_nil_left_iff.mp hnil
  obtain rfl : label = .epsilon := hlabel
  refine ⟨v', hsettles, fun hne => bypass?_eq_some_iff.mpr ⟨heq, ?_, ?_, hne⟩⟩
  · rw [h.id]
    exact hpasses.not_start
  · rw [h.accepting]
    exact hpasses.rejecting

end Rerouted

/-! ## The contracted states -/

/-- **Some states contracted.**  Those are left that are not removed, in their order, each with
its transitions led to where their chains of hops stop; the removed states and the states with
nothing but epsilon transitions are counted; and doing it again changes nothing. -/
structure Contracted (start : StateId) (states left : List RegionState) (stats : ContractionStats) :
    Prop where
  ids : (left.map (·.id)).Sublist (states.map (·.id))
  stays : ∀ u, u ∈ left.map (·.id) ↔ u ∈ states.map (·.id) ∧ ¬ Removed start states u
  rerouted : ∀ s ∈ left, ∃ o ∈ states, Rerouted start states (Removed start states) o s
  eliminated : stats.eliminated + left.length = states.length
  kept : stats.kept = left.countP (·.isEpsilonOnly)
  again : Contraction.contract start left = (left, ⟨0, stats.kept⟩)

theorem length_without (successor : StateId) (hnodup : (states.map (·.id)).Nodup)
    (hs : s ∈ states) : (without s.id successor states).length + 1 = states.length := by
  have hmem : s.id ∈ states.map (·.id) := List.mem_map_of_mem hs
  have hlength := List.length_erase_add_one hmem
  have herase : (states.map (·.id)).erase s.id = (states.map (·.id)).filter (· ≠ s.id) := by
    rw [hnodup.erase_eq_filter]
    refine List.filter_congr fun u _ => ?_
    by_cases hu : u = s.id <;> simp [hu]
  rw [herase, List.length_map] at hlength
  rw [← hlength, ← List.length_map (·.id), map_id_without]

end RegionState

namespace Contraction

open RegionState

variable {start : StateId} {states : List RegionState} {sweep : Sweep} {n : Nat} {s : RegionState}

/-- Where nothing can be bypassed, contraction changes nothing. -/
theorem contract_eq_self (h : ∀ s ∈ states, s.bypass? start = none) :
    contract start states = (states, ⟨0, states.countP (·.isEpsilonOnly)⟩) := by
  have hrun (n : Nat) : Sweep.run start n (.ofStates states) = .ofStates states := by
    induction n with
    | zero => rfl
    | succ n ih =>
      rw [Sweep.run]
      rcases Sweep.visit_eq_self_or_bypass start (.ofStates states) n with heq | ⟨s, _, hs, hb, -⟩
      · rw [heq, ih]
      · exact absurd ((h s (List.mem_of_getElem? hs)).symm.trans hb) (Option.some_ne_none _).symm
  rw [contract, hrun, Sweep.left_ofStates]
  rfl

namespace Sweep

theorem mem_map_id_left {u : StateId} :
    u ∈ sweep.left.map (·.id) ↔ u ∈ sweep.ids ∧ u ∉ sweep.bypassed := by
  simp only [List.mem_map, mem_left, ids]
  constructor
  · rintro ⟨s, ⟨hs, hout⟩, rfl⟩
    exact ⟨⟨s, hs, rfl⟩, hout⟩
  · rintro ⟨⟨s, hs, rfl⟩, hout⟩
    exact ⟨s, ⟨hs, hout⟩, rfl⟩

/-- **A sweep that has visited all states but the first `n`.**  It has bypassed those behind
them that are removed, and no others. -/
structure Swept (start : StateId) (states : List RegionState) (n : Nat) (sweep : Sweep) :
    Prop where
  ready : sweep.Ready n
  ids : sweep.ids = states.map (·.id)
  bypassed : ∀ u, u ∈ sweep.bypassed ↔
    Removed start states u ∧ n ≤ (states.map (·.id)).idxOf u
  rerouted : ∀ s ∈ sweep.left, ∃ o ∈ states, Rerouted start states (· ∈ sweep.bypassed) o s
  length : sweep.bypassed.length + sweep.left.length = states.length

theorem swept_ofStates (hnodup : (states.map (·.id)).Nodup) :
    (ofStates states).Swept start states states.length where
  ready := ready_ofStates hnodup states.length
  ids := rfl
  bypassed := by
    intro u
    refine ⟨fun h => absurd h List.not_mem_nil, fun ⟨hremoved, hle⟩ => ?_⟩
    obtain ⟨v, hop⟩ := hremoved.hop
    have hlt := List.idxOf_lt_length_of_mem hop.mem_ids
    rw [List.length_map] at hlt
    exact absurd hlt (Nat.not_lt_of_le hle)
  rerouted := by
    intro s hs
    rw [left_ofStates] at hs
    exact ⟨s, hs, .refl (fun _ => List.not_mem_nil) s⟩
  length := by
    rw [left_ofStates]
    exact Nat.zero_add _

namespace Swept

theorem nodup (h : sweep.Swept start states n) : (states.map (·.id)).Nodup :=
  h.ids ▸ h.ready.nodup

theorem nodup_left (h : sweep.Swept start states n) : (sweep.left.map (·.id)).Nodup :=
  h.ready.nodup.sublist (List.filter_sublist.map _)

/-- The state that is to be visited is left, and its id stands where it stands. -/
theorem next (h : sweep.Swept start states (n + 1)) (hs : sweep.states[n]? = some s) :
    s ∈ sweep.left ∧ (states.map (·.id)).idxOf s.id = n := by
  have hmem : s ∈ sweep.left :=
    mem_left.mpr ⟨List.mem_of_getElem? hs, h.ready.unvisited n (Nat.lt_succ_self n) s hs⟩
  have hid : sweep.ids[n]? = some s.id := by rw [Sweep.ids, List.getElem?_map, hs, Option.map_some]
  rw [← h.ids]
  obtain ⟨hlt, heq⟩ := List.getElem?_eq_some_iff.mp hid
  exact ⟨hmem, heq ▸ h.ready.nodup.idxOf_getElem n hlt⟩

/-- **A state that can be bypassed when it is visited is to be removed.** -/
theorem removed_of_bypass (h : sweep.Swept start states (n + 1)) (hs : sweep.states[n]? = some s)
    {successor : StateId} (hbypass : s.bypass? start = some successor) :
    Removed start states s.id := by
  obtain ⟨hmem, hindex⟩ := h.next hs
  obtain ⟨o, ho, hrerouted⟩ := h.rerouted s hmem
  obtain ⟨v, hop, hsettles⟩ := hrerouted.hop_of_bypass ho hbypass
  obtain ⟨-, -, -, hne⟩ := bypass?_eq_some_iff.mp hbypass
  refine ⟨⟨v, hop⟩, not_firstOfCycle h.nodup hop hsettles hne fun x hx hlt => ?_⟩
  exact (h.bypassed x).mpr ⟨hx, hindex ▸ hlt⟩

/-- **A state that cannot be bypassed when it is visited is to stay.** -/
theorem not_removed (h : sweep.Swept start states (n + 1)) (hs : sweep.states[n]? = some s)
    (hbypass : s.bypass? start = none) : ¬ Removed start states s.id := by
  obtain ⟨hmem, hindex⟩ := h.next hs
  obtain ⟨o, ho, hrerouted⟩ := h.rerouted s hmem
  rintro ⟨⟨v, hop⟩, hnot⟩
  obtain ⟨v', hsettles, hsome⟩ := hrerouted.bypass_of_hop ho h.nodup hop
  obtain rfl : v' = s.id := by
    by_contra hne
    exact absurd ((hsome hne).symm.trans hbypass) (Option.some_ne_none v')
  refine hnot (firstOfCycle h.nodup hop hsettles.chain fun x hx => ?_)
  rw [hindex]
  exact Nat.le_of_succ_le ((h.bypassed x).mp hx).2

/-- The removed states from one place on are those behind it and the one there. -/
theorem removed_from_iff (h : sweep.Swept start states (n + 1)) (hs : sweep.states[n]? = some s)
    (u : StateId) : Removed start states u ∧ n ≤ (states.map (·.id)).idxOf u ↔
      (u = s.id ∧ Removed start states s.id) ∨ u ∈ sweep.bypassed := by
  obtain ⟨hmem, hindex⟩ := h.next hs
  rw [h.bypassed]
  constructor
  · rintro ⟨hremoved, hle⟩
    rcases Nat.eq_or_lt_of_le hle with heq | hlt
    · obtain ⟨v, hop⟩ := hremoved.hop
      obtain rfl := (List.idxOf_inj hop.mem_ids).mp (heq.symm.trans hindex.symm)
      exact .inl ⟨rfl, hremoved⟩
    · exact .inr ⟨hremoved, hlt⟩
  · rintro (⟨rfl, hremoved⟩ | ⟨hremoved, hlt⟩)
    · exact ⟨hremoved, Nat.le_of_eq hindex.symm⟩
    · exact ⟨hremoved, Nat.le_of_succ_le hlt⟩

/-- **One visit.** -/
theorem visit (h : sweep.Swept start states (n + 1)) (hn : n < states.length) :
    (sweep.visit start n).Swept start states n := by
  obtain ⟨s, hs⟩ : ∃ s, sweep.states[n]? = some s := by
    have hlength := congrArg List.length h.ids
    rw [Sweep.ids, List.length_map, List.length_map] at hlength
    exact ⟨_, List.getElem?_eq_getElem (hlength ▸ hn)⟩
  have hready : (sweep.visit start n).Ready n := h.ready.visit
  cases hbypass : s.bypass? start with
  | none =>
    have heq : sweep.visit start n = sweep := by rw [Sweep.visit, hs]; simp only [hbypass]
    rw [heq] at hready ⊢
    refine ⟨hready, h.ids, fun u => ?_, h.rerouted, h.length⟩
    rw [h.removed_from_iff hs]
    exact ⟨.inr, fun hu => hu.elim (fun hu => absurd hu.2 (h.not_removed hs hbypass)) id⟩
  | some successor =>
    have heq : sweep.visit start n = sweep.bypass s.id successor := by
      rw [Sweep.visit, hs]; simp only [hbypass]
    obtain ⟨-, -, -, hne⟩ := bypass?_eq_some_iff.mp hbypass
    obtain ⟨hmem, -⟩ := h.next hs
    obtain ⟨o, ho, hrerouted⟩ := h.rerouted s hmem
    obtain ⟨v, hop, hsettles⟩ := hrerouted.hop_of_bypass ho hbypass
    rw [heq] at hready ⊢
    refine ⟨hready, (ids_bypass hne h.ready.nodup).trans h.ids, fun u => ?_, ?_, ?_⟩
    · rw [h.removed_from_iff hs, bypassed_bypass, List.mem_cons,
        and_iff_left (h.removed_of_bypass hs hbypass)]
    · intro q hq
      rw [left_bypass h.ready hne] at hq
      obtain ⟨p, hp, -, rfl⟩ := mem_without.mp hq
      obtain ⟨o', ho', hrerouted'⟩ := h.rerouted p hp
      refine ⟨o', ho', hrerouted'.redirect hop hsettles hne fun a => ?_⟩
      rw [bypassed_bypass, List.mem_cons]
    · rw [left_bypass h.ready hne, bypassed_bypass, List.length_cons, ← h.length,
        ← length_without successor h.nodup_left hmem]
      omega

/-- **A whole run.** -/
theorem run : ∀ (n : Nat) {sweep : Sweep}, sweep.Swept start states n → n ≤ states.length →
    (sweep.run start n).Swept start states 0
  | 0, _, h, _ => h
  | n + 1, _, h, hn => run n (h.visit hn) (Nat.le_of_succ_le hn)

end Swept
end Sweep

/-- **Contraction comes to the contracted states.** -/
theorem contracted_contract (hnodup : (states.map (·.id)).Nodup) :
    Contracted start states (contract start states).1 (contract start states).2 := by
  have hinitial : (Sweep.ofStates states).Swept start states states.length :=
    Sweep.swept_ofStates hnodup
  have h := hinitial.run states.length (Nat.le_refl _)
  have hbypassed (u : StateId) : u ∈ (Sweep.run start states.length (.ofStates states)).bypassed ↔
      Removed start states u := by
    rw [h.bypassed]
    exact and_iff_left (Nat.zero_le _)
  have hstays (u : StateId) : u ∈ (contract start states).1.map (·.id) ↔
      u ∈ states.map (·.id) ∧ ¬ Removed start states u := by
    rw [← hbypassed, ← h.ids]
    exact Sweep.mem_map_id_left
  have hrerouted := h.rerouted
  simp only [hbypassed] at hrerouted
  refine ⟨(thinned_contract hnodup).ids, hstays, hrerouted, h.length, rfl, ?_⟩
  refine contract_eq_self fun s hs => Option.eq_none_iff_forall_not_mem.mpr fun successor hb => ?_
  -- A state that could be bypassed would be one to remove.
  obtain ⟨o, ho, hsame⟩ := hrerouted s hs
  obtain ⟨v, hop, hsettles⟩ := hsame.hop_of_bypass ho hb
  obtain ⟨-, -, -, hne⟩ := bypass?_eq_some_iff.mp hb
  refine ((hstays s.id).mp (List.mem_map_of_mem hs)).2 ⟨⟨v, hop⟩, ?_⟩
  exact not_firstOfCycle hnodup hop hsettles hne fun _ hx _ => hx

end Contraction

/-! ## Regions -/

namespace Automaton

/-- **Contracting a region comes to the contracted region**, whatever the automaton and the
start. -/
theorem contracted_region (a : Automaton) (start : StateId) :
    RegionState.Contracted start (a.region start false).states (a.region start true).states
      (a.region start true).stats :=
  Contraction.contracted_contract (a.nodup_reachable start)

/-- Of the cycle of the states 1 and 2 the first stays, and leads to itself. -/
example :
    let way (target : StateId) : State := ⟨[⟨.epsilon, target⟩], false⟩
    let a : Automaton := ⟨[way 1, way 2, way 1], []⟩
    a.region 0 true = ⟨0, [⟨0, false, [⟨.epsilon, 1⟩]⟩, ⟨1, false, [⟨.epsilon, 1⟩]⟩], ⟨1, 2⟩⟩ := by
  decide

end Automaton
end GrammarAtlas
