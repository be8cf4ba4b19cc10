import GrammarAtlas.Proofs.Automaton.BreadthFirst
import GrammarAtlas.Proofs.Automaton.Words

/-!
# Contraction keeps the language

A sweep keeps three things in step: the states, the arrivals and the ids of the
states that were bypassed.  What it has left so far is `Sweep.left`, and the
proof follows that list alone.

* `language_without`: taking one state off a list and redirecting all others
  around it keeps the words spelled from the start.
* `left_bypass`: what a bypass of the sweep does to the states that are left is
  exactly this, although it redirects only where the arrivals say so.  That
  needs the arrivals to know every transition between states that are left,
  which is part of the invariant `Sweep.Ready`.
* `Ready.visit` and `left_run_induction` carry the invariant, and with it whatever taking off
  a state keeps, through a run; `contract_induction` says so of the whole contraction.

A bypassed state is never visited again, because ids are distinct.
-/

namespace GrammarAtlas
namespace RegionState

variable {s : RegionState} {states : List RegionState}
variable {start id old new successor u v : StateId} {l : Label}

/-! ## Redirecting one state -/

@[simp] theorem id_redirect : (s.redirect old new).id = s.id := rfl

@[simp] theorem accepting_redirect : (s.redirect old new).accepting = s.accepting := rfl

/-- Where one gets when `old` is to be left aside for `new`. -/
def detour (old new v : StateId) : StateId := if v = old then new else v

theorem detour_self : detour old new old = new := if_pos rfl

theorem detour_of_ne (h : v ≠ old) : detour old new v = v := if_neg h

theorem mem_transitions_redirect {t : Transition} :
    t ∈ (s.redirect old new).transitions ↔
      ∃ t' ∈ s.transitions, t = ⟨t'.label, detour old new t'.target⟩ := by
  have heach (t' : Transition) :
      (if t'.target = old then { t' with target := new } else t') =
        ⟨t'.label, detour old new t'.target⟩ := by
    by_cases h : t'.target = old
    · rw [if_pos h, h, detour_self]
    · rw [if_neg h, detour_of_ne h]
  simp only [redirect, List.mem_map, heach]
  exact exists_congr fun _ => and_congr_right fun _ => eq_comm

/-- A state that does not lead to `old` stays as it is. -/
theorem redirect_eq_self (h : ∀ t ∈ s.transitions, t.target ≠ old) : s.redirect old new = s := by
  have hsame : (s.transitions.map fun t =>
      if t.target = old then { t with target := new } else t) = s.transitions :=
    (List.map_congr_left fun t ht => if_neg (h t ht)).trans (List.map_id s.transitions)
  rw [redirect, hsame]

/-- Redirecting a second time changes nothing. -/
theorem redirect_redirect (h : new ≠ old) :
    (s.redirect old new).redirect old new = s.redirect old new := by
  refine redirect_eq_self ?_
  intro t ht
  obtain ⟨t', -, rfl⟩ := mem_transitions_redirect.mp ht
  by_cases hold : t'.target = old
  · rwa [hold, detour_self]
  · rwa [detour_of_ne hold]

/-- A state can be bypassed when it is neither the start nor accepting and has
one transition, an epsilon transition to another state. -/
theorem bypass?_eq_some_iff : s.bypass? start = some successor ↔
    s.transitions = [⟨.epsilon, successor⟩] ∧ s.id ≠ start ∧ s.accepting = false ∧
      successor ≠ s.id := by
  rcases hs : s.transitions with _ | ⟨⟨l, v⟩, _ | ⟨t, ts⟩⟩
  · simp [bypass?, soleEpsilonTarget?, hs]
  · cases l with
    | epsilon =>
      by_cases hv : v = successor
      · subst hv
        simp [bypass?, soleEpsilonTarget?, hs, Label.isEpsilon]
      · simp [bypass?, soleEpsilonTarget?, hs, Label.isEpsilon, hv]
    | symbol t => simp [bypass?, soleEpsilonTarget?, hs, Label.isEpsilon]
    | rule name => simp [bypass?, soleEpsilonTarget?, hs, Label.isEpsilon]
  · simp [bypass?, soleEpsilonTarget?, hs]

/-! ## Taking one state off a list -/

/-- The states but for those with an id, all led around it. -/
def without (id successor : StateId) (states : List RegionState) : List RegionState :=
  (states.filter (·.id ≠ id)).map (·.redirect id successor)

theorem mem_without : s ∈ without id successor states ↔
    ∃ p ∈ states, p.id ≠ id ∧ s = p.redirect id successor := by
  simp only [without, List.mem_map, List.mem_filter, decide_eq_true_eq]
  constructor
  · rintro ⟨p, ⟨hp, hid⟩, rfl⟩
    exact ⟨p, hp, hid, rfl⟩
  · rintro ⟨p, hp, hid, rfl⟩
    exact ⟨p, ⟨hp, hid⟩, rfl⟩

/-- The steps that remain are the old ones that start elsewhere, with a detour. -/
theorem steps_without : steps (without id successor states) u l v ↔
    u ≠ id ∧ ∃ v', steps states u l v' ∧ v = detour id successor v' := by
  constructor
  · rintro ⟨s, hs, rfl, ht⟩
    obtain ⟨p, hp, hid, rfl⟩ := mem_without.mp hs
    obtain ⟨⟨l', v'⟩, ht', heq⟩ := mem_transitions_redirect.mp ht
    obtain ⟨rfl, rfl⟩ := Transition.mk.inj heq
    exact ⟨hid, v', ⟨p, hp, rfl, ht'⟩, rfl⟩
  · rintro ⟨hid, v', ⟨p, hp, rfl, ht⟩, rfl⟩
    exact ⟨p.redirect id successor, mem_without.mpr ⟨p, hp, hid, rfl⟩, rfl,
      mem_transitions_redirect.mpr ⟨_, ht, rfl⟩⟩

/-- A path around the state becomes one through it. -/
theorem spells_of_without {w : List Letter} {x : StateId}
    (hsilent : steps states id .epsilon successor)
    (hp : Spells (steps (without id successor states)) u w x) : Spells (steps states) u w x := by
  induction hp with
  | nil u => exact .nil u
  | cons he _ ih =>
    obtain ⟨-, v', he', rfl⟩ := steps_without.mp he
    by_cases hv : v' = id
    · rw [hv, detour_self] at ih
      exact .cons (hv ▸ he') (ih.silent hsilent)
    · rw [detour_of_ne hv] at ih
      exact .cons he' ih

/-- A path through the state, which can only be left silently for its successor,
becomes one around it. -/
theorem spells_without {w : List Letter} {x : StateId}
    (honly : ∀ l v, steps states id l v → l = .epsilon ∧ v = successor) (hne : successor ≠ id)
    (hp : Spells (steps states) u w x) (hx : x ≠ id) :
    Spells (steps (without id successor states)) (detour id successor u) w x := by
  induction hp with
  | nil u =>
    rw [detour_of_ne hx]
    exact .nil u
  | @cons u v x l w he _ ih =>
    by_cases hu : u = id
    · obtain ⟨rfl, rfl⟩ := honly l v (hu ▸ he)
      rw [hu, detour_self]
      have hrest := ih hx
      rwa [detour_of_ne hne] at hrest
    · rw [detour_of_ne hu]
      exact .cons (steps_without.mpr ⟨hu, v, he, rfl⟩) (ih hx)

/-- **Taking a state that can be bypassed off a list keeps the language.** -/
theorem language_without (hnodup : (states.map (·.id)).Nodup) (hs : s ∈ states)
    (h : s.bypass? start = some successor) :
    language start (without s.id successor states) = language start states := by
  obtain ⟨htrans, hstart, hreject, hne⟩ := bypass?_eq_some_iff.mp h
  have hsilent : steps states s.id .epsilon successor := ⟨s, hs, rfl, by simp [htrans]⟩
  have honly : ∀ l v, steps states s.id l v → l = .epsilon ∧ v = successor := by
    rintro l v ⟨p, hp, hid, ht⟩
    rw [List.inj_on_of_nodup_map hnodup hp hs hid, htrans, List.mem_singleton] at ht
    exact ⟨congrArg Transition.label ht, congrArg Transition.target ht⟩
  ext w
  rw [mem_language, mem_language]
  constructor
  · rintro ⟨q, hq, hacc, hp⟩
    obtain ⟨p, hp', -, rfl⟩ := mem_without.mp hq
    exact ⟨p, hp', hacc, spells_of_without hsilent hp⟩
  · rintro ⟨p, hp', hacc, hp⟩
    have hid : p.id ≠ s.id := by
      intro hid
      rw [List.inj_on_of_nodup_map hnodup hp' hs hid, hreject] at hacc
      exact Bool.false_ne_true hacc
    refine ⟨p.redirect s.id successor, mem_without.mpr ⟨p, hp', hid, rfl⟩, hacc, ?_⟩
    have haround := spells_without honly hne hp hid
    rwa [detour_of_ne hstart.symm] at haround

end RegionState

namespace Contraction

open RegionState

variable {states : List RegionState} {sweep : Sweep}
variable {start id old new successor source : StateId}

/-! ## Redirecting where the arrivals say so -/

theorem redirectIn_eq_map (hnodup : (states.map (·.id)).Nodup) :
    redirectIn id old new states =
      states.map fun s => if s.id = id then s.redirect old new else s := by
  induction states with
  | nil => rfl
  | cons s ss ih =>
    rw [List.map_cons] at hnodup
    obtain ⟨hhead, htail⟩ := List.nodup_cons.mp hnodup
    rw [redirectIn, List.map_cons]
    by_cases hid : s.id = id
    · have hrest : ∀ q ∈ ss, q.id ≠ id := fun q hq hqid =>
        hhead (List.mem_map.mpr ⟨q, hq, hqid.trans hid.symm⟩)
      have hsame : (ss.map fun q => if q.id = id then q.redirect old new else q) = ss :=
        (List.map_congr_left fun q hq => if_neg (hrest q hq)).trans (List.map_id ss)
      rw [if_pos ⟨hid, by simpa using hrest⟩, if_pos hid, hsame]
    · rw [if_neg fun h => hid h.1, if_neg hid, ih htail]

namespace Sweep

/-- The ids of the states of a sweep. -/
def ids (sweep : Sweep) : List StateId := sweep.states.map (·.id)

theorem mem_left {s : RegionState} :
    s ∈ sweep.left ↔ s ∈ sweep.states ∧ s.id ∉ sweep.bypassed := by
  simp [left]

/-- The states of a list, those redirected whose id satisfies `p`. -/
def redirected (p : StateId → Prop) [DecidablePred p] (old new : StateId)
    (states : List RegionState) : List RegionState :=
  states.map fun s => if p s.id then s.redirect old new else s

theorem map_id_redirected (p : StateId → Prop) [DecidablePred p] :
    (redirected p old new states).map (·.id) = states.map (·.id) := by
  rw [redirected, List.map_map]
  refine List.map_congr_left ?_
  intro s _
  by_cases h : p s.id <;> simp [h]

@[simp] theorem bypassed_hand : (hand old new sweep source).bypassed = sweep.bypassed := by
  rw [hand]
  split <;> rfl

theorem states_hand (hnodup : sweep.ids.Nodup) :
    (hand old new sweep source).states =
      redirected (fun id => id = source ∧ id ∉ sweep.bypassed) old new sweep.states := by
  rw [hand]
  split
  · rename_i h
    conv_lhs => rw [← List.map_id sweep.states]
    refine List.map_congr_left fun s hs => (if_neg ?_).symm
    rintro ⟨hid, hleft⟩
    rcases h with h | h
    · exact hleft (hid ▸ h)
    · exact absurd hid (by simpa using List.all_eq_true.mp h s hs)
  · rename_i h
    obtain ⟨hsource, -⟩ := not_or.mp h
    show redirectIn source old new sweep.states = _
    rw [redirectIn_eq_map hnodup]
    refine List.map_congr_left ?_
    intro s _
    by_cases hid : s.id = source
    · rw [if_pos hid, if_pos ⟨hid, hid ▸ hsource⟩]
    · rw [if_neg hid, if_neg fun hb => hid hb.1]

/-- Handing over adds an arrival for a source that is there and not bypassed. -/
theorem mem_arrivals_hand {a : Arrival} : a ∈ (hand old new sweep source).arrivals ↔
    a ∈ sweep.arrivals ∨ (a = ⟨new, source⟩ ∧ source ∈ sweep.ids ∧ source ∉ sweep.bypassed) := by
  have hids : sweep.states.all (·.id ≠ source) = true ↔ source ∉ sweep.ids := by
    simp only [ids, List.all_eq_true, decide_eq_true_eq, List.mem_map, not_exists, not_and]
  rw [hand]
  split
  · rename_i h
    rw [hids] at h
    constructor
    · exact Or.inl
    · rintro (ha | ⟨-, hin, hout⟩)
      · exact ha
      · rcases h with h | h
        · exact absurd h hout
        · exact absurd hin h
  · rename_i h
    rw [hids, not_or, not_not] at h
    simp [h.1, h.2]

@[simp] theorem ids_hand (hnodup : sweep.ids.Nodup) :
    (hand old new sweep source).ids = sweep.ids := by
  rw [ids, states_hand hnodup, map_id_redirected, ids]

@[simp] theorem bypassed_foldl_hand (sources : List StateId) :
    (sources.foldl (hand old new) sweep).bypassed = sweep.bypassed := by
  induction sources generalizing sweep with
  | nil => rfl
  | cons source sources ih => rw [List.foldl_cons, ih, bypassed_hand]

/-- Handing over from several sources redirects each of them, however often it
is named. -/
theorem states_foldl_hand (hne : new ≠ old) (sources : List StateId) (hnodup : sweep.ids.Nodup) :
    (sources.foldl (hand old new) sweep).states =
      redirected (fun id => id ∈ sources ∧ id ∉ sweep.bypassed) old new sweep.states := by
  induction sources generalizing sweep with
  | nil => simp [redirected]
  | cons source sources ih =>
    rw [List.foldl_cons, ih (by rwa [ids_hand hnodup]), states_hand hnodup, bypassed_hand,
      redirected, redirected, redirected, List.map_map]
    refine List.map_congr_left ?_
    intro s _
    by_cases hid : s.id = source
    · subst hid
      by_cases hout : s.id ∈ sweep.bypassed
      · simp [hout]
      · by_cases hmem : s.id ∈ sources
        · simp [hout, hmem, redirect_redirect hne]
        · simp [hout, hmem]
    · simp [hid]

theorem mem_arrivals_foldl_hand (sources : List StateId) (hnodup : sweep.ids.Nodup) {a : Arrival} :
    a ∈ (sources.foldl (hand old new) sweep).arrivals ↔ a ∈ sweep.arrivals ∨
      (a.target = new ∧ a.source ∈ sources ∧ a.source ∈ sweep.ids ∧ a.source ∉ sweep.bypassed) := by
  induction sources generalizing sweep with
  | nil => simp
  | cons source sources ih =>
    rw [List.foldl_cons, ih (by rwa [ids_hand hnodup]), mem_arrivals_hand, ids_hand hnodup,
      bypassed_hand, List.mem_cons]
    obtain ⟨target, from'⟩ := a
    rw [Arrival.mk.injEq]
    constructor
    · rintro ((h | ⟨⟨rfl, rfl⟩, h⟩) | ⟨rfl, h, h'⟩)
      · exact Or.inl h
      · exact Or.inr ⟨rfl, Or.inl rfl, h⟩
      · exact Or.inr ⟨rfl, Or.inr h, h'⟩
    · rintro (h | ⟨rfl, rfl | h, h'⟩)
      · exact Or.inl (Or.inl h)
      · exact Or.inl (Or.inr ⟨⟨rfl, rfl⟩, h'⟩)
      · exact Or.inr ⟨rfl, h, h'⟩

/-! ## One bypass -/

theorem mem_sources : source ∈ sweep.sources id ↔ ⟨id, source⟩ ∈ sweep.arrivals := by
  simp only [sources, List.mem_map, List.mem_filter, decide_eq_true_eq]
  constructor
  · rintro ⟨⟨target, from'⟩, ⟨ha, rfl⟩, rfl⟩
    exact ha
  · exact fun ha => ⟨_, ⟨ha, rfl⟩, rfl⟩

@[simp] theorem bypassed_bypass :
    (sweep.bypass id successor).bypassed = id :: sweep.bypassed := by
  simp [bypass, forget]

theorem states_bypass (hne : successor ≠ id) (hnodup : sweep.ids.Nodup) :
    (sweep.bypass id successor).states =
      redirected (fun p => p ∈ sweep.sources id ∧ p ∉ sweep.bypassed) id successor
        sweep.states := by
  have hforget : (sweep.forget id).ids.Nodup := hnodup
  exact states_foldl_hand hne _ hforget

theorem ids_bypass (hne : successor ≠ id) (hnodup : sweep.ids.Nodup) :
    (sweep.bypass id successor).ids = sweep.ids := by
  rw [ids, states_bypass hne hnodup, map_id_redirected, ids]

/-- The arrivals elsewhere stay, and the arrivals at the bypassed state go to its
successor. -/
theorem mem_arrivals_bypass (hnodup : sweep.ids.Nodup) {a : Arrival} :
    a ∈ (sweep.bypass id successor).arrivals ↔ (a ∈ sweep.arrivals ∧ a.target ≠ id) ∨
      (a.target = successor ∧ ⟨id, a.source⟩ ∈ sweep.arrivals ∧ a.source ∈ sweep.ids ∧
        a.source ∉ sweep.bypassed) := by
  have hforget : a ∈ (sweep.forget id).arrivals ↔ a ∈ sweep.arrivals ∧ a.target ≠ id := by
    simp [forget]
  have hsource : a.source ∈ sweep.sources id ↔ ⟨id, a.source⟩ ∈ sweep.arrivals := mem_sources
  rw [← hforget, ← hsource]
  have hids : (sweep.forget id).ids.Nodup := hnodup
  exact mem_arrivals_foldl_hand (sweep.sources id) hids

/-- **A sweep that is ready to visit its first `n` states.**  The ids are
distinct, the arrivals know every transition of the states that are left, and
none of the states to be visited is bypassed. -/
structure Ready (n : Nat) (sweep : Sweep) : Prop where
  nodup : sweep.ids.Nodup
  arrivals : ∀ s ∈ sweep.left, ∀ t ∈ s.transitions, ⟨t.target, s.id⟩ ∈ sweep.arrivals
  unvisited : ∀ i < n, ∀ s, sweep.states[i]? = some s → s.id ∉ sweep.bypassed

/-- **A bypass takes one state off those that are left.** -/
theorem left_bypass {n : Nat} (h : sweep.Ready n) (hne : successor ≠ id) :
    (sweep.bypass id successor).left = without id successor sweep.left := by
  have hkeep : (fun s => decide (s.id ∉ id :: sweep.bypassed)) ∘ (fun s : RegionState =>
      if s.id ∈ sweep.sources id ∧ s.id ∉ sweep.bypassed then s.redirect id successor else s) =
      fun s => decide (s.id ≠ id) && decide (s.id ∉ sweep.bypassed) := by
    funext s
    by_cases hs : s.id ∈ sweep.sources id ∧ s.id ∉ sweep.bypassed <;> simp [hs]
  rw [left, bypassed_bypass, states_bypass hne h.nodup, redirected, List.filter_map, hkeep,
    without, left, List.filter_filter]
  refine List.map_congr_left ?_
  intro s hs
  obtain ⟨hmem, hkept⟩ := List.mem_filter.mp hs
  have hout : s.id ∉ sweep.bypassed := of_decide_eq_true (Bool.and_eq_true_iff.mp hkept).2
  by_cases hsource : s.id ∈ sweep.sources id
  · exact if_pos ⟨hsource, hout⟩
  · -- a state that no arrival at `id` comes from does not lead there
    rw [if_neg fun hb => hsource hb.1, redirect_eq_self]
    intro t ht htarget
    have harrival := h.arrivals s (mem_left.mpr ⟨hmem, hout⟩) t ht
    rw [htarget] at harrival
    exact hsource (mem_sources.mpr harrival)

/-- The arrivals go on knowing every transition of the states that are left. -/
theorem arrivals_bypass {n : Nat} (h : sweep.Ready n) (hne : successor ≠ id) :
    ∀ s ∈ (sweep.bypass id successor).left, ∀ t ∈ s.transitions,
      ⟨t.target, s.id⟩ ∈ (sweep.bypass id successor).arrivals := by
  intro s hs t ht
  rw [left_bypass h hne] at hs
  obtain ⟨p, hp, hid, rfl⟩ := mem_without.mp hs
  obtain ⟨t', ht', rfl⟩ := mem_transitions_redirect.mp ht
  have harrival := h.arrivals p hp t' ht'
  obtain ⟨hmem, hout⟩ := mem_left.mp hp
  rw [mem_arrivals_bypass h.nodup]
  by_cases htarget : t'.target = id
  · rw [htarget, detour_self]
    exact Or.inr ⟨rfl, htarget ▸ harrival, List.mem_map.mpr ⟨p, hmem, rfl⟩, hout⟩
  · rw [detour_of_ne htarget]
    exact Or.inl ⟨harrival, htarget⟩

/-! ## The whole run -/

theorem visit_eq_self_or_bypass (start : StateId) (sweep : Sweep) (i : Nat) :
    sweep.visit start i = sweep ∨ ∃ s successor, sweep.states[i]? = some s ∧
      s.bypass? start = some successor ∧ sweep.visit start i = sweep.bypass s.id successor := by
  rw [visit]
  split
  · exact Or.inl rfl
  · rename_i s hs
    split
    · exact Or.inl rfl
    · rename_i successor hbypass
      exact Or.inr ⟨s, successor, hs, hbypass, rfl⟩

/-- A visit leaves the sweep ready for the states in front. -/
theorem Ready.visit {i : Nat} (h : sweep.Ready (i + 1)) : (sweep.visit start i).Ready i := by
  rcases visit_eq_self_or_bypass start sweep i with heq | ⟨s, successor, hs, hbypass, heq⟩
  · rw [heq]
    exact ⟨h.nodup, h.arrivals, fun j hj => h.unvisited j (Nat.lt_succ_of_lt hj)⟩
  · obtain ⟨-, -, -, hne⟩ := bypass?_eq_some_iff.mp hbypass
    have hids : (sweep.bypass s.id successor).ids = sweep.ids := ids_bypass hne h.nodup
    rw [heq]
    refine ⟨hids ▸ h.nodup, arrivals_bypass h hne, fun j hj q hq => ?_⟩
    have hqid : sweep.ids[j]? = some q.id := by
      rw [← hids, ids, List.getElem?_map, hq, Option.map_some]
    obtain ⟨p, hp, hpid⟩ := Option.map_eq_some_iff.mp ((List.getElem?_map ..).symm.trans hqid)
    rw [bypassed_bypass, List.mem_cons, not_or, ← hpid]
    refine ⟨fun hsame => ?_, h.unvisited j (Nat.lt_succ_of_lt hj) p hp⟩
    -- distinct ids stand at distinct places
    have hsid : sweep.ids[i]? = some s.id := by rw [ids, List.getElem?_map, hs, Option.map_some]
    have hlen : j < sweep.ids.length := (List.getElem?_eq_some_iff.mp hqid).1
    have hji : j = i := (List.getElem?_inj hlen h.nodup).mp (by rw [hqid, hsid, ← hpid, hsame])
    omega

/-- **A visit leaves the states as they are, or takes one off them that can be bypassed.** -/
theorem left_visit (start : StateId) {i : Nat} (h : sweep.Ready (i + 1)) :
    (sweep.visit start i).left = sweep.left ∨ ∃ s ∈ sweep.left, ∃ successor,
      s.bypass? start = some successor ∧
        (sweep.visit start i).left = without s.id successor sweep.left := by
  rcases visit_eq_self_or_bypass start sweep i with heq | ⟨s, successor, hs, hbypass, heq⟩
  · rw [heq]
    exact .inl rfl
  · obtain ⟨-, -, -, hne⟩ := bypass?_eq_some_iff.mp hbypass
    have hmem : s ∈ sweep.left :=
      mem_left.mpr ⟨List.mem_of_getElem? hs, h.unvisited i (Nat.lt_succ_self i) s hs⟩
    rw [heq, left_bypass h hne]
    exact .inr ⟨s, hmem, successor, hbypass, rfl⟩

/-- What taking off a state keeps, a run keeps of what is left. -/
theorem left_run_induction {P : List RegionState → Prop}
    (hstep : ∀ states s successor, (states.map (·.id)).Nodup → s ∈ states →
      s.bypass? start = some successor → P states → P (without s.id successor states)) :
    ∀ (n : Nat) (sweep : Sweep), sweep.Ready n → P sweep.left → P (run start n sweep).left
  | 0, _, _, hP => hP
  | n + 1, sweep, h, hP => by
    rw [run]
    refine left_run_induction hstep n _ h.visit ?_
    rcases left_visit start h with heq | ⟨s, hs, successor, hbypass, heq⟩
    · rwa [heq]
    · rw [heq]
      exact hstep _ s successor (h.nodup.sublist (List.filter_sublist.map _)) hs hbypass hP

@[simp] theorem left_ofStates : (ofStates states).left = states := by
  simp [left, ofStates]

theorem ready_ofStates (hnodup : (states.map (·.id)).Nodup) (n : Nat) :
    (ofStates states).Ready n where
  nodup := hnodup
  arrivals := by
    intro s hs t ht
    rw [left_ofStates] at hs
    exact List.mem_flatMap.mpr ⟨s, hs, List.mem_map_of_mem ht⟩
  unvisited := fun _ _ _ _ => List.not_mem_nil

end Sweep

/-- **Induction over a contraction.**  What holds of some states with distinct ids, and goes on
holding when a state that can be bypassed is taken off them, holds of the states that are left. -/
theorem contract_induction {P : List RegionState → Prop} (hnodup : (states.map (·.id)).Nodup)
    (hstep : ∀ states s successor, (states.map (·.id)).Nodup → s ∈ states →
      s.bypass? start = some successor → P states → P (without s.id successor states))
    (h : P states) : P (contract start states).1 := by
  refine Sweep.left_run_induction hstep _ _ (Sweep.ready_ofStates hnodup states.length) ?_
  rwa [Sweep.left_ofStates]

/-- Contraction of states with distinct ids keeps their language. -/
theorem language_contract (hnodup : (states.map (·.id)).Nodup) :
    language start (contract start states).1 = language start states := by
  refine contract_induction (P := fun left => language start left = language start states)
    hnodup (fun left s successor hleft hs hbypass ih => ?_) rfl
  rw [language_without hleft hs hbypass, ih]

end Contraction

/-- **Contraction keeps the language of every region.**  Whatever the automaton
and the start, the contracted region spells the words of the full one. -/
theorem Automaton.language_region_contracted (a : Automaton) (start : StateId) :
    (a.region start true).language = (a.region start false).language :=
  Contraction.language_contract (a.nodup_reachable start)

end GrammarAtlas
