import GrammarAtlas.Proofs.Automaton.Expression
import GrammarAtlas.Proofs.Automaton.Frame

/-!
# Rules keep to themselves

The states that are added while a rule is compiled and defined are the region of its start,
and its stop is the one of them that accepts.  The regions of older states stay as they are
(`rules_isolated`).

The region is not too large, since no transition leads from a new state to an old one; a call
of a rule leads behind the call (`Grown`).  It is not too small, since each combinator leads
to all that it was given and to all that it has added.  So at any time during an assembly the
new states are those that the entries of the pool lead to (`Assembly.covered`).
-/

namespace GrammarAtlas

open Automaton

namespace Automaton

/-- All transitions lead to states that exist. -/
def Closed (a : Automaton) : Prop := ∀ s ∈ a.states, ∀ t ∈ s.transitions, t.target < a.size

instance (a : Automaton) : Decidable a.Closed :=
  inferInstanceAs (Decidable (∀ s ∈ a.states, ∀ t ∈ s.transitions, t.target < a.size))

theorem Closed.lt_size {a : Automaton} (h : a.Closed) :
    ∀ u l v, a.steps u l v → v < a.size := by
  rintro u l v ⟨s, hs, ht⟩
  exact h s (List.mem_of_getElem? hs) ⟨l, v⟩ ht

/-- **A rule that keeps to itself**, behind the states of an automaton. -/
structure Isolated (a c : Automaton) (ends : RuleEnds) : Prop where
  /-- The region of its start has the new states, and no others. -/
  ids : (c.region ends.start false).ids.Perm (List.range' a.size (c.size - a.size))
  accepting : ((c.region ends.start false).states.filter (·.accepting)).map (·.id) = [ends.stop]
  /-- The regions of old states are what they were. -/
  frame : ∀ start < a.size, ∀ optimize, c.region start optimize = a.region start optimize

end Automaton

/-! ## The states of an assembly -/

/-- The fragments of a pool are among the new states, and lead to all of these. -/
structure Covered (a b : Automaton) (pool : List Made) : Prop where
  grown : Grown a.size a b
  strands : ∀ m ∈ pool, Strand a.size b m.fragment
  covered : ∀ u, a.size ≤ u → u < b.size → ∃ m ∈ pool, Leads b.steps m.fragment.entry u

namespace Covered

variable {a b c : Automaton} {f : Fragment} {pool used : List Made} {m : Build Fragment}
  {e : Expression}

theorem start (a : Automaton) : Covered a a [] where
  grown := .refl a.size a
  strands := nofun
  covered := fun _ hu hlt => absurd hlt (Nat.not_lt_of_le hu)

theorem reorder {pool' : List Made} (h : Covered a b pool) (hperm : pool.Perm pool') :
    Covered a b pool' where
  grown := h.grown
  strands := fun m hm => h.strands m (hperm.mem_iff.mpr hm)
  covered := by
    intro u hu hlt
    obtain ⟨m, hm, hleads⟩ := h.covered u hu hlt
    exact ⟨m, hperm.mem_iff.mp hm, hleads⟩

/-- The fragments that a call uses are among the new states. -/
theorem strands_used (h : Covered a b (used ++ pool)) :
    ∀ g ∈ used.map (·.fragment), Strand a.size b g := by
  intro g hg
  obtain ⟨m, hm, rfl⟩ := List.mem_map.mp hg
  exact h.strands m (List.mem_append_left pool hm)

/-- **A call of a combinator** leads to all that the fragments it uses have led to. -/
theorem call (used : List Made) (h : Covered a b (used ++ pool)) (hrun : m.run b = .ok (f, c))
    (hcall : Build.Sat a.size b m (Joined a.size b (used.map (·.fragment)))) :
    Covered a c (⟨e, f⟩ :: pool) := by
  obtain ⟨hgrown, hjoined⟩ := hcall f c hrun
  refine ⟨h.grown.trans hgrown, ?_, fun u hu hlt => ?_⟩
  · rintro m (_ | ⟨_, hm⟩)
    · exact hjoined.toStrand
    · exact (h.strands m (List.mem_append_right used hm)).grow hgrown
  · rcases Nat.lt_or_ge u b.size with hold | hnew
    · obtain ⟨m, hm, hleads⟩ := h.covered u hu hold
      have hleads := hgrown.leads hleads
      rcases List.mem_append.mp hm with hm | hm
      · have hentry := hjoined.used m.fragment (List.mem_map_of_mem hm)
        exact ⟨⟨e, f⟩, List.mem_cons_self, hentry.trans hleads⟩
      · exact ⟨m, List.mem_cons_of_mem _ hm, hleads⟩
    · exact ⟨⟨e, f⟩, List.mem_cons_self, hjoined.new u hnew hlt⟩

end Covered

open Build in
/-- **The new states of an assembly** are those that the entries of its pool lead to. -/
theorem Assembly.covered {a b : Automaton} {pool : List Made} (h : Assembly a b pool) :
    Covered a b pool := by
  induction h with
  | start => exact .start a
  | reorder _ hperm ih => exact ih.reorder hperm
  | symbol text _ hrun ih =>
    exact ih.call [] hrun (sat_labelled ih.grown.size_le (.symbol text))
  | ruleRef name _ hrun ih =>
    exact ih.call [] hrun (sat_labelled ih.grown.size_le (.rule name))
  | epsilon _ hrun ih => exact ih.call [] hrun (sat_epsilon ih.grown.size_le)
  | sequence used _ hrun ih =>
    exact ih.call used hrun (sat_sequence ih.grown.size_le ih.strands_used)
  | alternation used _ hrun ih =>
    exact ih.call used hrun (sat_alternation ih.grown.size_le ih.strands_used)
  | optional inner _ hrun ih =>
    have hinner := ih.strands inner List.mem_cons_self
    exact ih.call [inner] hrun (sat_optional ih.grown.size_le hinner)
  | zeroOrMore inner _ hrun ih =>
    have hinner := ih.strands inner List.mem_cons_self
    exact ih.call [inner] hrun (sat_zeroOrMore ih.grown.size_le hinner)
  | oneOrMore inner _ hrun ih =>
    have hinner := ih.strands inner List.mem_cons_self
    exact ih.call [inner] hrun (sat_oneOrMore ih.grown.size_le hinner)

/-! ## The states of a rule -/

variable {a b : Automaton} {f : Fragment} {e : Expression} {n u : Nat}

/-- Putting a fragment between two new states is growth from where its states begin. -/
theorem Automaton.Strand.grown_bracket (hf : Strand n b f) (hn : n ≤ b.size) :
    Grown n b (b.bracket f) := by
  have hpush : Grown n b b.push := .push hn
  have hpush' : Grown n b.push b.push.push := .push (hn.trans hpush.size_le)
  have hf' := (hf.grow hpush).grow hpush'
  have hentry : Grown n b.push.push (b.push.push.link b.size ⟨.epsilon, f.entry⟩) :=
    .link b.lt_size_push_push hn hf.entry_ge hf'.entry_lt
  refine ((hpush.trans hpush').trans hentry).trans ?_
  refine .link (hf'.grow hentry).exit_lt hf.exit_ge (Nat.le_succ_of_le hn) ?_
  rw [size_link, size_push, size_push]
  exact Nat.lt_succ_self _

namespace Covered

/-- With the start and the stop of the rule the automaton has grown from its old states on. -/
theorem grown_bracket (h : Covered a b [⟨e, f⟩]) : Grown a.size a (b.bracket f) :=
  h.grown.trans ((h.strands _ List.mem_cons_self).grown_bracket h.grown.size_le)

/-- The new states are closed under the steps of the rule. -/
theorem mem_new_of_leads (h : Covered a b [⟨e, f⟩]) (name : Text)
    (hleads : Leads (b.withRule name f).steps b.size u) :
    a.size ≤ u ∧ u < (b.withRule name f).size := by
  have hgrown := h.grown_bracket
  refine hleads.mem_of_closed (P := fun u => a.size ≤ u ∧ u < (b.withRule name f).size) ?_
    ⟨h.grown.size_le, (b.lt_size_withRule name f)⟩
  intro u l v hu hstep
  rw [steps_withRule] at hstep
  rw [size_withRule, ← size_bracket b f]
  rcases hgrown.confined u l v hstep with hold | hnew
  · exact absurd (lt_size_of_steps hold) (Nat.not_lt_of_le hu.1)
  · exact hnew

/-- The start of the rule leads to all new states. -/
theorem leads_withRule (h : Covered a b [⟨e, f⟩]) (name : Text) (hu : a.size ≤ u)
    (hlt : u < (b.withRule name f).size) : Leads (b.withRule name f).steps b.size u := by
  have hf : Strand a.size b f := h.strands _ List.mem_cons_self
  have hold : ∀ {v}, Leads b.steps f.entry v → Leads (b.withRule name f).steps b.size v := by
    intro v hv
    rw [steps_withRule, steps_bracket hf.exit_lt]
    have hentry : Leads ((b.steps.join (.silent b.size f.entry)).join
        (.silent f.exit (b.size + 1))) b.size f.entry := .step (.inl (.inr ⟨rfl, rfl, rfl⟩))
    exact hentry.trans (hv.mono fun _ _ _ hstep => .inl (.inl hstep))
  have hstop : Leads (b.withRule name f).steps b.size (b.size + 1) := by
    refine (hold hf.leads).trans (Leads.step (l := .epsilon) ?_)
    rw [steps_withRule, steps_bracket hf.exit_lt]
    exact .inr ⟨rfl, rfl, rfl⟩
  rw [size_withRule] at hlt
  rcases Nat.lt_or_ge u b.size with hltb | hge
  · obtain ⟨m, hm, hleads⟩ := h.covered u hu hltb
    obtain rfl := List.mem_singleton.mp hm
    exact hold hleads
  · obtain rfl | rfl : u = b.size ∨ u = b.size + 1 := by omega
    · exact .refl
    · exact hstop

/-- Among the new states the stop of the rule is the one that accepts. -/
theorem accepting_iff (h : Covered a b [⟨e, f⟩]) (name : Text) {s : State} (hu : a.size ≤ u)
    (hs : (b.withRule name f).get? u = some s) : s.accepting = true ↔ u = b.size + 1 := by
  have hgrown := h.grown_bracket
  rw [get?_withRule] at hs
  obtain ⟨s', hs', rfl⟩ := Option.map_eq_some_iff.mp hs
  by_cases hstop : b.size + 1 = u
  · rw [if_pos hstop]
    exact iff_of_true rfl hstop.symm
  · rw [if_neg hstop]
    refine iff_of_false (fun haccepting => ?_) (Ne.symm hstop)
    obtain ⟨old, hold, -⟩ := hgrown.accepting u s' hs' haccepting
    exact absurd (List.getElem?_eq_some_iff.mp hold).1 (Nat.not_lt_of_le hu)

/-- The region of the rule's start has the new states. -/
theorem mem_ids_iff (h : Covered a b [⟨e, f⟩]) (name : Text) :
    u ∈ ((b.withRule name f).region b.size false).ids ↔
      a.size ≤ u ∧ u < (b.withRule name f).size := by
  rw [mem_ids_region (b.lt_size_withRule name f)]
  exact ⟨fun hu => h.mem_new_of_leads name hu.2,
    fun hu => ⟨hu.2, h.leads_withRule name hu.1 hu.2⟩⟩

/-- In the region the stop is the state that accepts. -/
theorem accepting_region_iff (h : Covered a b [⟨e, f⟩]) (name : Text) {s : RegionState}
    (hs : s ∈ ((b.withRule name f).region b.size false).states) :
    s.accepting = true ↔ s.id = b.size + 1 := by
  obtain ⟨hstate, hleads⟩ := (mem_states_region (b.lt_size_withRule name f)).mp hs
  obtain ⟨t, ht, heq⟩ := Option.map_eq_some_iff.mp hstate
  have hsame : t.accepting = s.accepting := congrArg (·.accepting) heq
  rw [← hsame]
  exact h.accepting_iff name (h.mem_new_of_leads name hleads).1 ht

theorem mem_accepting_iff (h : Covered a b [⟨e, f⟩]) (name : Text) :
    u ∈ ((((b.withRule name f).region b.size false).states.filter (·.accepting)).map (·.id)) ↔
      u = b.size + 1 := by
  have hle := h.grown.size_le
  have hsize : (b.withRule name f).size = b.size + 2 := size_withRule b name f
  rw [List.mem_map]
  constructor
  · rintro ⟨s, hs, rfl⟩
    obtain ⟨hs, haccepting⟩ := List.mem_filter.mp hs
    exact (h.accepting_region_iff name hs).mp haccepting
  · rintro rfl
    obtain ⟨s, hs, hid⟩ := List.mem_map.mp ((h.mem_ids_iff name (u := b.size + 1)).mpr (by omega))
    exact ⟨s, List.mem_filter.mpr ⟨hs, (h.accepting_region_iff name hs).mpr hid⟩, hid⟩

/-- Old states are the same behind the rule. -/
theorem get?_withRule_of_lt (h : Covered a b [⟨e, f⟩]) (name : Text) (hu : u < a.size) :
    (b.withRule name f).get? u = a.get? u := by
  have hle := h.grown.size_le
  rw [get?_withRule, h.grown_bracket.old u hu]
  cases a.get? u with
  | none => rfl
  | some s => rw [Option.map_some, if_neg (by omega)]

/-- **The rule keeps to itself.** -/
theorem isolated (h : Covered a b [⟨e, f⟩]) (ha : a.Closed) (name : Text) :
    Isolated a (b.withRule name f) ⟨b.size, b.size + 1⟩ where
  ids := by
    refine (List.perm_ext_iff_of_nodup (nodup_reachable ..) List.nodup_range').mpr fun u => ?_
    have hle : a.size ≤ (b.withRule name f).size :=
      h.grown.size_le.trans (Nat.le_of_lt (b.lt_size_withRule name f))
    rw [List.mem_range'_1, Nat.add_sub_cancel' hle]
    exact h.mem_ids_iff name
  accepting := by
    refine List.perm_singleton.mp
      ((List.perm_ext_iff_of_nodup ?_ (List.nodup_singleton _)).mpr fun u => ?_)
    · exact (List.filter_sublist.map _).nodup (nodup_reachable ..)
    · rw [List.mem_singleton]
      exact h.mem_accepting_iff name
  frame := by
    intro start hstart optimize
    exact region_congr ha.lt_size (h.grown.size_le.trans (Nat.le_of_lt (b.lt_size_withRule name f)))
      (fun u hu => h.get?_withRule_of_lt name hu) hstart optimize

end Covered

/-- **Rules do not leak into each other.**  Let all transitions of an automaton lead to its
states.  A body can be compiled into it, and however it was put together there, its definition
under a name adds states that are the region of the rule's start, with the rule's stop as the
one that accepts, and the regions of the states that were there before stay as they are. -/
theorem rules_isolated {a : Automaton} (ha : a.Closed) (name : Text) (e : Expression) :
    (∃ f b, e.build.run a = .ok (f, b) ∧ Assembly a b [⟨e, f⟩]) ∧
    ∀ f b, Assembly a b [⟨e, f⟩] →
      ∃ ends c, (Build.defineRule name f).run b = .ok (ends, c) ∧ c.rule? name = some ends ∧
        Isolated a c ends := by
  refine ⟨e.build_assembly .start, fun f b h => ?_⟩
  have hf : Strand a.size b f := h.covered.strands _ List.mem_cons_self
  exact ⟨_, _, Build.run_defineRule_of_lt name hf.exit_lt, lookup_setRule ..,
    h.covered.isolated ha name⟩

/-- A rule that calls another one in a loop, behind the states of that one. -/
theorem rules_isolated_of_call :
    let a : Automaton := ⟨[⟨[⟨.epsilon, 1⟩], false⟩, ⟨[], true⟩], [(['s'], ⟨0, 1⟩)]⟩
    let e : Expression := .oneOrMore (.sequence [.symbol ['x'], .ruleRef ['s']])
    a.Closed ∧ ∃ f b ends c, e.build.run a = .ok (f, b) ∧
      (Build.defineRule ['r'] f).run b = .ok (ends, c) ∧ c.rule? ['r'] = some ends ∧
      Isolated a c ends := by
  intro a e
  have ha : a.Closed := by decide
  obtain ⟨⟨f, b, hrun, hassembly⟩, hdefine⟩ := rules_isolated ha ['r'] e
  obtain ⟨ends, c, hrun', hrule, hisolated⟩ := hdefine f b hassembly
  exact ⟨ha, f, b, ends, c, hrun, hrun', hrule, hisolated⟩

end GrammarAtlas
