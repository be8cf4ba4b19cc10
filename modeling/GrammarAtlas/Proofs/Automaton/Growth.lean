import GrammarAtlas.Proofs.Automaton.Piece

/-!
# How building changes the steps of an automaton

An automaton is seen here through two things: how many states it has and which
steps its states make.  Each building operation says what it does to the two:
a new state makes no steps, a new transition is one step more, and everything
else leaves the steps alone.  The `run` lemmas carry this through the
combinators that take one fragment.

Building never takes anything away, and what an operation may touch is small.
`GrowsOn T a b` says that `b` came from `a` by changing at most the steps of the
states in `T`; other states of `a` make the same steps in `b`.
-/

namespace GrammarAtlas
namespace Automaton

variable {a b c : Automaton} {id source u v : StateId} {l : Label} {t : Transition}

/-- The steps that the states of the automaton make. -/
def steps (a : Automaton) : Steps :=
  fun u l v => ∃ s, a.get? u = some s ∧ ⟨l, v⟩ ∈ s.transitions

/-! ## Size -/

@[simp] theorem size_push : a.push.size = a.size + 1 := by
  simp [push, size]

theorem lt_size_push_push (a : Automaton) : a.size < a.push.push.size := by
  rw [size_push, size_push]
  exact Nat.lt_succ_of_lt (Nat.lt_succ_self a.size)

@[simp] theorem size_link : (a.link source t).size = a.size := by
  simp [link, size]

@[simp] theorem size_accept : (a.accept id).size = a.size := by
  simp [accept, size]

@[simp] theorem size_define (name : Text) (ends : RuleEnds) :
    (a.define name ends).size = a.size := rfl

/-! ## Steps -/

theorem lt_size_of_steps (h : a.steps u l v) : u < a.size := by
  obtain ⟨s, hs, -⟩ := h
  exact (List.getElem?_eq_some_iff.mp hs).1

/-- A state that does not exist yet makes no steps. -/
theorem final_of_size_le (h : a.size ≤ u) : a.steps.Final u :=
  fun _ _ he => absurd (lt_size_of_steps he) (not_lt.mpr h)

theorem get?_push_of_lt (h : u < a.size) : a.push.get? u = a.get? u :=
  List.getElem?_append_left h

/-- A state of an automaton with a new one is a state from before, or the new one. -/
theorem get?_push_cases {s : State} (h : a.push.get? u = some s) : a.get? u = some s ∨ s = {} := by
  rw [get?, push, List.getElem?_append] at h
  split at h
  · exact .inl h
  · obtain ⟨-, rfl⟩ : _ ∧ ({} : State) = s := by
      simpa [List.getElem?_singleton] using h
    exact .inr rfl

/-- A new state makes no steps and changes none. -/
@[simp] theorem steps_push : a.push.steps = a.steps := by
  funext u l v
  refine propext ⟨?_, ?_⟩
  · rintro ⟨s, hs, ht⟩
    rcases get?_push_cases hs with hs | rfl
    · exact ⟨s, hs, ht⟩
    · exact absurd ht List.not_mem_nil
  · rintro ⟨s, hs, ht⟩
    have hlt : u < a.states.length := (List.getElem?_eq_some_iff.mp hs).1
    exact ⟨s, (get?_push_of_lt hlt).trans hs, ht⟩

theorem get?_link : (a.link source t).get? u =
    (a.get? u).map fun s =>
      if source = u then { s with transitions := s.transitions ++ [t] } else s :=
  List.getElem?_modify ..

/-- A new transition is one step more. -/
theorem steps_link (hsource : source < a.size) :
    (a.link source t).steps = a.steps.join (.arrow source t.label t.target) := by
  have heq : ∀ {l v}, (⟨l, v⟩ : Transition) = t ↔ l = t.label ∧ v = t.target :=
    ⟨fun h => h ▸ ⟨rfl, rfl⟩, fun ⟨hl, hv⟩ => hl ▸ hv ▸ rfl⟩
  funext u l v
  refine propext ⟨?_, ?_⟩
  · rintro ⟨s, hs, ht⟩
    rw [get?_link] at hs
    obtain ⟨p, hp, rfl⟩ := Option.map_eq_some_iff.mp hs
    by_cases hu : source = u
    · rw [if_pos hu] at ht
      rcases List.mem_append.mp ht with ht | ht
      · exact Or.inl ⟨p, hp, ht⟩
      · exact Or.inr ⟨hu.symm, heq.mp (List.mem_singleton.mp ht)⟩
    · rw [if_neg hu] at ht
      exact Or.inl ⟨p, hp, ht⟩
  · rintro (⟨s, hs, ht⟩ | ⟨rfl, h⟩)
    · refine ⟨_, by rw [get?_link, hs, Option.map_some], ?_⟩
      by_cases hu : source = u
      · rw [if_pos hu]
        exact List.mem_append_left _ ht
      · rwa [if_neg hu]
    · have hs : a.get? u = some a.states[u] := List.getElem?_eq_getElem hsource
      refine ⟨_, by rw [get?_link, hs, Option.map_some], ?_⟩
      rw [if_pos rfl]
      exact List.mem_append_right _ (List.mem_singleton.mpr (heq.mpr h))

theorem get?_accept : (a.accept id).get? u =
    (a.get? u).map fun s => if id = u then { s with accepting := true } else s :=
  List.getElem?_modify ..

/-- Accepting is no matter of steps. -/
@[simp] theorem steps_accept : (a.accept id).steps = a.steps := by
  funext u l v
  have hsame (s : State) : (if id = u then { s with accepting := true } else s).transitions =
      s.transitions := by
    split <;> rfl
  refine propext ⟨?_, ?_⟩
  · rintro ⟨s, hs, ht⟩
    rw [get?_accept] at hs
    obtain ⟨p, hp, rfl⟩ := Option.map_eq_some_iff.mp hs
    exact ⟨p, hp, hsame p ▸ ht⟩
  · rintro ⟨s, hs, ht⟩
    exact ⟨_, by rw [get?_accept, hs, Option.map_some], (hsame s).symm ▸ ht⟩

@[simp] theorem steps_define (name : Text) (ends : RuleEnds) :
    (a.define name ends).steps = a.steps := rfl

/-- The automaton with a fragment put between two new states. -/
def bracket (a : Automaton) (g : Fragment) : Automaton :=
  (a.push.push.link a.size ⟨.epsilon, g.entry⟩).link g.exit ⟨.epsilon, a.size + 1⟩

@[simp] theorem size_bracket (a : Automaton) (g : Fragment) : (a.bracket g).size = a.size + 2 := by
  simp [bracket]

theorem steps_bracket {g : Fragment} (hg : g.exit < a.size) :
    (a.bracket g).steps =
      (a.steps.join (.silent a.size g.entry)).join (.silent g.exit (a.size + 1)) := by
  have hexit : g.exit < (a.push.push.link a.size ⟨.epsilon, g.entry⟩).size := by
    rw [size_link]
    exact hg.trans a.lt_size_push_push
  rw [bracket, steps_link hexit, steps_link a.lt_size_push_push, steps_push, steps_push]

/-- The automaton with a fragment defined as a rule. -/
def withRule (a : Automaton) (name : Text) (g : Fragment) : Automaton :=
  ((a.bracket g).accept (a.size + 1)).define name ⟨a.size, a.size + 1⟩

@[simp] theorem size_withRule (a : Automaton) (name : Text) (g : Fragment) :
    (a.withRule name g).size = a.size + 2 := by
  rw [withRule, size_define, size_accept, size_bracket]

theorem lt_size_withRule (a : Automaton) (name : Text) (g : Fragment) :
    a.size < (a.withRule name g).size := by
  rw [size_withRule]
  exact Nat.lt_succ_of_lt (Nat.lt_succ_self a.size)

@[simp] theorem steps_withRule (a : Automaton) (name : Text) (g : Fragment) :
    (a.withRule name g).steps = (a.bracket g).steps := by
  rw [withRule, steps_define, steps_accept]

theorem get?_withRule (a : Automaton) (name : Text) (g : Fragment) (u : StateId) :
    (a.withRule name g).get? u = ((a.bracket g).get? u).map fun s =>
      if a.size + 1 = u then { s with accepting := true } else s :=
  get?_accept

/-! ## Growth -/

/-- `b` came from `a` by new states and new steps of the states in `T`. -/
structure GrowsOn (T : Set StateId) (a b : Automaton) : Prop where
  size_le : a.size ≤ b.size
  steps_iff : ∀ u < a.size, u ∉ T → ∀ l v, b.steps u l v ↔ a.steps u l v

namespace GrowsOn

variable {S T : Set StateId}

theorem refl (T : Set StateId) (a : Automaton) : GrowsOn T a a :=
  ⟨le_rfl, fun _ _ _ _ _ => Iff.rfl⟩

theorem mono (h : GrowsOn S a b) (hsub : S ⊆ T) : GrowsOn T a b :=
  ⟨h.size_le, fun u hu hout => h.steps_iff u hu fun hS => hout (hsub hS)⟩

/-- Growth composes, and the second part may also touch what the first part
added. -/
theorem trans (h : GrowsOn T a b) (h' : GrowsOn (T ∪ Set.Ici a.size) b c) : GrowsOn T a c where
  size_le := h.size_le.trans h'.size_le
  steps_iff := by
    intro u hu hout l v
    have hout' : u ∉ T ∪ Set.Ici a.size := by
      rintro (hT | hnew)
      · exact hout hT
      · exact absurd hu (not_lt.mpr hnew)
    exact (h'.steps_iff u (hu.trans_le h.size_le) hout' l v).trans (h.steps_iff u hu hout l v)

/-- Steps that are added in `T` and in new states are growth on `T`. -/
theorem of_steps (hsize : a.size ≤ b.size) (hold : ∀ u l v, a.steps u l v → b.steps u l v)
    (hnew : ∀ u l v, b.steps u l v → a.steps u l v ∨ u ∈ T ∨ a.size ≤ u) : GrowsOn T a b := by
  refine ⟨hsize, fun u hu hout l v => ⟨fun he => ?_, hold u l v⟩⟩
  rcases hnew u l v he with he | hT | hge
  · exact he
  · exact absurd hT hout
  · exact absurd hu (not_lt.mpr hge)

end GrowsOn

/-! ## Rules -/

theorem lookup_setRule (name : Text) (ends : RuleEnds) :
    ∀ rules, (setRule name ends rules).lookup name = some ends
  | [] => List.lookup_cons_self
  | r :: rules => by
    rw [setRule]
    split
    · exact List.lookup_cons_self
    · rename_i hne
      obtain ⟨other, ends'⟩ := r
      have hother : (name == other) = false := beq_false_of_ne (Ne.symm hne)
      rw [List.lookup_cons, hother]
      exact lookup_setRule name ends rules

end Automaton

/-! ## Running the operations -/

namespace Build

open Automaton

variable {α β : Type} {a b : Automaton} {g : Fragment}

theorem run_bind {m : Build α} {k : α → Build β} {x : α} (h : m.run a = .ok (x, b)) :
    (m >>= k).run a = (k x).run b := by
  rw [StateT.run_bind, h]
  rfl

theorem run_addState (a : Automaton) :
    ∃ b, addState.run a = .ok (a.size, b) ∧ b.size = a.size + 1 ∧ b.steps = a.steps :=
  ⟨a.push, rfl, size_push, steps_push⟩

/-- A transition is drawn out of a state that exists. -/
theorem run_connect_of_lt {source : StateId} (target : StateId) (l : Label) (h : source < a.size) :
    (connect source target l).run a = .ok ((), a.link source ⟨l, target⟩) := by
  show (if source < a.size then set (a.link source ⟨l, target⟩) else throw ⟨source⟩ :
    Build Unit).run a = _
  rw [if_pos h]
  rfl

/-- No transition is drawn out of a missing state. -/
theorem run_connect_of_le {source : StateId} (target : StateId) (l : Label) (h : a.size ≤ source) :
    (connect source target l).run a = .error ⟨source⟩ := by
  show (if source < a.size then set (a.link source ⟨l, target⟩) else throw ⟨source⟩ :
    Build Unit).run a = _
  rw [if_neg (Nat.not_lt_of_le h)]
  rfl

/-- Drawing a transition out of a state that exists does not fail. -/
theorem run_connect {source : StateId} (target : StateId) (l : Label) (h : source < a.size) :
    ∃ b, (connect source target l).run a = .ok ((), b) ∧ b.size = a.size ∧
      b.steps = a.steps.join (.arrow source l target) :=
  ⟨a.link source ⟨l, target⟩, run_connect_of_lt target l h, size_link, steps_link h⟩

/-- Two new states, the first of which can be drawn from. -/
theorem run_addState_addState (a : Automaton) : ∃ a₁ a₂, addState.run a = .ok (a.size, a₁) ∧
    addState.run a₁ = .ok (a.size + 1, a₂) ∧ a₂.size = a.size + 2 ∧ a₂.steps = a.steps := by
  obtain ⟨a₁, h₁, hsize₁, hsteps₁⟩ := run_addState a
  obtain ⟨a₂, h₂, hsize₂, hsteps₂⟩ := run_addState a₁
  rw [hsize₁] at h₂
  exact ⟨a₁, a₂, h₁, h₂, by omega, hsteps₂.trans hsteps₁⟩

theorem run_labelled (l : Label) (a : Automaton) :
    ∃ b, (labelled l).run a = .ok (⟨a.size, a.size + 1⟩, b) ∧ b.size = a.size + 2 ∧
      b.steps = a.steps.join (.arrow a.size l (a.size + 1)) := by
  obtain ⟨a₁, a₂, h₁, h₂, hsize₂, hsteps₂⟩ := run_addState_addState a
  have hnew : a.size < a₂.size := by omega
  obtain ⟨a₃, h₃, hsize₃, hsteps₃⟩ := run_connect (a.size + 1) l hnew
  refine ⟨a₃, ?_, hsize₃.trans hsize₂, by rw [hsteps₃, hsteps₂]⟩
  rw [labelled, run_bind h₁, run_bind h₂, run_bind h₃]
  rfl

theorem run_optional (hg : g.exit < a.size) :
    ∃ b, (optional g).run a = .ok (⟨a.size, a.size + 1⟩, b) ∧ b.size = a.size + 2 ∧
      b.steps = ((a.steps.join (.silent a.size g.entry)).join
        (.silent a.size (a.size + 1))).join (.silent g.exit (a.size + 1)) := by
  obtain ⟨a₁, a₂, h₁, h₂, hsize₂, hsteps₂⟩ := run_addState_addState a
  have hnew : a.size < a₂.size := by omega
  obtain ⟨a₃, h₃, hsize₃, hsteps₃⟩ := run_connect g.entry .epsilon hnew
  rw [← hsize₃] at hnew
  obtain ⟨a₄, h₄, hsize₄, hsteps₄⟩ := run_connect (a.size + 1) .epsilon hnew
  rw [← hsize₄] at hnew
  obtain ⟨a₅, h₅, hsize₅, hsteps₅⟩ := run_connect (a.size + 1) .epsilon (hg.trans hnew)
  refine ⟨a₅, ?_, by omega, by rw [hsteps₅, hsteps₄, hsteps₃, hsteps₂]⟩
  rw [optional, run_bind h₁, run_bind h₂, run_bind h₃, run_bind h₄, run_bind h₅]
  rfl

theorem run_zeroOrMore (hg : g.exit < a.size) :
    ∃ b, (zeroOrMore g).run a = .ok (⟨a.size, a.size + 1⟩, b) ∧ b.size = a.size + 2 ∧
      b.steps = ((a.steps.join (.silent a.size g.entry)).join
        (.silent a.size (a.size + 1))).join (.silent g.exit a.size) := by
  obtain ⟨a₁, a₂, h₁, h₂, hsize₂, hsteps₂⟩ := run_addState_addState a
  have hnew : a.size < a₂.size := by omega
  obtain ⟨a₃, h₃, hsize₃, hsteps₃⟩ := run_connect g.entry .epsilon hnew
  rw [← hsize₃] at hnew
  obtain ⟨a₄, h₄, hsize₄, hsteps₄⟩ := run_connect (a.size + 1) .epsilon hnew
  rw [← hsize₄] at hnew
  obtain ⟨a₅, h₅, hsize₅, hsteps₅⟩ := run_connect a.size .epsilon (hg.trans hnew)
  refine ⟨a₅, ?_, by omega, by rw [hsteps₅, hsteps₄, hsteps₃, hsteps₂]⟩
  rw [zeroOrMore, run_bind h₁, run_bind h₂, run_bind h₃, run_bind h₄, run_bind h₅]
  rfl

theorem run_oneOrMore (hg : g.exit < a.size) :
    ∃ b, (oneOrMore g).run a = .ok (⟨g.entry, a.size⟩, b) ∧ b.size = a.size + 1 ∧
      b.steps = (a.steps.join (.silent g.exit g.entry)).join (.silent g.exit a.size) := by
  obtain ⟨a₁, h₁, hsize₁, hsteps₁⟩ := run_addState a
  have hexit : g.exit < a₁.size := hg.trans (hsize₁ ▸ Nat.lt_succ_self a.size)
  obtain ⟨a₂, h₂, hsize₂, hsteps₂⟩ := run_connect g.entry .epsilon hexit
  rw [← hsize₂] at hexit
  obtain ⟨a₃, h₃, hsize₃, hsteps₃⟩ := run_connect a.size .epsilon hexit
  refine ⟨a₃, ?_, by omega, by rw [hsteps₃, hsteps₂, hsteps₁]⟩
  rw [oneOrMore, run_bind h₁, run_bind h₂, run_bind h₃]
  rfl

/-- A rule is defined by putting a fragment between two new states, the second of which
accepts. -/
theorem run_defineRule_of_lt (name : Text) (hg : g.exit < a.size) :
    (defineRule name g).run a = .ok (⟨a.size, a.size + 1⟩, a.withRule name g) := by
  have h₁ : addState.run a = .ok (a.size, a.push) := rfl
  have h₂ : addState.run a.push = .ok (a.size + 1, a.push.push) := by
    rw [← size_push]
    rfl
  have h₃ := run_connect_of_lt g.entry .epsilon a.lt_size_push_push
  have h₄ := run_connect_of_lt (a := a.push.push.link a.size ⟨.epsilon, g.entry⟩) (a.size + 1)
    .epsilon (size_link ▸ hg.trans a.lt_size_push_push)
  rw [defineRule, run_bind h₁, run_bind h₂, run_bind h₃, run_bind h₄]
  rfl

/-- Defining a rule puts a fragment between two new states, and the name then
stands for the two. -/
theorem run_defineRule (name : Text) (hg : g.exit < a.size) :
    ∃ b, (defineRule name g).run a = .ok (⟨a.size, a.size + 1⟩, b) ∧ b.size = a.size + 2 ∧
      b.steps = (a.steps.join (.silent a.size g.entry)).join (.silent g.exit (a.size + 1)) ∧
      b.rule? name = some ⟨a.size, a.size + 1⟩ := by
  refine ⟨_, run_defineRule_of_lt name hg, size_withRule a name g, ?_, lookup_setRule ..⟩
  rw [steps_withRule, steps_bracket hg]

end Build
end GrammarAtlas
