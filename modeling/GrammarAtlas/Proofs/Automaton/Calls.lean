import GrammarAtlas.Proofs.Automaton.Isolation

/-!
# Automata that calls have made

An automaton comes from calls that add states, draw transitions, join fragments and define
rules.  The ids that a call is given have been returned by calls before it, and nothing else is
asked of them: a fragment may be used in many places or be made up of any two states, and a rule
may be defined again (`Reached`).

Such an automaton is *intact*: its transitions lead to states and its rules start at states, and
all ids that were returned are states (`Reached.intact`).  So whoever has got an id can go on
with it (`Call.succeeds`).

`Succeeds a m Q` says of a computation that it does not fail on `a`, leaves an intact automaton
with no fewer states, and gives a result as it is said.  It is put together from what one new
state and one new transition do (`Succeeds.bind_addState`, `Succeeds.bind_connect`).
-/

namespace GrammarAtlas

/-- The states that a fragment names. -/
def Fragment.ids (f : Fragment) : List StateId := [f.entry, f.exit]

/-- One call that extends an automaton. -/
inductive Call where
  | addState
  | connect (source target : StateId) (label : Label)
  | symbol (text : Text)
  | ruleRef (name : Text)
  | epsilon
  | sequence (fragments : List Fragment)
  | alternation (fragments : List Fragment)
  | optional (inner : Fragment)
  | zeroOrMore (inner : Fragment)
  | oneOrMore (inner : Fragment)
  | defineRule (name : Text) (body : Fragment)
  deriving DecidableEq, Repr

namespace Call

/-- The ids that the call is given. -/
def given : Call → List StateId
  | addState | symbol _ | ruleRef _ | epsilon => []
  | connect source target _ => [source, target]
  | sequence fragments | alternation fragments => fragments.flatMap (·.ids)
  | optional inner | zeroOrMore inner | oneOrMore inner => inner.ids
  | defineRule _ body => body.ids

/-- Makes the call.  The result is the ids that it returns. -/
def make : Call → Build (List StateId)
  | addState => return [← Build.addState]
  | connect source target label => do
    Build.connect source target label
    return []
  | symbol text => return (← Build.symbol text).ids
  | ruleRef name => return (← Build.ruleRef name).ids
  | epsilon => return (← Build.epsilon).ids
  | sequence fragments => return (← Build.sequence fragments).ids
  | alternation fragments => return (← Build.alternation fragments).ids
  | optional inner => return (← Build.optional inner).ids
  | zeroOrMore inner => return (← Build.zeroOrMore inner).ids
  | oneOrMore inner => return (← Build.oneOrMore inner).ids
  | defineRule name body => do
    let ends ← Build.defineRule name body
    return [ends.start, ends.stop]

end Call

/-- **An automaton that some calls have made**, and the ids that they have returned. -/
inductive Reached : Automaton → List StateId → Prop
  | empty : Reached {} []
  | call {a b : Automaton} {known returned : List StateId} (c : Call) :
      Reached a known → c.given ⊆ known → c.make.run a = .ok (returned, b) →
      Reached b (returned ++ known)

namespace Automaton

variable {a : Automaton} {source id : StateId} {t : Transition} {ends : RuleEnds} {name : Text}

/-- **Nothing leads out of the automaton**: all transitions lead to states, and all rules start
at one. -/
structure Intact (a : Automaton) : Prop where
  closed : a.Closed
  starts : ∀ name ends, a.rule? name = some ends → ends.start < a.size

theorem closed_of_steps (h : ∀ u l v, a.steps u l v → v < a.size) : a.Closed := by
  intro s hs t ht
  obtain ⟨u, hu⟩ := List.getElem?_of_mem hs
  exact h u t.label t.target ⟨s, hu, ht⟩

/-- A name stands for a rule that was defined, or for what it stood for before. -/
theorem lookup_setRule_cases {other : Text} {found : RuleEnds} :
    ∀ {rules}, (setRule name ends rules).lookup other = some found →
      found = ends ∨ rules.lookup other = some found
  | [], h => by
    rw [setRule, List.lookup_cons] at h
    split at h
    · exact .inl (Option.some.inj h).symm
    · cases h
  | r :: rules, h => by
    obtain ⟨key, old⟩ := r
    rw [setRule] at h
    split at h
    · rename_i heq
      obtain rfl : key = name := heq
      rw [List.lookup_cons] at h ⊢
      split at h
      · exact .inl (Option.some.inj h).symm
      · exact .inr h
    · rw [List.lookup_cons] at h ⊢
      split at h
      · exact .inr h
      · exact lookup_setRule_cases h

theorem Intact.push (h : a.Intact) : a.push.Intact where
  closed := by
    refine closed_of_steps fun u l v hstep => ?_
    rw [steps_push] at hstep
    rw [size_push]
    exact Nat.lt_succ_of_lt (h.closed.lt_size u l v hstep)
  starts := by
    intro name ends hrule
    rw [size_push]
    exact Nat.lt_succ_of_lt (h.starts name ends hrule)

theorem Intact.link (h : a.Intact) (hsource : source < a.size) (htarget : t.target < a.size) :
    (a.link source t).Intact where
  closed := by
    refine closed_of_steps fun u l v hstep => ?_
    rw [size_link]
    rw [steps_link hsource] at hstep
    rcases hstep with hstep | ⟨-, -, rfl⟩
    · exact h.closed.lt_size u l v hstep
    · exact htarget
  starts := by
    intro name ends hrule
    rw [size_link]
    exact h.starts name ends hrule

theorem Intact.accept (h : a.Intact) (id : StateId) : (a.accept id).Intact where
  closed := by
    refine closed_of_steps fun u l v hstep => ?_
    rw [steps_accept] at hstep
    rw [size_accept]
    exact h.closed.lt_size u l v hstep
  starts := by
    intro name ends hrule
    rw [size_accept]
    exact h.starts name ends hrule

theorem Intact.define (h : a.Intact) (name : Text) (hends : ends.start < a.size) :
    (a.define name ends).Intact where
  closed := h.closed
  starts := by
    intro other found hrule
    rcases lookup_setRule_cases hrule with rfl | hold
    · exact hends
    · exact h.starts other found hold

/-- The automaton has the states of a fragment. -/
structure Has (a : Automaton) (f : Fragment) : Prop where
  entry : f.entry < a.size
  exit : f.exit < a.size

theorem has_mk {e x : Nat} (he : e < a.size) (hx : x < a.size) : a.Has ⟨e, x⟩ := ⟨he, hx⟩

theorem Has.grow {b : Automaton} {f : Fragment} (h : a.Has f) (hsize : a.size ≤ b.size) : b.Has f :=
  ⟨h.entry.trans_le hsize, h.exit.trans_le hsize⟩

theorem has_iff {f : Fragment} : a.Has f ↔ ∀ id ∈ f.ids, id < a.size := by
  simp only [Fragment.ids, List.forall_mem_cons, List.not_mem_nil, false_imp_iff, implies_true,
    and_true]
  exact ⟨fun h => ⟨h.entry, h.exit⟩, fun h => ⟨h.1, h.2⟩⟩

end Automaton

namespace Build

open Automaton

variable {α β : Type} {a b : Automaton} {m : Build α} {k : α → Build β}
  {Q : α → Automaton → Prop} {R : β → Automaton → Prop} {f g : Fragment} {fs : List Fragment}

/-- **The computation succeeds**, leaves an intact automaton, and its result is as it is said. -/
def Succeeds (a : Automaton) (m : Build α) (Q : α → Automaton → Prop) : Prop :=
  ∃ x b, m.run a = .ok (x, b) ∧ a.size ≤ b.size ∧ b.Intact ∧ Q x b

namespace Succeeds

theorem pure {x : α} (h : a.Intact) (hx : Q x a) : Succeeds a (Pure.pure x) Q :=
  ⟨x, a, rfl, Nat.le_refl _, h, hx⟩

theorem bind (hm : Succeeds a m Q)
    (hk : ∀ x b, a.size ≤ b.size → b.Intact → Q x b → Succeeds b (k x) R) :
    Succeeds a (m >>= k) R := by
  obtain ⟨x, b, hrun, hsize, hb, hx⟩ := hm
  obtain ⟨y, c, hrun', hsize', hc, hy⟩ := hk x b hsize hb hx
  exact ⟨y, c, (run_bind hrun).trans hrun', hsize.trans hsize', hc, hy⟩

/-- A new state, and what is done with it. -/
theorem bind_addState {k : StateId → Build β} (h : a.Intact)
    (hk : ∀ b, b.Intact → b.size = a.size + 1 → Succeeds b (k a.size) R) :
    Succeeds a (addState >>= k) R := by
  have hadd : Succeeds a addState fun x b => x = a.size ∧ b.size = a.size + 1 :=
    ⟨a.size, a.push, rfl, size_push ▸ Nat.le_succ _, h.push, rfl, size_push⟩
  refine hadd.bind ?_
  rintro _ b - hb ⟨rfl, hsize⟩
  exact hk b hb hsize

/-- Two new states, and what is done with them. -/
theorem bind_addState_addState {k : StateId → StateId → Build β} (h : a.Intact)
    (hk : ∀ b, b.Intact → b.size = a.size + 2 → Succeeds b (k a.size (a.size + 1)) R) :
    Succeeds a (do let entry ← addState; let exit ← addState; k entry exit) R := by
  refine bind_addState h fun b hb hsize => ?_
  refine bind_addState hb fun c hc hsize' => ?_
  rw [hsize] at hsize' ⊢
  exact hk c hc hsize'

/-- A new transition between states, and what is done behind it. -/
theorem bind_connect {source target : Nat} {l : Label} {k : Build β} (h : a.Intact)
    (hsource : source < a.size) (htarget : target < a.size)
    (hk : ∀ b, b.Intact → b.size = a.size → Succeeds b k R) :
    Succeeds a (do connect source target l; k) R := by
  have hconnect : Succeeds a (connect source target l) fun _ b => b.size = a.size :=
    ⟨(), a.link source ⟨l, target⟩, run_connect_of_lt target l hsource, size_link.ge,
      h.link hsource htarget, size_link⟩
  refine hconnect.bind ?_
  rintro - b - hb hsize
  exact hk b hb hsize

end Succeeds

/-! ## The combinators -/

theorem succeeds_labelled (h : a.Intact) (l : Label) :
    Succeeds a (labelled l) fun f b => b.Has f := by
  refine Succeeds.bind_addState_addState h fun b hb hsize => ?_
  refine Succeeds.bind_connect hb (by omega) (by omega) fun c hc hsize' => ?_
  exact .pure hc (has_mk (by omega) (by omega))

theorem succeeds_epsilon (h : a.Intact) : Succeeds a epsilon fun f b => b.Has f := by
  refine Succeeds.bind_addState h fun b hb hsize => ?_
  exact .pure hb (has_mk (by omega) (by omega))

theorem succeeds_chain {x : Nat} (h : a.Intact) (hx : x < a.size) (hfs : ∀ g ∈ fs, a.Has g) :
    Succeeds a (chain x fs) fun y b => y < b.size := by
  induction fs generalizing a x with
  | nil => exact .pure h hx
  | cons f fs ih =>
    have hf := hfs f List.mem_cons_self
    refine Succeeds.bind_connect h hx hf.entry fun b hb hsize => ?_
    exact ih hb (hf.grow hsize.ge).exit fun g hg =>
      (hfs g (List.mem_cons_of_mem f hg)).grow hsize.ge

theorem succeeds_sequence (h : a.Intact) (hfs : ∀ g ∈ fs, a.Has g) :
    Succeeds a (sequence fs) fun f b => b.Has f := by
  cases fs with
  | nil => exact succeeds_epsilon h
  | cons f fs =>
    have hf := hfs f List.mem_cons_self
    refine (succeeds_chain h hf.exit fun g hg => hfs g (List.mem_cons_of_mem f hg)).bind ?_
    rintro y b hsize hb hy
    exact .pure hb ⟨(hf.grow hsize).entry, hy⟩

theorem succeeds_fan {e x : Nat} (h : a.Intact) (he : e < a.size) (hx : x < a.size)
    (hfs : ∀ g ∈ fs, a.Has g) : Succeeds a (fan e x fs) fun _ b => a.size ≤ b.size := by
  induction fs generalizing a with
  | nil => exact .pure h (Nat.le_refl _)
  | cons f fs ih =>
    have hf := hfs f List.mem_cons_self
    refine Succeeds.bind_connect h he hf.entry fun b hb hsize => ?_
    refine Succeeds.bind_connect hb (hf.grow hsize.ge).exit (by omega) fun c hc hsize' => ?_
    have hsize := hsize'.trans hsize
    obtain ⟨y, d, hrun, hle, hd, -⟩ := ih hc (by omega) (by omega) fun g hg =>
      (hfs g (List.mem_cons_of_mem f hg)).grow hsize.ge
    exact ⟨y, d, hrun, hle, hd, by omega⟩

theorem succeeds_alternation (h : a.Intact) (hfs : ∀ g ∈ fs, a.Has g) :
    Succeeds a (alternation fs) fun f b => b.Has f := by
  rcases fs with _ | ⟨f, _ | ⟨g, fs⟩⟩
  · exact succeeds_epsilon h
  · exact .pure h (hfs f List.mem_cons_self)
  · refine Succeeds.bind_addState_addState h fun b hb hsize => ?_
    refine (succeeds_fan hb (by omega) (by omega) fun f hf => (hfs f hf).grow (by omega)).bind ?_
    rintro - c - hc hle
    exact .pure hc (has_mk (by omega) (by omega))

theorem succeeds_optional (h : a.Intact) (hg : a.Has g) :
    Succeeds a (optional g) fun f b => b.Has f := by
  refine Succeeds.bind_addState_addState h fun b hb hsize => ?_
  have hg := hg.grow (b := b) (by omega)
  refine Succeeds.bind_connect hb (by omega) hg.entry fun c hc hsize₁ => ?_
  refine Succeeds.bind_connect hc (by omega) (by omega) fun d hd hsize₂ => ?_
  refine Succeeds.bind_connect hd (hg.grow (by omega)).exit (by omega) fun e he hsize₃ => ?_
  exact .pure he (has_mk (by omega) (by omega))

theorem succeeds_zeroOrMore (h : a.Intact) (hg : a.Has g) :
    Succeeds a (zeroOrMore g) fun f b => b.Has f := by
  refine Succeeds.bind_addState_addState h fun b hb hsize => ?_
  have hg := hg.grow (b := b) (by omega)
  refine Succeeds.bind_connect hb (by omega) hg.entry fun c hc hsize₁ => ?_
  refine Succeeds.bind_connect hc (by omega) (by omega) fun d hd hsize₂ => ?_
  refine Succeeds.bind_connect hd (hg.grow (by omega)).exit (by omega) fun e he hsize₃ => ?_
  exact .pure he (has_mk (by omega) (by omega))

theorem succeeds_oneOrMore (h : a.Intact) (hg : a.Has g) :
    Succeeds a (oneOrMore g) fun f b => b.Has f := by
  refine Succeeds.bind_addState h fun b hb hsize => ?_
  have hg := hg.grow (b := b) (by omega)
  refine Succeeds.bind_connect hb hg.exit hg.entry fun c hc hsize₁ => ?_
  have hg := hg.grow hsize₁.ge
  refine Succeeds.bind_connect hc hg.exit (by omega) fun d hd hsize₂ => ?_
  exact .pure hd (has_mk (hg.grow hsize₂.ge).entry (by omega))

theorem succeeds_defineRule (h : a.Intact) (name : Text) (hg : a.Has g) :
    Succeeds a (defineRule name g) fun ends b => ends.start < b.size ∧ ends.stop < b.size := by
  refine Succeeds.bind_addState_addState h fun b hb hsize => ?_
  have hg := hg.grow (b := b) (by omega)
  refine Succeeds.bind_connect hb (by omega) hg.entry fun c hc hsize₁ => ?_
  refine Succeeds.bind_connect hc (hg.grow hsize₁.ge).exit (by omega) fun d hd hsize₂ => ?_
  have hstart : a.size < (d.accept (a.size + 1)).size := by
    rw [size_accept]
    omega
  have hstop : a.size + 1 < (d.accept (a.size + 1)).size := by
    rw [size_accept]
    omega
  -- accepting and defining leave the states as many as they are
  refine ⟨⟨a.size, a.size + 1⟩, (d.accept (a.size + 1)).define name ⟨a.size, a.size + 1⟩, rfl, ?_,
    (hd.accept (a.size + 1)).define name hstart, hstart, hstop⟩
  rw [size_define, size_accept]

/-- A computation that makes a fragment of the automaton returns ids of states. -/
theorem Succeeds.ids {m : Build Fragment} (h : Succeeds a m fun f b => b.Has f) :
    Succeeds a (do return (← m).ids) fun returned b => ∀ id ∈ returned, id < b.size :=
  h.bind fun _ _ _ hb hf => .pure hb (has_iff.mp hf)

end Build

open Automaton Build

/-- **A call that is given states succeeds**, and the ids that it returns are states. -/
theorem Call.succeeds (c : Call) {a : Automaton} (h : a.Intact)
    (hgiven : ∀ id ∈ c.given, id < a.size) :
    Succeeds a c.make fun returned b => ∀ id ∈ returned, id < b.size := by
  have hfragments {fs : List Fragment} (hfs : ∀ id ∈ fs.flatMap (·.ids), id < a.size) :
      ∀ g ∈ fs, a.Has g := fun g hg =>
    has_iff.mpr fun id hid => hfs id (List.mem_flatMap.mpr ⟨g, hg, hid⟩)
  cases c with
  | addState =>
    refine Succeeds.bind_addState h fun b hb hsize => .pure hb ?_
    exact List.forall_mem_singleton.mpr (hsize ▸ Nat.lt_succ_self a.size)
  | connect source target l =>
    have hsource : source < a.size := hgiven source List.mem_cons_self
    have htarget : target < a.size := hgiven target (by simp [given])
    exact Succeeds.bind_connect h hsource htarget fun b hb _ => .pure hb nofun
  | symbol text => exact (succeeds_labelled h (.symbol text)).ids
  | ruleRef name => exact (succeeds_labelled h (.rule name)).ids
  | epsilon => exact (succeeds_epsilon h).ids
  | sequence fs => exact (succeeds_sequence h (hfragments hgiven)).ids
  | alternation fs => exact (succeeds_alternation h (hfragments hgiven)).ids
  | optional inner => exact (succeeds_optional h (has_iff.mpr hgiven)).ids
  | zeroOrMore inner => exact (succeeds_zeroOrMore h (has_iff.mpr hgiven)).ids
  | oneOrMore inner => exact (succeeds_oneOrMore h (has_iff.mpr hgiven)).ids
  | defineRule name body =>
    refine (succeeds_defineRule h name (has_iff.mpr hgiven)).bind ?_
    rintro ends b - hb ⟨hstart, hstop⟩
    exact .pure hb (List.forall_mem_cons.mpr ⟨hstart, List.forall_mem_singleton.mpr hstop⟩)

/-- **An automaton that calls have made is intact**, and the ids that they returned are states. -/
theorem Reached.intact {a : Automaton} {known : List StateId} (h : Reached a known) :
    a.Intact ∧ ∀ id ∈ known, id < a.size := by
  induction h with
  | empty => exact ⟨⟨nofun, nofun⟩, nofun⟩
  | @call a b known returned c _ hgiven hrun ih =>
    obtain ⟨ha, hknown⟩ := ih
    obtain ⟨x, b', hrun', hsize, hb, hreturned⟩ :=
      c.succeeds ha fun id hid => hknown id (hgiven hid)
    rw [hrun] at hrun'
    obtain ⟨rfl, rfl⟩ : returned = x ∧ b = b' := by simpa using hrun'
    refine ⟨hb, fun id hid => ?_⟩
    rcases List.mem_append.mp hid with hid | hid
    · exact hreturned id hid
    · exact (hknown id hid).trans_le hsize

end GrammarAtlas
