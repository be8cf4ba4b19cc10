import GrammarAtlas.Proofs.Automaton.Reach

/-!
# What the combinators leave alone

A combinator adds states, and it draws transitions between these and the fragments that it is
given.  If those are fragments of states from a number `n` on, the states below `n` are not
touched, and no transition leads to them from above (`Grown`).

`Sat n a m Q` says this of a computation `m` that is run on `a`, together with what can be said
of its result.  It is put together from what one new state and one new transition do
(`Sat.bind_addState`, `Sat.bind_connect`).  Of a combinator it says where the entry of the
result leads to: to its exit, to the entries of the fragments that it was given, and to all
states that it has added (`Joined`).
-/

namespace GrammarAtlas
namespace Automaton

variable {a b c : Automaton} {n : Nat} {u v source : StateId} {t : Transition} {g : Fragment}

/-- **The automaton has grown from `n` on.**  Its states below `n` are the same, its new steps
lead to states from `n` on, and no state of it has become accepting. -/
structure Grown (n : Nat) (a b : Automaton) : Prop where
  size_le : a.size ≤ b.size
  old : ∀ u < n, b.get? u = a.get? u
  steps : ∀ u l v, a.steps u l v → b.steps u l v
  confined : ∀ u l v, b.steps u l v → a.steps u l v ∨ n ≤ v ∧ v < b.size
  accepting : ∀ u s, b.get? u = some s → s.accepting = true →
    ∃ s', a.get? u = some s' ∧ s'.accepting = true

namespace Grown

theorem refl (n : Nat) (a : Automaton) : Grown n a a where
  size_le := Nat.le_refl _
  old := fun _ _ => rfl
  steps := fun _ _ _ h => h
  confined := fun _ _ _ h => .inl h
  accepting := fun _ s hs h => ⟨s, hs, h⟩

theorem trans (h : Grown n a b) (h' : Grown n b c) : Grown n a c where
  size_le := h.size_le.trans h'.size_le
  old := fun u hu => (h'.old u hu).trans (h.old u hu)
  steps := fun u l v hstep => h'.steps u l v (h.steps u l v hstep)
  confined := by
    intro u l v hstep
    rcases h'.confined u l v hstep with hstep | hnew
    · exact (h.confined u l v hstep).imp_right fun hv => ⟨hv.1, hv.2.trans_le h'.size_le⟩
    · exact .inr hnew
  accepting := by
    intro u s hs haccepting
    obtain ⟨s', hs', haccepting'⟩ := h'.accepting u s hs haccepting
    exact h.accepting u s' hs' haccepting'

theorem push (hn : n ≤ a.size) : Grown n a a.push where
  size_le := size_push ▸ Nat.le_succ a.size
  old := fun _ hu => get?_push_of_lt (hu.trans_le hn)
  steps := fun _ _ _ h => steps_push.symm ▸ h
  confined := fun _ _ _ h => .inl (steps_push ▸ h)
  accepting := by
    intro u s hs haccepting
    rcases get?_push_cases hs with hs | rfl
    · exact ⟨s, hs, haccepting⟩
    · cases haccepting

theorem link (hlt : source < a.size) (hsource : n ≤ source) (htarget : n ≤ t.target)
    (hsize : t.target < a.size) : Grown n a (a.link source t) where
  size_le := size_link.ge
  old := by
    intro u hu
    rw [get?_link]
    cases a.get? u with
    | none => rfl
    | some s => rw [Option.map_some, if_neg (hu.trans_le hsource).ne']
  steps := fun u l v hstep => steps_link hlt ▸ .inl hstep
  confined := by
    intro u l v hstep
    rw [steps_link hlt] at hstep
    refine hstep.imp_right ?_
    rintro ⟨-, -, rfl⟩
    exact ⟨htarget, size_link.symm ▸ hsize⟩
  accepting := by
    intro u s hs haccepting
    rw [get?_link] at hs
    obtain ⟨s', hs', rfl⟩ := Option.map_eq_some_iff.mp hs
    refine ⟨s', hs', ?_⟩
    split at haccepting <;> exact haccepting

theorem leads (h : Grown n a b) (huv : Leads a.steps u v) : Leads b.steps u v := huv.mono h.steps

end Grown

/-- A fragment among the states from `n` on, whose entry leads to its exit. -/
structure Strand (n : Nat) (a : Automaton) (g : Fragment) : Prop where
  entry_ge : n ≤ g.entry
  entry_lt : g.entry < a.size
  exit_ge : n ≤ g.exit
  exit_lt : g.exit < a.size
  leads : Leads a.steps g.entry g.exit

theorem Strand.grow (h : Strand n a g) (hgrown : Grown n a b) : Strand n b g where
  entry_ge := h.entry_ge
  entry_lt := h.entry_lt.trans_le hgrown.size_le
  exit_ge := h.exit_ge
  exit_lt := h.exit_lt.trans_le hgrown.size_le
  leads := hgrown.leads h.leads

/-- **A fragment that joins others.**  From its entry one gets to its exit, to the fragments that
it was made of and to the states that were added for it. -/
structure Joined (n : Nat) (a : Automaton) (used : List Fragment) (f : Fragment) (b : Automaton) :
    Prop extends Strand n b f where
  used : ∀ g ∈ used, Leads b.steps f.entry g.entry
  new : ∀ u, a.size ≤ u → u < b.size → Leads b.steps f.entry u

end Automaton

namespace Build

open Automaton

variable {α β : Type} {a b : Automaton} {n : Nat} {m : Build α} {k : α → Build β}
  {Q : α → Automaton → Prop} {R : β → Automaton → Prop} {g : Fragment}

/-- **However the computation ends**, the automaton has grown from `n` on, and the result is as
it is said. -/
def Sat (n : Nat) (a : Automaton) (m : Build α) (Q : α → Automaton → Prop) : Prop :=
  ∀ x b, m.run a = .ok (x, b) → Grown n a b ∧ Q x b

namespace Sat

theorem pure {x : α} (h : Q x a) : Sat n a (Pure.pure x) Q := by
  rintro _ _ ⟨⟩
  exact ⟨.refl n a, h⟩

theorem bind (hm : Sat n a m Q) (hk : ∀ x b, Grown n a b → Q x b → Sat n b (k x) R) :
    Sat n a (m >>= k) R := by
  intro y c hrun
  rw [StateT.run_bind] at hrun
  cases hfirst : m.run a with
  | error fault =>
    rw [hfirst] at hrun
    cases hrun
  | ok p =>
    obtain ⟨x, b⟩ := p
    rw [hfirst] at hrun
    obtain ⟨hgrown, hx⟩ := hm x b hfirst
    obtain ⟨hgrown', hy⟩ := hk x b hgrown hx y c hrun
    exact ⟨hgrown.trans hgrown', hy⟩

/-- A new state, and what is done with it. -/
theorem bind_addState {k : StateId → Build β} (hn : n ≤ a.size)
    (hk : ∀ b, Grown n a b → b.size = a.size + 1 → Sat n b (k a.size) R) :
    Sat n a (addState >>= k) R := by
  have hadd : Sat n a addState fun x b => x = a.size ∧ b.size = a.size + 1 := by
    rintro _ _ ⟨⟩
    exact ⟨.push hn, rfl, size_push⟩
  refine hadd.bind ?_
  rintro _ b hgrown ⟨rfl, hsize⟩
  exact hk b hgrown hsize

/-- Two new states, and what is done with them. -/
theorem bind_addState_addState {k : StateId → StateId → Build β} (hn : n ≤ a.size)
    (hk : ∀ b, Grown n a b → b.size = a.size + 2 → Sat n b (k a.size (a.size + 1)) R) :
    Sat n a (do let entry ← addState; let exit ← addState; k entry exit) R := by
  refine bind_addState hn fun b hb hsize => ?_
  refine bind_addState (hn.trans hb.size_le) fun c hc hsize' => ?_
  rw [hsize] at hsize' ⊢
  exact hk c (hb.trans hc) hsize'

/-- A new transition, and what is done behind it. -/
theorem bind_connect {source target : Nat} {l : Label} {k : Build β} (hsource : n ≤ source)
    (htarget : n ≤ target) (hsize : target < a.size)
    (hk : ∀ b, Grown n a b → b.size = a.size → Leads b.steps source target → Sat n b k R) :
    Sat n a (do connect source target l; k) R := by
  have hconnect : Sat n a (connect source target l) fun _ b =>
      b.size = a.size ∧ Leads b.steps source target := by
    intro _ b hrun
    rcases Nat.lt_or_ge source a.size with hlt | hge
    · rw [run_connect_of_lt target l hlt] at hrun
      cases hrun
      refine ⟨.link hlt hsource htarget hsize, size_link, .step (l := l) ?_⟩
      rw [steps_link hlt]
      exact .inr ⟨rfl, rfl, rfl⟩
    · rw [run_connect_of_le target l hge] at hrun
      cases hrun
  refine hconnect.bind ?_
  rintro - b hgrown ⟨hsame, hleads⟩
  exact hk b hgrown hsame hleads

end Sat

/-! ## The combinators -/

variable {fs : List Fragment} {e x : Nat}

/-- What holds of two new states holds of all new states. -/
theorem forall_new {P : StateId → Prop} (hb : b.size = a.size + 2) (h₀ : P a.size)
    (h₁ : P (a.size + 1)) : ∀ u, a.size ≤ u → u < b.size → P u := by
  intro u hu hlt
  obtain rfl | rfl : u = a.size ∨ u = a.size + 1 := by omega
  · exact h₀
  · exact h₁

/-- Two new states, the first of which leads to the second. -/
theorem strand_new (hn : n ≤ a.size) (hb : b.size = a.size + 2)
    (hleads : Leads b.steps a.size (a.size + 1)) : Strand n b ⟨a.size, a.size + 1⟩ where
  entry_ge := hn
  entry_lt := by
    show a.size < b.size
    omega
  exit_ge := Nat.le_succ_of_le hn
  exit_lt := by
    show a.size + 1 < b.size
    omega
  leads := hleads

theorem sat_labelled (hn : n ≤ a.size) (l : Label) : Sat n a (labelled l) (Joined n a []) := by
  refine Sat.bind_addState_addState hn fun b hb hsize => ?_
  refine Sat.bind_connect hn (Nat.le_succ_of_le hn) (by omega) fun c hc hsize' hleads => ?_
  have hsize' := hsize'.trans hsize
  exact .pure ⟨strand_new hn hsize' hleads, nofun, forall_new hsize' .refl hleads⟩

theorem sat_epsilon (hn : n ≤ a.size) : Sat n a epsilon (Joined n a []) := by
  refine Sat.bind_addState hn fun b hb hsize => ?_
  have hlt : a.size < b.size := hsize ▸ Nat.lt_succ_self a.size
  refine .pure ⟨⟨hn, hlt, hn, hlt, .refl⟩, nofun, fun u hu hu' => ?_⟩
  obtain rfl : u = a.size := by omega
  exact .refl

/-- A chain leads from the exit in front to all its fragments and to its end. -/
theorem sat_chain (hx : n ≤ x) (hlt : x < a.size) (hfs : ∀ g ∈ fs, Strand n a g) :
    Sat n a (chain x fs) fun y b => b.size = a.size ∧ n ≤ y ∧ y < b.size ∧ Leads b.steps x y ∧
      ∀ g ∈ fs, Leads b.steps x g.entry := by
  induction fs generalizing a x with
  | nil => exact .pure ⟨rfl, hx, hlt, .refl, nofun⟩
  | cons f fs ih =>
    have hf := hfs f List.mem_cons_self
    refine Sat.bind_connect hx hf.entry_ge hf.entry_lt fun b hb hsize hleads => ?_
    have hf := hf.grow hb
    intro y c hrun
    obtain ⟨hc, hsize', hy, hlt', hend, hentries⟩ := ih hf.exit_ge hf.exit_lt
      (fun g hg => (hfs g (List.mem_cons_of_mem f hg)).grow hb) y c hrun
    have hexit : Leads c.steps x f.exit := (hc.leads hleads).trans (hc.leads hf.leads)
    refine ⟨hc, hsize'.trans hsize, hy, hlt', hexit.trans hend, ?_⟩
    rintro g (_ | ⟨_, hg⟩)
    · exact hc.leads hleads
    · exact hexit.trans (hentries g hg)

theorem sat_sequence (hn : n ≤ a.size) (hfs : ∀ g ∈ fs, Strand n a g) :
    Sat n a (sequence fs) (Joined n a fs) := by
  cases fs with
  | nil => exact sat_epsilon hn
  | cons f fs =>
    have hf := hfs f List.mem_cons_self
    refine (sat_chain hf.exit_ge hf.exit_lt fun g hg => hfs g (List.mem_cons_of_mem f hg)).bind ?_
    rintro y b hb ⟨hsize, hy, hlt, hend, hentries⟩
    have hf := hf.grow hb
    refine .pure ⟨⟨hf.entry_ge, hf.entry_lt, hy, hlt, hf.leads.trans hend⟩, ?_, ?_⟩
    · rintro g (_ | ⟨_, hg⟩)
      · exact .refl
      · exact hf.leads.trans (hentries g hg)
    · intro u hu hu'
      omega

/-- A fan leads from its entry to all its fragments and, if it has any, to its exit. -/
theorem sat_fan (he : n ≤ e) (hx : n ≤ x) (hlt : x < a.size) (hfs : ∀ g ∈ fs, Strand n a g) :
    Sat n a (fan e x fs) fun _ b => b.size = a.size ∧
      ∀ g ∈ fs, Leads b.steps e g.entry ∧ Leads b.steps e x := by
  induction fs generalizing a with
  | nil => exact .pure ⟨rfl, nofun⟩
  | cons f fs ih =>
    have hf := hfs f List.mem_cons_self
    refine Sat.bind_connect he hf.entry_ge hf.entry_lt fun b hb hsize hentry => ?_
    have hf := hf.grow hb
    refine Sat.bind_connect hf.exit_ge hx (hsize ▸ hlt) fun c hc hsize' hexit => ?_
    have hfs := fun g hg => ((hfs g (List.mem_cons_of_mem f hg)).grow hb).grow hc
    intro y d hrun
    obtain ⟨hd, hsize'', hrest⟩ := ih (by omega) hfs y d hrun
    refine ⟨hd, by omega, ?_⟩
    have hentry : Leads d.steps e f.entry := hd.leads (hc.leads hentry)
    have hpast : Leads d.steps f.entry x := (hd.leads (hc.leads hf.leads)).trans (hd.leads hexit)
    rintro g (_ | ⟨_, hg⟩)
    · exact ⟨hentry, hentry.trans hpast⟩
    · exact hrest g hg

theorem sat_alternation (hn : n ≤ a.size) (hfs : ∀ g ∈ fs, Strand n a g) :
    Sat n a (alternation fs) (Joined n a fs) := by
  rcases fs with _ | ⟨f, _ | ⟨g, fs⟩⟩
  · exact sat_epsilon hn
  · have hf := hfs f List.mem_cons_self
    refine .pure ⟨hf, ?_, fun u hu hu' => by omega⟩
    rintro g (_ | ⟨_, ⟨⟩⟩)
    exact .refl
  · refine Sat.bind_addState_addState hn fun b hb hsize => ?_
    refine (sat_fan hn (Nat.le_succ_of_le hn) (by omega) fun h hh => (hfs h hh).grow hb).bind ?_
    rintro - c hc ⟨hsize', hleads⟩
    have hexit := (hleads f List.mem_cons_self).2
    have hsize' := hsize'.trans hsize
    exact .pure ⟨strand_new hn hsize' hexit, fun h hh => (hleads h hh).1,
      forall_new hsize' .refl hexit⟩

theorem sat_optional (hn : n ≤ a.size) (hg : Strand n a g) :
    Sat n a (optional g) (Joined n a [g]) := by
  refine Sat.bind_addState_addState hn fun b hb hsize => ?_
  have hexit := Nat.le_succ_of_le hn
  refine Sat.bind_connect hn hg.entry_ge (hg.grow hb).entry_lt fun c hc hsize₁ hentry => ?_
  refine Sat.bind_connect hn hexit (by omega) fun d hd hsize₂ hpast => ?_
  refine Sat.bind_connect hg.exit_ge hexit (by omega) fun e he hsize₃ _ => ?_
  have hpast := he.leads hpast
  have hsize' : e.size = a.size + 2 := by omega
  refine .pure ⟨strand_new hn hsize' hpast, ?_, forall_new hsize' .refl hpast⟩
  rintro h (_ | ⟨_, ⟨⟩⟩)
  exact he.leads (hd.leads hentry)

theorem sat_zeroOrMore (hn : n ≤ a.size) (hg : Strand n a g) :
    Sat n a (zeroOrMore g) (Joined n a [g]) := by
  refine Sat.bind_addState_addState hn fun b hb hsize => ?_
  have hexit := Nat.le_succ_of_le hn
  refine Sat.bind_connect hn hg.entry_ge (hg.grow hb).entry_lt fun c hc hsize₁ hentry => ?_
  refine Sat.bind_connect hn hexit (by omega) fun d hd hsize₂ hpast => ?_
  refine Sat.bind_connect hg.exit_ge hn (by omega) fun e he hsize₃ _ => ?_
  have hpast := he.leads hpast
  have hsize' : e.size = a.size + 2 := by omega
  refine .pure ⟨strand_new hn hsize' hpast, ?_, forall_new hsize' .refl hpast⟩
  rintro h (_ | ⟨_, ⟨⟩⟩)
  exact he.leads (hd.leads hentry)

theorem sat_oneOrMore (hn : n ≤ a.size) (hg : Strand n a g) :
    Sat n a (oneOrMore g) (Joined n a [g]) := by
  refine Sat.bind_addState hn fun b hb hsize => ?_
  have hg := hg.grow hb
  refine Sat.bind_connect hg.exit_ge hg.entry_ge hg.entry_lt fun c hc hsize₁ _ => ?_
  refine Sat.bind_connect hg.exit_ge hn (by omega) fun d hd hsize₂ hexit => ?_
  have hg := (hg.grow hc).grow hd
  have hpast : Leads d.steps g.entry a.size := hg.leads.trans hexit
  have hlt : a.size < d.size := by omega
  refine .pure ⟨⟨hg.entry_ge, hg.entry_lt, hn, hlt, hpast⟩, ?_, fun u hu hu' => ?_⟩
  · rintro h (_ | ⟨_, ⟨⟩⟩)
    exact .refl
  · obtain rfl : u = a.size := by omega
    exact hpast

end Build
end GrammarAtlas
