import GrammarAtlas.Proofs.Automaton.Growth

/-!
# What the combinators make of pieces

A combinator takes fragments that are pieces with disjoint states and makes one
piece of them.  `Makes m a T L` says this of a building computation `m` that is
run on `a`: it does not fail, its result is a piece for `L` that consists of the
states in `T` and of all new ones, and other states go on making the same steps.

Combinators that take several fragments join them one by one, so there is a
lemma about one fragment more (`Piece.sequence`, `Fan.branch`) and an induction
over the list (`run_chain`, `run_fan`).
-/

namespace GrammarAtlas

open Steps
open scoped Computability

namespace Automaton

/-- A piece of an automaton: its states exist. -/
structure Holds (a : Automaton) (f : Fragment) (S : Set StateId) (L : Language Letter) : Prop
    extends Steps.Piece a.steps f S L where
  lt_size : ∀ u ∈ S, u < a.size

/-- **The computation makes a piece for `L` of the states in `T`.** -/
def Makes (m : Build Fragment) (a : Automaton) (T : Set StateId) (L : Language Letter) : Prop :=
  ∃ f b, m.run a = .ok (f, b) ∧ b.Holds f (T ∪ Set.Ico a.size b.size) L ∧ GrowsOn T a b

variable {a b : Automaton} {f g : Fragment} {S T : Set StateId} {L M : Language Letter}

namespace Holds

theorem exit_lt (h : a.Holds f S L) : f.exit < a.size := h.lt_size _ h.exit_mem

/-- A piece stays as it is while the automaton grows elsewhere. -/
theorem grow (h : a.Holds f S L) (hgrow : GrowsOn T a b) (hdis : Disjoint S T) :
    b.Holds f S L :=
  ⟨h.toPiece.congr fun u hu =>
    hgrow.steps_iff u (h.lt_size u hu) (Set.disjoint_left.mp hdis hu),
    fun u hu => (h.lt_size u hu).trans_le hgrow.size_le⟩

/-- New states belong to no piece. -/
theorem notMem_of_size_le (h : a.Holds f S L) {u : StateId} (hu : a.size ≤ u) : u ∉ S :=
  fun hS => absurd (h.lt_size u hS) (not_lt.mpr hu)

end Holds

/-- A fragment with its states and its language. -/
structure Part where
  fragment : Fragment
  states : Set StateId
  language : Language Letter

namespace Part

/-- The states of several parts. -/
def union (parts : List Part) : Set StateId := {u | ∃ p ∈ parts, u ∈ p.states}

@[simp] theorem union_nil : union [] = ∅ := by
  ext u
  simp [union]

@[simp] theorem union_cons (p : Part) (parts : List Part) :
    union (p :: parts) = p.states ∪ union parts := by
  ext u
  simp [union]

end Part

/-- The parts are pieces, and no state belongs to two of them. -/
structure Apart (a : Automaton) (parts : List Part) : Prop where
  holds : ∀ p ∈ parts, a.Holds p.fragment p.states p.language
  disjoint : parts.Pairwise fun p q => Disjoint p.states q.states

namespace Apart

variable {p : Part} {parts : List Part}

theorem head (h : a.Apart (p :: parts)) : a.Holds p.fragment p.states p.language :=
  h.holds p (List.mem_cons_self ..)

theorem tail (h : a.Apart (p :: parts)) : a.Apart parts :=
  ⟨fun q hq => h.holds q (List.mem_cons_of_mem _ hq), (List.pairwise_cons.mp h.disjoint).2⟩

theorem head_disjoint (h : a.Apart (p :: parts)) : Disjoint p.states (Part.union parts) := by
  refine Set.disjoint_left.mpr ?_
  rintro u hu ⟨q, hq, hqu⟩
  have hpq : Disjoint p.states q.states := (List.pairwise_cons.mp h.disjoint).1 q hq
  exact Set.disjoint_left.mp hpq hu hqu

/-- Parts stay apart while the automaton grows elsewhere. -/
theorem grow (h : a.Apart parts) (hgrow : GrowsOn T a b) (hdis : Disjoint (Part.union parts) T) :
    b.Apart parts := by
  refine ⟨?_, h.disjoint⟩
  intro q hq
  have hsub : q.states ⊆ Part.union parts := fun u hu => ⟨q, hq, hu⟩
  exact (h.holds q hq).grow hgrow (hdis.mono_left hsub)

theorem lt_size (h : a.Apart parts) : ∀ u ∈ Part.union parts, u < a.size := by
  rintro u ⟨q, hq, hu⟩
  exact (h.holds q hq).lt_size u hu

/-- New states belong to no part. -/
theorem disjoint_new (h : a.Apart parts) (n : Nat) :
    Disjoint (Set.Ico a.size n) (Part.union parts) := by
  refine Set.disjoint_left.mpr ?_
  intro u hu hparts
  exact absurd (h.lt_size u hparts) (not_lt.mpr hu.1)

end Apart

theorem ico_one (n : Nat) : Set.Ico n (n + 1) = {n} := by
  ext u
  simp only [Set.mem_Ico, Set.mem_singleton_iff]
  omega

theorem ico_two (n : Nat) : Set.Ico n (n + 2) = {n, n + 1} := by
  ext u
  simp only [Set.mem_Ico, Set.mem_insert_iff, Set.mem_singleton_iff]
  omega

/-- How to show that a computation makes a piece: its states are those in `T`
and the new ones, and only there are steps added. -/
theorem makes_of_steps {m : Build Fragment} (hrun : m.run a = .ok (f, b))
    (hT : ∀ u ∈ T, u < a.size) (hsize : a.size ≤ b.size)
    (hold : ∀ u l v, a.steps u l v → b.steps u l v)
    (hnew : ∀ u l v, b.steps u l v → a.steps u l v ∨ u ∈ T ∨ a.size ≤ u)
    (hpiece : Steps.Piece b.steps f (T ∪ Set.Ico a.size b.size) L) : Makes m a T L := by
  refine ⟨f, b, hrun, ⟨hpiece, ?_⟩, GrowsOn.of_steps hsize hold hnew⟩
  rintro u (hu | hu)
  · exact (hT u hu).trans_le hsize
  · exact hu.2

/-- Two new states are a fan without words. -/
theorem fan_new (a : Automaton) :
    Fan a.steps a.size (a.size + 1) (Set.Ico a.size (a.size + 2)) 0 := by
  rw [ico_two]
  exact .pair (Nat.lt_succ_self _).ne (final_of_size_le le_rfl) (final_of_size_le (Nat.le_succ _))

/-- New states belong to no piece. -/
theorem Holds.disjoint_new (h : a.Holds f S L) (n : Nat) : Disjoint (Set.Ico a.size n) S := by
  refine Set.disjoint_left.mpr ?_
  intro u hu hS
  exact absurd (h.lt_size u hS) (not_lt.mpr hu.1)

end Automaton

namespace Build

open Automaton

variable {a : Automaton} {g : Fragment} {S T : Set StateId} {L M : Language Letter}

/-! ## One fragment at most -/

theorem makes_epsilon (a : Automaton) : Makes epsilon a ∅ 1 := by
  obtain ⟨b, hrun, hsize, hsteps⟩ := run_addState a
  refine ⟨.single a.size, b, ?_, ⟨?_, ?_⟩, ⟨by omega, fun _ _ _ _ _ => by rw [hsteps]⟩⟩
  · rw [epsilon, run_bind hrun]
    rfl
  · rw [hsize, hsteps, ico_one, Set.empty_union]
    exact .single (final_of_size_le le_rfl)
  · rintro u (hu | hu)
    · exact absurd hu (Set.notMem_empty u)
    · exact hu.2

theorem makes_labelled (l : Label) (a : Automaton) : Makes (labelled l) a ∅ {l.word} := by
  obtain ⟨b, hrun, hsize, hsteps⟩ := run_labelled l a
  have hpiece := ((fan_new a).direct (l := l)).toPiece
  rw [zero_add] at hpiece
  refine makes_of_steps hrun (fun _ h => absurd h (Set.notMem_empty _)) (by omega)
    (fun u l' v he => hsteps ▸ Or.inl he) (fun u l' v he => ?_) ?_
  · rw [hsteps] at he
    rcases he with he | ⟨rfl, -⟩
    · exact Or.inl he
    · exact Or.inr (Or.inr le_rfl)
  · rw [hsize, hsteps, Set.empty_union]
    exact hpiece

theorem makes_optional (hg : a.Holds g T M) : Makes (optional g) a T (1 + M) := by
  obtain ⟨b, hrun, hsize, hsteps⟩ := run_optional hg.exit_lt
  -- the step past the fragment comes first, the fragment is put beside it
  have hpast := (fan_new a).direct (l := .epsilon)
  have hinner : Steps.Piece (a.steps.join (.silent a.size (a.size + 1))) g T M :=
    hg.toPiece.congr fun u hu l v =>
      or_iff_left fun h => hg.notMem_of_size_le (le_of_eq h.1.symm) hu
  have hpiece := (hpast.branch hinner (hg.disjoint_new _)).toPiece
  rw [zero_add, Set.union_comm, Steps.join_right_comm a.steps] at hpiece
  refine makes_of_steps hrun hg.lt_size (by omega)
    (fun u l v he => hsteps ▸ Or.inl (Or.inl (Or.inl he))) (fun u l v he => ?_) ?_
  · rw [hsteps] at he
    rcases he with ((he | ⟨rfl, -⟩) | ⟨rfl, -⟩) | ⟨rfl, -⟩
    · exact Or.inl he
    · exact Or.inr (Or.inr le_rfl)
    · exact Or.inr (Or.inr le_rfl)
    · exact Or.inr (Or.inl hg.exit_mem)
  · rw [hsize, hsteps]
    exact hpiece

theorem makes_zeroOrMore (hg : a.Holds g T M) : Makes (zeroOrMore g) a T M∗ := by
  obtain ⟨b, hrun, hsize, hsteps⟩ := run_zeroOrMore hg.exit_lt
  refine makes_of_steps hrun hg.lt_size (by omega)
    (fun u l v he => hsteps ▸ Or.inl (Or.inl (Or.inl he))) (fun u l v he => ?_) ?_
  · rw [hsteps] at he
    rcases he with ((he | ⟨rfl, -⟩) | ⟨rfl, -⟩) | ⟨rfl, -⟩
    · exact Or.inl he
    · exact Or.inr (Or.inr le_rfl)
    · exact Or.inr (Or.inr le_rfl)
    · exact Or.inr (Or.inl hg.exit_mem)
  · rw [hsize, hsteps, ico_two]
    exact hg.toPiece.star (Nat.lt_succ_self _).ne (hg.notMem_of_size_le le_rfl)
      (hg.notMem_of_size_le (Nat.le_succ _)) (final_of_size_le le_rfl)
      (final_of_size_le (Nat.le_succ _))

theorem makes_oneOrMore (hg : a.Holds g T M) : Makes (oneOrMore g) a T (M * M∗) := by
  obtain ⟨b, hrun, hsize, hsteps⟩ := run_oneOrMore hg.exit_lt
  refine makes_of_steps hrun hg.lt_size (by omega)
    (fun u l v he => hsteps ▸ Or.inl (Or.inl he)) (fun u l v he => ?_) ?_
  · rw [hsteps] at he
    rcases he with (he | ⟨rfl, -⟩) | ⟨rfl, -⟩
    · exact Or.inl he
    · exact Or.inr (Or.inl hg.exit_mem)
    · exact Or.inr (Or.inl hg.exit_mem)
  · rw [hsize, hsteps, ico_one]
    exact hg.toPiece.plus (hg.notMem_of_size_le le_rfl) (final_of_size_le le_rfl)

/-! ## Several fragments -/

/-- One fragment more in a sequence. -/
theorem run_connect_sequence {f g : Fragment} (hf : a.Holds f S L) (hg : a.Holds g T M)
    (hdis : Disjoint S T) : ∃ b, (connect f.exit g.entry .epsilon).run a = .ok ((), b) ∧
      b.size = a.size ∧ GrowsOn S a b ∧ b.Holds ⟨f.entry, g.exit⟩ (S ∪ T) (L * M) := by
  obtain ⟨b, hrun, hsize, hsteps⟩ := run_connect g.entry .epsilon hf.exit_lt
  refine ⟨b, hrun, hsize, GrowsOn.of_steps hsize.ge (fun u l v he => hsteps ▸ Or.inl he)
    (fun u l v he => ?_), hsteps ▸ hf.toPiece.sequence hg.toPiece hdis, ?_⟩
  · rw [hsteps] at he
    rcases he with he | ⟨rfl, -⟩
    · exact Or.inl he
    · exact Or.inr (Or.inl hf.exit_mem)
  · rintro u (hu | hu)
    · exact (hf.lt_size u hu).trans_eq hsize.symm
    · exact (hg.lt_size u hu).trans_eq hsize.symm

/-- **A chain joins its fragments one after the other.** -/
theorem run_chain (parts : List Part) {f : Fragment} (hf : a.Holds f S L) (hparts : a.Apart parts)
    (hdis : Disjoint S (Part.union parts)) :
    ∃ x b, (chain f.exit (parts.map (·.fragment))).run a = .ok (x, b) ∧ b.size = a.size ∧
      GrowsOn (S ∪ Part.union parts) a b ∧
      b.Holds ⟨f.entry, x⟩ (S ∪ Part.union parts) (L * (parts.map (·.language)).prod) := by
  induction parts generalizing a f S L with
  | nil =>
    refine ⟨f.exit, a, rfl, rfl, GrowsOn.refl _ a, ?_⟩
    rw [Part.union_nil, Set.union_empty, List.map_nil, List.prod_nil, mul_one]
    exact hf
  | cons p parts ih =>
    rw [Part.union_cons] at hdis ⊢
    obtain ⟨hdis, hdis'⟩ := Set.disjoint_union_right.mp hdis
    obtain ⟨b, hrun, hsize, hgrow, hb⟩ := run_connect_sequence hf hparts.head hdis
    obtain ⟨x, c, hrun', hsize', hgrow', hc⟩ := ih hb (hparts.tail.grow hgrow hdis'.symm)
      (Set.disjoint_union_left.mpr ⟨hdis', hparts.head_disjoint⟩)
    rw [Set.union_assoc] at hgrow' hc
    refine ⟨x, c, ?_, hsize'.trans hsize, ?_, ?_⟩
    · rw [List.map_cons, chain, run_bind hrun]
      exact hrun'
    · exact (hgrow.mono Set.subset_union_left).trans (hgrow'.mono Set.subset_union_left)
    · rw [List.map_cons, List.prod_cons, ← mul_assoc]
      exact hc

theorem makes_sequence {parts : List Part} (hparts : a.Apart parts) :
    Makes (sequence (parts.map (·.fragment))) a (Part.union parts)
      (parts.map (·.language)).prod := by
  cases parts with
  | nil =>
    rw [Part.union_nil]
    exact makes_epsilon a
  | cons p parts =>
    obtain ⟨x, b, hrun, hsize, hgrow, hb⟩ :=
      run_chain parts hparts.head hparts.tail hparts.head_disjoint
    refine ⟨⟨p.fragment.entry, x⟩, b, ?_, ?_, ?_⟩
    · rw [List.map_cons, sequence, run_bind hrun]
      rfl
    · rw [hsize, Set.Ico_self, Set.union_empty, Part.union_cons, List.map_cons, List.prod_cons]
      exact hb
    · rw [Part.union_cons]
      exact hgrow

/-- One fragment more between the ends of a fan. -/
theorem run_connect_branch {e x : StateId} {α : Type} {k : Build α}
    (hf : Fan a.steps e x S L) (hS : ∀ u ∈ S, u < a.size) (hg : a.Holds g T M)
    (hdis : Disjoint S T) :
    ∃ b, (do connect e g.entry .epsilon; connect g.exit x .epsilon; k : Build α).run a = k.run b ∧
      b.size = a.size ∧ GrowsOn (S ∪ T) a b ∧ Fan b.steps e x (S ∪ T) (L + M) := by
  obtain ⟨b, hrun, hsize, hsteps⟩ := run_connect g.entry .epsilon (hS e hf.entry_mem)
  obtain ⟨c, hrun', hsize', hsteps'⟩ :=
    run_connect x .epsilon (hg.exit_lt.trans_eq hsize.symm)
  rw [hsteps] at hsteps'
  refine ⟨c, by rw [run_bind hrun, run_bind hrun'], hsize'.trans hsize, ?_,
    hsteps' ▸ hf.branch hg.toPiece hdis⟩
  refine GrowsOn.of_steps (by omega) (fun u l v he => hsteps' ▸ Or.inl (Or.inl he))
    (fun u l v he => ?_)
  rw [hsteps'] at he
  rcases he with (he | ⟨rfl, -⟩) | ⟨rfl, -⟩
  · exact Or.inl he
  · exact Or.inr (Or.inl (Or.inl hf.entry_mem))
  · exact Or.inr (Or.inl (Or.inr hg.exit_mem))

/-- **A fan takes its fragments side by side.** -/
theorem run_fan (parts : List Part) {e x : StateId} (hf : Fan a.steps e x S L)
    (hS : ∀ u ∈ S, u < a.size) (hparts : a.Apart parts) (hdis : Disjoint S (Part.union parts)) :
    ∃ b, (fan e x (parts.map (·.fragment))).run a = .ok ((), b) ∧ b.size = a.size ∧
      GrowsOn (S ∪ Part.union parts) a b ∧
      Fan b.steps e x (S ∪ Part.union parts) (L + (parts.map (·.language)).sum) := by
  induction parts generalizing a S L with
  | nil =>
    refine ⟨a, rfl, rfl, GrowsOn.refl _ a, ?_⟩
    rw [Part.union_nil, Set.union_empty, List.map_nil, List.sum_nil, add_zero]
    exact hf
  | cons p parts ih =>
    rw [Part.union_cons] at hdis ⊢
    obtain ⟨hdis, hdis'⟩ := Set.disjoint_union_right.mp hdis
    obtain ⟨b, hrun, hsize, hgrow, hb⟩ :=
      run_connect_branch (k := fan e x (parts.map (·.fragment))) hf hS hparts.head hdis
    have hsep : Disjoint (S ∪ p.states) (Part.union parts) :=
      Set.disjoint_union_left.mpr ⟨hdis', hparts.head_disjoint⟩
    have hlt : ∀ u ∈ S ∪ p.states, u < b.size := by
      rintro u (hu | hu)
      · exact (hS u hu).trans_eq hsize.symm
      · exact (hparts.head.lt_size u hu).trans_eq hsize.symm
    obtain ⟨c, hrun', hsize', hgrow', hc⟩ := ih hb hlt (hparts.tail.grow hgrow hsep.symm) hsep
    rw [Set.union_assoc] at hgrow' hc
    refine ⟨c, ?_, hsize'.trans hsize, ?_, ?_⟩
    · rw [List.map_cons, fan, hrun]
      exact hrun'
    · refine (hgrow.mono ?_).trans (hgrow'.mono Set.subset_union_left)
      exact Set.union_subset_union_right S Set.subset_union_left
    · rw [List.map_cons, List.sum_cons, ← add_assoc]
      exact hc

/-- Between two new states the fragments stand side by side. -/
theorem makes_fan {parts : List Part} (hparts : a.Apart parts) :
    Makes (do
      let entry ← addState
      let exit ← addState
      fan entry exit (parts.map (·.fragment))
      return ⟨entry, exit⟩) a (Part.union parts) (parts.map (·.language)).sum := by
  obtain ⟨a₁, a₂, h₁, h₂, hsize₂, hsteps₂⟩ := run_addState_addState a
  have hgrow : GrowsOn ∅ a a₂ := ⟨by omega, fun _ _ _ _ _ => by rw [hsteps₂]⟩
  have hlt : ∀ u ∈ Set.Ico a.size (a.size + 2), u < a₂.size := by
    intro u hu
    exact hu.2.trans_eq hsize₂.symm
  obtain ⟨b, hrun, hsize, hgrow', hb⟩ := run_fan parts (hsteps₂ ▸ fan_new a) hlt
    (hparts.grow hgrow (Set.disjoint_empty _)) (hparts.disjoint_new _)
  refine ⟨⟨a.size, a.size + 1⟩, b, ?_, ⟨?_, ?_⟩, ?_⟩
  · rw [run_bind h₁, run_bind h₂, run_bind hrun]
    rfl
  · rw [hsize, hsize₂, Set.union_comm, ← zero_add (List.sum _)]
    exact hb.toPiece
  · rintro u (hu | hu)
    · have hle : a.size ≤ b.size := by omega
      exact (hparts.lt_size u hu).trans_le hle
    · exact hu.2
  · refine (hgrow.mono (Set.empty_subset _)).trans (hgrow'.mono ?_)
    rw [Set.union_comm]
    exact Set.union_subset_union_right _ fun u hu => hu.1

theorem makes_alternation {parts : List Part} (hparts : a.Apart parts) :
    Makes (alternation (parts.map (·.fragment))) a (Part.union parts)
      (if parts = [] then 1 else (parts.map (·.language)).sum) := by
  rcases parts with _ | ⟨p, _ | ⟨q, parts⟩⟩
  · rw [Part.union_nil]
    exact makes_epsilon a
  · refine ⟨p.fragment, a, rfl, ?_, GrowsOn.refl _ a⟩
    rw [Set.Ico_self, Set.union_empty, Part.union_cons, Part.union_nil, Set.union_empty]
    simpa using hparts.head
  · rw [if_neg (List.cons_ne_nil _ _)]
    exact makes_fan hparts

/-! ## Rules -/

/-- **A rule spells what its body spells.** -/
theorem defineRule_words (name : Text) (hg : a.Holds g T M) :
    ∃ ends b, (defineRule name g).run a = .ok (ends, b) ∧ b.rule? name = some ends ∧
      ∀ w, Spells b.steps ends.start w ends.stop ↔ w ∈ M := by
  obtain ⟨b, hrun, -, hsteps, hrule⟩ := run_defineRule name hg.exit_lt
  have hfan := (fan_new a).branch hg.toPiece (hg.disjoint_new _)
  rw [zero_add] at hfan
  exact ⟨_, b, hrun, hrule, hsteps ▸ hfan.words⟩

end Build
end GrammarAtlas
