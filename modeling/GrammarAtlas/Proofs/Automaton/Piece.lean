import Mathlib.Order.CompletePartialOrder
import GrammarAtlas.Automaton.Fragment
import GrammarAtlas.Proofs.Automaton.Words
import GrammarAtlas.Proofs.Regular

/-!
# Pieces and how they are joined

A fragment is two state ids and says nothing about the states in between.  A
*piece* is a fragment with a set of states of its own.  What makes pieces fit
together is

* that no step leaves the set,
* that no step starts at the exit, and
* that the paths from entry to exit spell a known language.

There is no condition on the entry: steps may lead back to it, and entry and exit
may be one state.  The lemmas below join disjoint pieces by new epsilon steps
and read off the language of the result.  Each of them names, for every state,
the words that lead from it to the new exit, and checks that these are closed
under steps (`Spells.residual`).
-/

namespace GrammarAtlas

open scoped Computability

namespace Steps

/-- One step and no other. -/
def arrow (x : StateId) (l : Label) (y : StateId) : Steps := fun u l' v => u = x ∧ l' = l ∧ v = y

/-- The epsilon step from one state to another. -/
abbrev silent (x y : StateId) : Steps := arrow x .epsilon y

/-- The steps of two kinds. -/
def join (E F : Steps) : Steps := fun u l v => E u l v ∨ F u l v

theorem join_right_comm (E F G : Steps) : join (join E F) G = join (join E G) F := by
  funext u l v
  exact propext or_right_comm

/-- No step starts at the state. -/
def Final (E : Steps) (x : StateId) : Prop := ∀ l v, ¬ E x l v

theorem Final.join {E F : Steps} {x : StateId} (hE : E.Final x) (hF : F.Final x) :
    (E.join F).Final x := fun l v he => he.elim (hE l v) (hF l v)

theorem final_arrow {x y z : StateId} {l : Label} (h : z ≠ x) : (arrow x l y).Final z :=
  fun _ _ he => h he.1

end Steps

variable {E F : Steps} {f g : Fragment} {S T : Set StateId} {L M : Language Letter}
variable {e x : StateId} {l : Label}

/-- At a final state every path is over. -/
theorem Spells.of_final {u : StateId} {w : List Letter} (h : Spells E u w x)
    (hu : E.Final u) : w = [] ∧ x = u := by
  cases h with
  | nil => exact ⟨rfl, rfl⟩
  | cons he _ => exact absurd he (hu _ _)

/-- A path and an epsilon step behind it. -/
theorem Spells.snoc {u v : StateId} {w : List Letter} (h : Spells E u w v)
    (he : E v .epsilon x) : Spells E u w x := by
  have hpath := h.trans (Spells.single he)
  rwa [Label.word_epsilon, List.append_nil] at hpath

/-- Going round a loop spells a word of the star. -/
theorem Spells.round {u : StateId} (hround : ∀ w ∈ M, Spells E u w u) {w : List Letter}
    (hw : w ∈ M∗) : Spells E u w u :=
  kstar_induction (P := fun w => Spells E u w u) (.nil u)
    (fun v hv _ _ ih => (hround v hv).trans ih) hw

namespace Steps

/-- Some path leads to a state and then a word of a language is to come. -/
def Passes (E : Steps) (x : StateId) (M : Language Letter) (u : StateId) (w : List Letter) : Prop :=
  ∃ w₁ w₂, w₁ ++ w₂ = w ∧ Spells E u w₁ x ∧ w₂ ∈ M

theorem Passes.here {w : List Letter} (hw : w ∈ M) : Passes E x M x w := ⟨[], w, rfl, .nil x, hw⟩

theorem Passes.step {u v : StateId} {w : List Letter} (he : E u l v) (h : Passes E x M v w) :
    Passes E x M u (l.word ++ w) := by
  obtain ⟨w₁, w₂, rfl, h₁, h₂⟩ := h
  exact ⟨l.word ++ w₁, w₂, List.append_assoc .., .cons he h₁, h₂⟩

/-- **A fragment with states of its own.** -/
structure Piece (E : Steps) (f : Fragment) (S : Set StateId) (L : Language Letter) : Prop where
  entry_mem : f.entry ∈ S
  exit_mem : f.exit ∈ S
  confined : ∀ u ∈ S, ∀ l v, E u l v → v ∈ S
  final : E.Final f.exit
  words : ∀ w, Spells E f.entry w f.exit ↔ w ∈ L

namespace Piece

/-- **A piece stays as it is when other states get other steps.** -/
theorem congr (h : Piece E f S L) (hsame : ∀ u ∈ S, ∀ l v, F u l v ↔ E u l v) :
    Piece F f S L := by
  have hconfined : ∀ u ∈ S, ∀ l v, F u l v → v ∈ S := fun u hu l v he =>
    h.confined u hu l v ((hsame u hu l v).mp he)
  refine ⟨h.entry_mem, h.exit_mem, hconfined,
    fun l v he => h.final l v ((hsame _ h.exit_mem l v).mp he), fun w => ?_⟩
  rw [← h.words]
  exact ⟨Spells.mono_on hconfined (fun u hu l v => (hsame u hu l v).mp) h.entry_mem,
    Spells.mono_on h.confined (fun u hu l v => (hsame u hu l v).mpr) h.entry_mem⟩

/-- A path through the piece, seen among more steps. -/
theorem spells (h : Piece E f S L) (hsub : ∀ u l v, E u l v → F u l v) {w : List Letter}
    (hw : w ∈ L) : Spells F f.entry w f.exit :=
  ((h.words w).mpr hw).mono hsub

/-- What passes the piece's exit from its entry begins with a word of the piece. -/
theorem mem_mul (h : Piece E f S L) {w : List Letter} (hw : Passes E f.exit M f.entry w) :
    w ∈ L * M := by
  obtain ⟨w₁, w₂, rfl, h₁, h₂⟩ := hw
  exact Language.append_mem_mul ((h.words w₁).mp h₁) h₂

/-- A state without steps is a piece for the empty word. -/
theorem single (hx : E.Final x) : Piece E (.single x) {x} 1 := by
  refine ⟨rfl, rfl, fun u hu l v he => absurd (hu ▸ he) (hx l v), hx, fun w => ?_⟩
  rw [Language.mem_one]
  constructor
  · exact fun hp => (hp.of_final hx).1
  · rintro rfl
    exact .nil x

/-! ## One after the other -/

/-- In the first piece a word of it and one of the second are to come, in the
second only its own. -/
theorem mem_of_spells_sequence (hf : Piece E f S L) (hg : Piece E g T M) (hdis : Disjoint S T)
    {w : List Letter} (hp : Spells (E.join (.silent f.exit g.entry)) f.entry w g.exit) :
    w ∈ L * M := by
  have hST : ∀ {u}, u ∈ S → u ∉ T := fun hu => Set.disjoint_left.mp hdis hu
  have hres : (f.entry ∈ S → Passes E f.exit M f.entry w) ∧
      (f.entry ∈ T → Spells E f.entry w g.exit) := by
    refine hp.residual (R := fun u w =>
      (u ∈ S → Passes E f.exit M u w) ∧ (u ∈ T → Spells E u w g.exit)) ?_ ?_
    · exact ⟨fun hS => absurd hg.exit_mem (hST hS), fun _ => .nil _⟩
    · rintro u l v w (he | ⟨rfl, rfl, rfl⟩) ⟨hS, hT⟩
      · constructor
        · intro hu
          exact (hS (hf.confined u hu l v he)).step he
        · intro hu
          exact .cons he (hT (hg.confined u hu l v he))
      · constructor
        · intro _
          exact .here ((hg.words w).mp (hT hg.entry_mem))
        · intro hu
          exact absurd hu (hST hf.exit_mem)
  exact hf.mem_mul (hres.1 hf.entry_mem)

/-- **Joining the exit of a piece to the entry of another.** -/
theorem sequence (hf : Piece E f S L) (hg : Piece E g T M) (hdis : Disjoint S T) :
    Piece (E.join (.silent f.exit g.entry)) ⟨f.entry, g.exit⟩ (S ∪ T) (L * M) := by
  refine ⟨Or.inl hf.entry_mem, Or.inr hg.exit_mem, ?_, ?_, fun w => ⟨?_, ?_⟩⟩
  · rintro u hu l v (he | ⟨rfl, -, rfl⟩)
    · exact hu.imp (hf.confined u · l v he) (hg.confined u · l v he)
    · exact Or.inr hg.entry_mem
  · refine hg.final.join (Steps.final_arrow fun hexit => ?_)
    exact Set.disjoint_left.mp hdis hf.exit_mem (hexit ▸ hg.exit_mem)
  · exact mem_of_spells_sequence hf hg hdis
  · rintro ⟨w₁, h₁, w₂, h₂, rfl⟩
    have hold : ∀ u l v, E u l v → E.join (.silent f.exit g.entry) u l v := fun _ _ _ => Or.inl
    have hjoin : E.join (.silent f.exit g.entry) f.exit .epsilon g.entry := Or.inr ⟨rfl, rfl, rfl⟩
    exact (hf.spells hold h₁).trans ((hg.spells hold h₂).silent hjoin)

end Piece

/-! ## Side by side -/

/-- **A piece with room for more between its ends.**  Nothing of it leads back to
the entry, so what is put between entry and exit is passed once. -/
structure Fan (E : Steps) (e x : StateId) (S : Set StateId) (L : Language Letter) : Prop
    extends Piece E ⟨e, x⟩ S L where
  entry_ne_exit : e ≠ x
  unentered : ∀ u ∈ S, ∀ l, ¬ E u l e

namespace Fan

/-- Two states without steps. -/
theorem pair (hne : e ≠ x) (he : E.Final e) (hx : E.Final x) : Fan E e x {e, x} 0 := by
  have hnone : ∀ u ∈ ({e, x} : Set StateId), E.Final u := by
    rintro u (rfl | rfl)
    · exact he
    · exact hx
  refine ⟨⟨Or.inl rfl, Or.inr rfl, fun u hu l v h => absurd h (hnone u hu l v), hx,
    fun w => ⟨fun hp => ?_, fun hw => absurd hw (Language.notMem_zero w)⟩⟩, hne,
    fun u hu l => hnone u hu l e⟩
  exact absurd (hp.of_final he).2.symm hne

/-- A path of the old steps from the entry is a word of the fan; from elsewhere it
does not come by the entry. -/
theorem old_step (hf : Fan E e x S L) {u v : StateId} {w : List Letter} (he : E u l v)
    (hv : v ∈ S → v ≠ e → Spells E v w x) :
    (u ∈ S → u = e → l.word ++ w ∈ L) ∧ (u ∈ S → u ≠ e → Spells E u (l.word ++ w) x) := by
  have hpath : u ∈ S → Spells E u (l.word ++ w) x := fun hu =>
    .cons he (hv (hf.confined u hu l v he) fun hve => hf.unentered u hu l (hve ▸ he))
  exact ⟨fun hu hue => (hf.words _).mp (hue ▸ hpath hu), fun hu _ => hpath hu⟩

/-- **A step from the entry of a fan to its exit adds one word.** -/
theorem direct (hf : Fan E e x S L) : Fan (E.join (.arrow e l x)) e x S (L + {l.word}) := by
  refine ⟨⟨hf.entry_mem, hf.exit_mem, ?_, ?_, fun w => ⟨fun hp => ?_, ?_⟩⟩, hf.entry_ne_exit, ?_⟩
  · rintro u hu l' v (he | ⟨-, -, rfl⟩)
    · exact hf.confined u hu l' v he
    · exact hf.exit_mem
  · exact hf.final.join (Steps.final_arrow hf.entry_ne_exit.symm)
  · have hres : (e ∈ S → e = e → w ∈ L + {l.word}) ∧ (e ∈ S → e ≠ e → Spells E e w x) := by
      refine hp.residual (R := fun u w =>
        (u ∈ S → u = e → w ∈ L + {l.word}) ∧ (u ∈ S → u ≠ e → Spells E u w x))
        ⟨fun _ hexit => absurd hexit hf.entry_ne_exit.symm, fun _ _ => .nil _⟩ ?_
      rintro u l' v w (he | ⟨rfl, rfl, rfl⟩) ⟨-, hS⟩
      · obtain ⟨hentry, hpath⟩ := hf.old_step he hS
        exact ⟨fun hu hue => Or.inl (hentry hu hue), hpath⟩
      · obtain ⟨rfl, -⟩ := (hS hf.exit_mem hf.entry_ne_exit.symm).of_final hf.final
        exact ⟨fun _ _ => Or.inr (List.append_nil _), fun _ hne => absurd rfl hne⟩
    exact hres.1 hf.entry_mem rfl
  · rintro (hw | rfl)
    · exact hf.spells (fun _ _ _ => Or.inl) hw
    · exact Spells.single (Or.inr ⟨rfl, rfl, rfl⟩)
  · rintro u hu l' (he | ⟨-, -, hexit⟩)
    · exact hf.unentered u hu l' he
    · exact hf.entry_ne_exit hexit

/-- At the entry all words are to come, in the fan the rest of one of its own, and in
the piece the way to its exit. -/
theorem mem_of_spells_branch (hf : Fan E e x S L) (hg : Piece E g T M) (hdis : Disjoint S T)
    {w : List Letter}
    (hp : Spells ((E.join (.silent e g.entry)).join (.silent g.exit x)) e w x) : w ∈ L + M := by
  have hST : ∀ {u}, u ∈ S → u ∉ T := fun hu => Set.disjoint_left.mp hdis hu
  have hres : (e ∈ S → e = e → w ∈ L + M) ∧ (e ∈ S → e ≠ e → Spells E e w x) ∧
      (e ∈ T → Spells E e w g.exit) := by
    refine hp.residual (R := fun u w => (u ∈ S → u = e → w ∈ L + M) ∧
      (u ∈ S → u ≠ e → Spells E u w x) ∧ (u ∈ T → Spells E u w g.exit)) ?_ ?_
    · exact ⟨fun _ hexit => absurd hexit hf.entry_ne_exit.symm, fun _ _ => .nil _,
        fun hu => absurd hu (hST hf.exit_mem)⟩
    · rintro u l v w ((he | ⟨rfl, rfl, rfl⟩) | ⟨rfl, rfl, rfl⟩) ⟨-, hS, hT⟩
      · obtain ⟨hentry, hpath⟩ := hf.old_step he hS
        refine ⟨fun hu hue => Or.inl (hentry hu hue), hpath, ?_⟩
        intro hu
        exact .cons he (hT (hg.confined u hu l v he))
      · have hw : w ∈ M := (hg.words w).mp (hT hg.entry_mem)
        exact ⟨fun _ _ => Or.inr hw, fun _ hne => absurd rfl hne,
          fun hu => absurd hu (hST hf.entry_mem)⟩
      · obtain ⟨rfl, -⟩ := (hS hf.exit_mem hf.entry_ne_exit.symm).of_final hf.final
        have hout : g.exit ∉ S := fun hu => hST hu hg.exit_mem
        exact ⟨fun hu => absurd hu hout, fun hu => absurd hu hout, fun _ => .nil _⟩
  exact hres.1 hf.entry_mem rfl

/-- **A piece put between the ends of a fan adds its words.** -/
theorem branch (hf : Fan E e x S L) (hg : Piece E g T M) (hdis : Disjoint S T) :
    Fan ((E.join (.silent e g.entry)).join (.silent g.exit x)) e x (S ∪ T) (L + M) := by
  have hST : ∀ {u}, u ∈ S → u ∉ T := fun hu => Set.disjoint_left.mp hdis hu
  refine ⟨⟨Or.inl hf.entry_mem, Or.inl hf.exit_mem, ?_, ?_, fun w => ⟨?_, ?_⟩⟩,
    hf.entry_ne_exit, ?_⟩
  · rintro u hu l v ((he | ⟨-, -, rfl⟩) | ⟨-, -, rfl⟩)
    · exact hu.imp (hf.confined u · l v he) (hg.confined u · l v he)
    · exact Or.inr hg.entry_mem
    · exact Or.inl hf.exit_mem
  · refine (hf.final.join (Steps.final_arrow hf.entry_ne_exit.symm)).join
      (Steps.final_arrow fun hexit => ?_)
    exact hST hf.exit_mem (hexit ▸ hg.exit_mem)
  · exact mem_of_spells_branch hf hg hdis
  · have hold : ∀ u l v, E u l v → (E.join (.silent e g.entry)).join (.silent g.exit x) u l v :=
      fun _ _ _ he => Or.inl (Or.inl he)
    rintro (hw | hw)
    · exact hf.spells hold hw
    · exact ((hg.spells hold hw).snoc (Or.inr ⟨rfl, rfl, rfl⟩)).silent
        (Or.inl (Or.inr ⟨rfl, rfl, rfl⟩))
  · rintro u hu l ((he | ⟨-, -, hentry⟩) | ⟨-, -, hexit⟩)
    · rcases hu with hu | hu
      · exact hf.unentered u hu l he
      · exact hST hf.entry_mem (hg.confined u hu l _ he)
    · exact hST hf.entry_mem (hentry ▸ hg.entry_mem)
    · exact hf.entry_ne_exit hexit

end Fan

/-! ## Repeated -/

namespace Piece

/-- At the loop's state any number of rounds is to come, at the exit nothing, and in
the piece the rest of a round and more rounds. -/
theorem mem_of_spells_star (hg : Piece E g T M) (hne : e ≠ x) (heT : e ∉ T) (hxT : x ∉ T)
    (he : E.Final e) (hx : E.Final x) {w : List Letter}
    (hp : Spells (((E.join (.silent e g.entry)).join (.silent e x)).join (.silent g.exit e))
      e w x) : w ∈ M∗ := by
  have hres : (e = e → w ∈ M∗) ∧ (e = x → w = []) ∧ (e ∈ T → Passes E g.exit M∗ e w) := by
    refine hp.residual (R := fun u w => (u = e → w ∈ M∗) ∧ (u = x → w = []) ∧
      (u ∈ T → Passes E g.exit M∗ u w)) ?_ ?_
    · exact ⟨fun h => absurd h hne.symm, fun _ => rfl, fun hu => absurd hu hxT⟩
    · rintro u l v w (((hs | ⟨rfl, rfl, rfl⟩) | ⟨rfl, rfl, rfl⟩) | ⟨rfl, rfl, rfl⟩)
        ⟨hloop, hend, hT⟩
      · refine ⟨fun hu => absurd (hu ▸ hs) (he l v), fun hu => absurd (hu ▸ hs) (hx l v), ?_⟩
        intro hu
        exact (hT (hg.confined u hu l v hs)).step hs
      · have hw : w ∈ M∗ := mem_kstar_of_mem_mul (hg.mem_mul (hT hg.entry_mem))
        exact ⟨fun _ => hw, fun hu => absurd hu hne, fun hu => absurd hu heT⟩
      · obtain rfl := hend rfl
        exact ⟨fun _ => Language.nil_mem_kstar M, fun hu => absurd hu hne, fun hu => absurd hu heT⟩
      · exact ⟨fun hu => absurd (hu ▸ hg.exit_mem) heT, fun hu => absurd (hu ▸ hg.exit_mem) hxT,
          fun _ => .here (hloop rfl)⟩
  exact hres.1 rfl

/-- **A state to loop through and an exit make a piece repeat.** -/
theorem star (hg : Piece E g T M) (hne : e ≠ x) (heT : e ∉ T) (hxT : x ∉ T) (he : E.Final e)
    (hx : E.Final x) :
    Piece (((E.join (.silent e g.entry)).join (.silent e x)).join (.silent g.exit e)) ⟨e, x⟩
      (T ∪ {e, x}) M∗ := by
  refine ⟨Or.inr (Or.inl rfl), Or.inr (Or.inr rfl), ?_, ?_, fun w => ⟨?_, fun hw => ?_⟩⟩
  · rintro u hu l v (((hs | ⟨-, -, rfl⟩) | ⟨-, -, rfl⟩) | ⟨-, -, rfl⟩)
    · rcases hu with hu | rfl | rfl
      · exact Or.inl (hg.confined u hu l v hs)
      · exact absurd hs (he l v)
      · exact absurd hs (hx l v)
    · exact Or.inl hg.entry_mem
    · exact Or.inr (Or.inr rfl)
    · exact Or.inr (Or.inl rfl)
  · refine ((hx.join (Steps.final_arrow hne.symm)).join (Steps.final_arrow hne.symm)).join
      (Steps.final_arrow fun hexit => ?_)
    exact hxT (hexit ▸ hg.exit_mem)
  · exact mem_of_spells_star hg hne heT hxT he hx
  · refine (Spells.round (fun v hv => ?_) hw).snoc (Or.inl (Or.inr ⟨rfl, rfl, rfl⟩))
    exact ((hg.spells (fun _ _ _ hs => Or.inl (Or.inl (Or.inl hs))) hv).snoc
      (Or.inr ⟨rfl, rfl, rfl⟩)).silent (Or.inl (Or.inl (Or.inr ⟨rfl, rfl, rfl⟩)))

/-- At the exit nothing is to come, and in the piece the rest of a round and more
rounds. -/
theorem mem_of_spells_plus (hg : Piece E g T M) (hxT : x ∉ T) (hx : E.Final x) {w : List Letter}
    (hp : Spells ((E.join (.silent g.exit g.entry)).join (.silent g.exit x)) g.entry w x) :
    w ∈ M * M∗ := by
  have hres : (g.entry = x → w = []) ∧ (g.entry ∈ T → Passes E g.exit M∗ g.entry w) := by
    refine hp.residual (R := fun u w =>
      (u = x → w = []) ∧ (u ∈ T → Passes E g.exit M∗ u w)) ?_ ?_
    · exact ⟨fun _ => rfl, fun hu => absurd hu hxT⟩
    · have hexit : g.exit ≠ x := fun hu => hxT (hu ▸ hg.exit_mem)
      rintro u l v w ((hs | ⟨rfl, rfl, rfl⟩) | ⟨rfl, rfl, rfl⟩) ⟨hend, hT⟩
      · refine ⟨fun hu => absurd (hu ▸ hs) (hx l v), ?_⟩
        intro hu
        exact (hT (hg.confined u hu l v hs)).step hs
      · have hw : w ∈ M∗ := mem_kstar_of_mem_mul (hg.mem_mul (hT hg.entry_mem))
        exact ⟨fun hu => absurd hu hexit, fun _ => .here hw⟩
      · obtain rfl := hend rfl
        exact ⟨fun hu => absurd hu hexit, fun _ => .here (Language.nil_mem_kstar M)⟩
  exact hg.mem_mul (hres.2 hg.entry_mem)

/-- **A step back to the entry and a new exit make a piece repeat, at least
once.** -/
theorem plus (hg : Piece E g T M) (hxT : x ∉ T) (hx : E.Final x) :
    Piece ((E.join (.silent g.exit g.entry)).join (.silent g.exit x)) ⟨g.entry, x⟩ (T ∪ {x})
      (M * M∗) := by
  refine ⟨Or.inl hg.entry_mem, Or.inr rfl, ?_, ?_, fun w => ⟨?_, ?_⟩⟩
  · rintro u hu l v ((hs | ⟨-, -, rfl⟩) | ⟨-, -, rfl⟩)
    · rcases hu with hu | rfl
      · exact Or.inl (hg.confined u hu l v hs)
      · exact absurd hs (hx l v)
    · exact Or.inl hg.entry_mem
    · exact Or.inr rfl
  · have hexit : x ≠ g.exit := fun hexit => hxT (hexit ▸ hg.exit_mem)
    exact (hx.join (Steps.final_arrow hexit)).join (Steps.final_arrow hexit)
  · exact mem_of_spells_plus hg hxT hx
  · rintro ⟨w₁, h₁, w₂, h₂, rfl⟩
    have hold : ∀ u l v, E u l v →
        (E.join (.silent g.exit g.entry)).join (.silent g.exit x) u l v :=
      fun _ _ _ hs => Or.inl (Or.inl hs)
    refine (hg.spells hold h₁).trans ((Spells.round (fun v hv => ?_) h₂).snoc
      (Or.inr ⟨rfl, rfl, rfl⟩))
    exact (hg.spells hold hv).silent (Or.inl (Or.inr ⟨rfl, rfl, rfl⟩))

end Piece
end Steps
end GrammarAtlas
