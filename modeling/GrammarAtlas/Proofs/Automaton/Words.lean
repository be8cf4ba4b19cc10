import Mathlib.Computability.Language
import GrammarAtlas.Automaton.Region

/-!
# Words spelled by paths

A path through an automaton spells a word: the symbols and rule names on its
transitions, one after the other.  Epsilon transitions add nothing.  The words
from a start state to accepting states are the *language* of a region.

Paths are taken over any relation of labelled steps, so that one theory serves
automata, lists of states and parts of either.  Two facts carry what is proved
about them elsewhere.

* `Spells.mono_on`: a path depends only on the steps out of the states that it
  can visit.
* `Spells.residual`: to know what can be spelled from a state to a target it is
  enough to name, for each state, a set of words that is closed under taking a
  step backwards.
-/

namespace GrammarAtlas

/-- What a word is made of: labels other than epsilon. -/
inductive Letter where
  | symbol (text : Text)
  | rule (name : Text)
  deriving DecidableEq, Repr

/-- The letters that a label adds to a word. -/
def Label.word : Label → List Letter
  | .epsilon => []
  | .symbol t => [.symbol t]
  | .rule name => [.rule name]

@[simp] theorem Label.word_epsilon : Label.word .epsilon = [] := rfl

/-- Labelled steps between states. -/
abbrev Steps := StateId → Label → StateId → Prop

/-- Some path over the steps leads from one state to another and spells the word. -/
inductive Spells (E : Steps) : StateId → List Letter → StateId → Prop
  | nil (u : StateId) : Spells E u [] u
  | cons {u v x : StateId} {l : Label} {w : List Letter} :
      E u l v → Spells E v w x → Spells E u (l.word ++ w) x

namespace Spells

variable {E F : Steps} {u v x : StateId} {w w' : List Letter}

/-- An epsilon step in front of a path adds nothing to its word. -/
theorem silent (h : E u .epsilon v) (hp : Spells E v w x) : Spells E u w x := .cons h hp

/-- A single step. -/
theorem single {l : Label} (h : E u l v) : Spells E u l.word v := by
  simpa using Spells.cons h (.nil v)

/-- Paths compose, and so do their words. -/
theorem trans (h : Spells E u w v) (h' : Spells E v w' x) : Spells E u (w ++ w') x := by
  induction h with
  | nil u => exact h'
  | cons hstep _ ih =>
    rw [List.append_assoc]
    exact .cons hstep (ih h')

/-- A path over steps that stay in a set of states, begun in the set, is a path
over any steps that agree with these out of the set. -/
theorem mono_on {S : Set StateId} (hstay : ∀ u ∈ S, ∀ l v, E u l v → v ∈ S)
    (hsub : ∀ u ∈ S, ∀ l v, E u l v → F u l v) (hu : u ∈ S) (h : Spells E u w x) :
    Spells F u w x := by
  induction h with
  | nil u => exact .nil u
  | cons hstep _ ih => exact .cons (hsub _ hu _ _ hstep) (ih (hstay _ hu _ _ hstep))

/-- More steps, more paths. -/
theorem mono (hsub : ∀ u l v, E u l v → F u l v) (h : Spells E u w x) : Spells F u w x :=
  mono_on (S := Set.univ) (fun _ _ _ _ _ => trivial) (fun u _ l v => hsub u l v) trivial h

/-- **Residual words.**  Let every state have a set of words, the target at least
the empty word, such that a step into a state, followed by a word of that state,
is a word of the state that the step starts from.  Then all that can be spelled
from a state to the target is among the state's words. -/
theorem residual {R : StateId → List Letter → Prop} (htarget : R x [])
    (hstep : ∀ u l v w, E u l v → R v w → R u (l.word ++ w)) (h : Spells E u w x) : R u w := by
  induction h with
  | nil u => exact htarget
  | cons he _ ih => exact hstep _ _ _ _ he (ih htarget)

end Spells

namespace RegionState

/-- The steps that the states of a list make. -/
def steps (states : List RegionState) : Steps :=
  fun u l v => ∃ s ∈ states, s.id = u ∧ ⟨l, v⟩ ∈ s.transitions

/-- The words spelled from a start state to an accepting state of a list. -/
def language (start : StateId) (states : List RegionState) : Language Letter :=
  {w | ∃ s ∈ states, s.accepting = true ∧ Spells (steps states) start w s.id}

theorem mem_language {start : StateId} {states : List RegionState} {w : List Letter} :
    w ∈ language start states ↔
      ∃ s ∈ states, s.accepting = true ∧ Spells (steps states) start w s.id := Iff.rfl

end RegionState

/-- The words spelled from the start of the region to its accepting states. -/
def Region.language (g : Region) : Language Letter := RegionState.language g.start g.states

end GrammarAtlas
