import Mathlib.Computability.Language

/-!
# Regular expressions as languages

Sums, products and stars of languages are there already.  What is added are
classes of letters, and how to tell membership in a run of such letters.
-/

namespace GrammarAtlas

open scoped Computability

variable {α : Type} {L M : Language α} {p q : α → Bool} {v w : List α} {a : α}

theorem mem_kstar_of_mem_mul (hw : w ∈ L * L∗) : w ∈ L∗ := by
  rw [← Language.one_add_self_mul_kstar_eq_kstar]
  exact Or.inr hw

theorem append_mem_kstar (hv : v ∈ L) (hw : w ∈ L∗) : v ++ w ∈ L∗ :=
  mem_kstar_of_mem_mul (Language.append_mem_mul hv hw)

/-- A word of a star is built by putting words in front, one after the other. -/
theorem kstar_induction {P : List α → Prop} (hnil : P [])
    (happend : ∀ v ∈ L, ∀ w ∈ L∗, P w → P (v ++ w)) (hw : w ∈ L∗) : P w := by
  obtain ⟨ws, rfl, hws⟩ := Language.mem_kstar.mp hw
  clear hw
  induction ws with
  | nil => exact hnil
  | cons v ws ih =>
    have hrest : ∀ y ∈ ws, y ∈ L := fun y hy => hws y (List.mem_cons_of_mem _ hy)
    have hmem : ws.flatten ∈ L∗ := Language.join_mem_kstar hrest
    exact happend v (hws v (List.mem_cons_self ..)) _ hmem (ih hrest)

/-- The language of one letter of a class. -/
def one (p : α → Bool) : Language α := {w | ∃ a, p a = true ∧ w = [a]}

@[simp] theorem mem_one_singleton : [a] ∈ one p ↔ p a = true := by
  refine ⟨?_, fun h => ⟨a, h, rfl⟩⟩
  rintro ⟨b, hb, hab⟩
  obtain rfl := List.singleton_inj.mp hab
  exact hb

theorem mem_one_mul : w ∈ one p * L ↔ ∃ a v, w = a :: v ∧ p a = true ∧ v ∈ L := by
  constructor
  · rintro ⟨_, ⟨a, ha, rfl⟩, v, hv, rfl⟩
    exact ⟨a, v, rfl, ha, hv⟩
  · rintro ⟨a, v, rfl, ha, hv⟩
    exact ⟨[a], ⟨a, ha, rfl⟩, v, hv, rfl⟩

/-- The words of a class are those whose letters are all in it. -/
theorem mem_kstar_one : w ∈ (one p)∗ ↔ ∀ a ∈ w, p a = true := by
  constructor
  · intro h
    refine kstar_induction (P := fun w => ∀ a ∈ w, p a = true) ?_ ?_ h
    · exact fun a ha => absurd ha List.not_mem_nil
    rintro _ ⟨b, hb, rfl⟩ w - ih a ha
    rcases List.mem_cons.mp ha with rfl | ha
    · exact hb
    · exact ih a ha
  · intro h
    induction w with
    | nil => exact Language.nil_mem_kstar _
    | cons a w ih =>
      have ha : [a] ∈ one p := ⟨a, h a (List.mem_cons_self ..), rfl⟩
      exact append_mem_kstar ha (ih fun b hb => h b (List.mem_cons_of_mem _ hb))

/-- A letter of one class and then letters of another. -/
theorem mem_run : w ∈ one p * (one q)∗ ↔
    ∃ a v, w = a :: v ∧ p a = true ∧ ∀ b ∈ v, q b = true := by
  simp only [mem_one_mul, mem_kstar_one]

theorem mem_singleton_mul : w ∈ ({v} : Language α) * L ↔ ∃ u, w = v ++ u ∧ u ∈ L := by
  constructor
  · rintro ⟨_, rfl, u, hu, rfl⟩
    exact ⟨u, rfl, hu⟩
  · rintro ⟨u, rfl, hu⟩
    exact ⟨v, rfl, u, hu, rfl⟩

end GrammarAtlas
