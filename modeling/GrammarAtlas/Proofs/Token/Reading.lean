import GrammarAtlas.Token.Stream
import Mathlib.Data.List.Forall2

/-!
# Reading without faults

Everything that looks at the texts of a stream may come to a fault.  `Yields m Q`
says that `m` does not, and that what it gives has the property `Q`.  A
computation is taken apart at its steps (`Yields.bind`), so what a function
yields follows from what the functions in it yield.

On a readable stream every text can be had; on one that is forward, too, so can
every span from the start of a token to the end of a later one.
-/

namespace GrammarAtlas

variable {α β : Type} {m : Except ReadFault α}

/-- The computation is no fault and gives something with a property. -/
def Yields (m : Except ReadFault α) (Q : α → Prop) : Prop := ∃ a, m = .ok a ∧ Q a

namespace Yields

variable {P Q : α → Prop} {R : β → Prop}

theorem of_ok {a : α} (h : Q a) : Yields (.ok a) Q := ⟨a, rfl, h⟩

theorem imp (hm : Yields m P) (h : ∀ a, P a → Q a) : Yields m Q := by
  obtain ⟨a, ha, hP⟩ := hm
  exact ⟨a, ha, h a hP⟩

/-- What comes next starts from what was given, which has the property. -/
theorem bind {k : α → Except ReadFault β} (hm : Yields m P)
    (hk : ∀ a, m = .ok a → P a → Yields (k a) R) : Yields (m >>= k) R := by
  obtain ⟨a, rfl, hP⟩ := hm
  exact hk a rfl hP

/-- What holds of each result in a list holds of all. -/
theorem mapM {γ : Type} {f : γ → Except ReadFault α} {T : γ → α → Prop} {xs : List γ}
    (h : ∀ x ∈ xs, Yields (f x) (T x)) : Yields (xs.mapM f) (List.Forall₂ T xs) := by
  induction xs with
  | nil => exact of_ok .nil
  | cons x xs ih =>
    rw [List.mapM_cons]
    refine (h x List.mem_cons_self).bind ?_
    intro a _ ha
    refine (ih fun y hy => h y (List.mem_cons_of_mem x hy)).bind ?_
    intro as _ has
    exact of_ok (.cons ha has)

/-- A search through a list is no fault if no look at its elements is one. -/
theorem anyM {γ : Type} {f : γ → Except ReadFault Bool} {xs : List γ}
    (h : ∀ x ∈ xs, Yields (f x) fun _ => True) : Yields (xs.anyM f) fun _ => True := by
  induction xs with
  | nil => exact of_ok trivial
  | cons x xs ih =>
    rw [List.anyM]
    refine (h x List.mem_cons_self).bind ?_
    intro found _ _
    cases found with
    | true => exact of_ok trivial
    | false => exact ih fun y hy => h y (List.mem_cons_of_mem x hy)

end Yields

/-- What is given for each element of a list is given for the list. -/
theorem mapM_eq_ok {f : α → Except ReadFault β} {xs : List α} {ys : List β}
    (h : List.Forall₂ (fun x y => f x = .ok y) xs ys) : xs.mapM f = .ok ys := by
  induction h with
  | nil => rfl
  | cons hxy _ ih =>
    rw [List.mapM_cons, hxy, ih]
    rfl

/-- Lists that are related by having the same of something have the same list of it. -/
theorem map_eq_map_of_forall₂ {γ : Type} {f : α → γ} {g : β → γ} {xs : List α} {ys : List β}
    (h : List.Forall₂ (fun x y => f x = g y) xs ys) : xs.map f = ys.map g := by
  induction h with
  | nil => rfl
  | cons hxy _ ih => rw [List.map_cons, List.map_cons, ih, hxy]

/-- Whatever is given comes from somewhere. -/
theorem exists_of_mem_right {R : α → β → Prop} {xs : List α} {ys : List β}
    (h : List.Forall₂ R xs ys) {y : β} (hy : y ∈ ys) : ∃ x ∈ xs, R x y := by
  induction h with
  | nil => exact absurd hy List.not_mem_nil
  | cons hxy _ ih =>
    rcases List.mem_cons.mp hy with rfl | hy
    · exact ⟨_, List.mem_cons_self, hxy⟩
    · obtain ⟨x, hx, hR⟩ := ih hy
      exact ⟨x, List.mem_cons_of_mem _ hx, hR⟩

namespace TokenStream

variable {s : TokenStream} {t : Token} {i : Nat}

/-- What is read is what the source has there. -/
theorem read_eq_ok_iff {span : Span} {text : Text} :
    s.read span = .ok text ↔ s.source.slice? span.start span.stop = some text := by
  rw [read]
  cases s.source.slice? span.start span.stop <;> simp

/-- A token of a readable stream has a text. -/
theorem Readable.text (hr : s.Readable) (ht : t ∈ s.tokens) : Yields (s.text t) fun _ => True := by
  obtain ⟨text, htext⟩ := Option.isSome_iff_exists.mp (hr t ht)
  rw [TokenStream.text, read, htext]
  exact .of_ok trivial

theorem mem_of_get? (h : s.get? i = some t) : t ∈ s.tokens := List.mem_of_getElem? h

theorem lt_of_get? (h : s.get? i = some t) : i < s.size := (List.getElem?_eq_some_iff.mp h).1

theorem exists_get? (h : i < s.size) : ∃ t, s.get? i = some t := ⟨_, List.getElem?_eq_getElem h⟩

theorem textAt_of_get? (h : s.get? i = some t) : s.textAt i = s.text t := by
  rw [textAt, h]

/-- Where there is some text, there is a token. -/
theorem lt_size_of_textAt {text : Text} (h : s.textAt i = .ok text) (hne : text ≠ []) :
    i < s.size := by
  cases hget : s.get? i with
  | none =>
    rw [textAt, hget] at h
    exact absurd (Except.ok.inj h).symm hne
  | some t => exact lt_of_get? hget

/-- An index always has a text, which is empty past the end. -/
theorem Readable.textAt (hr : s.Readable) (i : Nat) : Yields (s.textAt i) fun _ => True := by
  cases hget : s.get? i with
  | none =>
    rw [TokenStream.textAt, hget]
    exact .of_ok trivial
  | some t =>
    rw [textAt_of_get? hget]
    exact hr.text (mem_of_get? hget)

/-- The tokens do not run backwards: none ends before one in front of it starts.
Where all tokens can be read, it is enough that they start in order. -/
def Forward (s : TokenStream) : Prop :=
  s.tokens.Pairwise fun t u => t.span.start ≤ u.span.stop

instance (s : TokenStream) : Decidable s.Forward :=
  inferInstanceAs (Decidable (List.Pairwise _ s.tokens))

theorem Readable.start_le_stop (hr : s.Readable) (ht : t ∈ s.tokens) :
    t.span.start ≤ t.span.stop := by
  obtain ⟨text, htext⟩ := Option.isSome_iff_exists.mp (hr t ht)
  unfold Text.slice? at htext
  split at htext
  · assumption
  · cases htext

/-- From the start of a token to the end of one that is not in front of it is a
span whose ends are in order. -/
theorem Forward.forward_span (hf : s.Forward) (hr : s.Readable) {u : Token} {j : Nat}
    (ht : s.get? i = some t) (hu : s.get? j = some u) (hij : i ≤ j) :
    Span.Forward ⟨t.span.start, u.span.stop⟩ := by
  show t.span.start ≤ u.span.stop
  rcases Nat.eq_or_lt_of_le hij with rfl | hlt
  · obtain rfl : t = u := Option.some.inj (ht.symm.trans hu)
    exact hr.start_le_stop (mem_of_get? ht)
  · obtain ⟨hi, rfl⟩ := List.getElem?_eq_some_iff.mp ht
    obtain ⟨hj, rfl⟩ := List.getElem?_eq_some_iff.mp hu
    exact List.pairwise_iff_getElem.mp hf i j hi hj hlt

end TokenStream
end GrammarAtlas
