import GrammarAtlas.Text.Basic
import Mathlib.Data.List.Basic

/-!
# Joined texts

A text that is put together from others can be taken apart again where it is known what ends
each of them: lines end at line feeds, words in front of a space, numbers in front of what is no
digit (`append_inj_of_class`).

Lines that are joined keep their line feeds, and there is one more between neighbours
(`lineBreaks_join`).
-/

namespace GrammarAtlas
namespace Text

variable {p : Char → Bool} {c : Char} {s t u v : Text} {m n : Nat}

/-! ## Lines -/

theorem lineBreaks_eq_zero_iff : lineBreaks t = 0 ↔ '\n' ∉ t := List.count_eq_zero

theorem join_eq_intercalate (separator : Text) (ts : List Text) :
    join separator ts = separator.intercalate ts := by
  induction ts with
  | nil => rfl
  | cons t ts ih =>
    cases ts with
    | nil => exact List.intercalate_singleton.symm
    | cons u ts => rw [join_cons_cons, ih, List.intercalate_cons_cons]

/-- Joined lines have their own line feeds and one between neighbours. -/
theorem lineBreaks_join (ts : List Text) :
    (join ['\n'] ts).lineBreaks = (ts.length - 1) + lineBreaks ts.flatten := by
  induction ts with
  | nil => rfl
  | cons t ts ih =>
    cases ts with
    | nil => simp
    | cons u ts =>
      have hone : lineBreaks ['\n'] = 1 := rfl
      rw [join_cons_cons, lineBreaks_append, lineBreaks_append, ih, hone,
        List.flatten_cons (l := t), lineBreaks_append]
      simp only [List.length_cons]
      omega

/-! ## Words and numbers -/

theorem takeWhile_append_of_head (hu : ∀ d ∈ u, p d = true) (hs : ∀ d ∈ s.head?, p d = false) :
    (u ++ s).takeWhile p = u := by
  have hrest : s.takeWhile p = [] := by
    cases s with
    | nil => rfl
    | cons d s => rw [List.takeWhile_cons_of_neg (by rw [hs d rfl]; decide)]
  rw [List.takeWhile_append_of_pos hu, hrest, List.append_nil]

/-- **A run of characters of a class is told from what follows it.** -/
theorem append_inj_of_class (hu : ∀ d ∈ u, p d = true) (hs : ∀ d ∈ s.head?, p d = false)
    (hv : ∀ d ∈ v, p d = true) (ht : ∀ d ∈ t.head?, p d = false) (h : u ++ s = v ++ t) :
    u = v ∧ s = t := by
  have huv : u = v := by
    rw [← takeWhile_append_of_head hu hs, h, takeWhile_append_of_head hv ht]
  subst huv
  exact ⟨rfl, List.append_cancel_left h⟩

/-- A text is told from what follows it behind a character that is not in it. -/
theorem append_cons_inj (hu : c ∉ u) (hv : c ∉ v) (h : u ++ c :: s = v ++ c :: t) :
    u = v ∧ s = t := by
  have hclass {w : Text} (hw : c ∉ w) : ∀ d ∈ w, (d != c) = true := by
    intro d hd
    rw [bne_iff_ne]
    rintro rfl
    exact hw hd
  have hhead (w : Text) : ∀ d ∈ (c :: w).head?, (d != c) = false := by simp
  obtain ⟨huv, hst⟩ := append_inj_of_class (hclass hu) (hhead s) (hclass hv) (hhead t) h
  exact ⟨huv, List.tail_eq_of_cons_eq hst⟩

theorem isDigit_of_mem_decimal (h : c ∈ decimal n) : c.isDigit = true :=
  Nat.isDigit_of_mem_toDigits (by decide) (by decide) h

theorem newline_notMem_decimal (n : Nat) : '\n' ∉ decimal n := fun h =>
  absurd (isDigit_of_mem_decimal h) (by decide)

/-- No digit stands here. -/
def EndsNumber (t : Text) : Prop := ∀ d ∈ t.head?, d.isDigit = false

/-- A number is told from what follows it. -/
theorem decimal_append_inj (hs : EndsNumber s) (ht : EndsNumber t)
    (h : decimal m ++ s = decimal n ++ t) : m = n ∧ s = t := by
  obtain ⟨hmn, hst⟩ := append_inj_of_class (fun _ => isDigit_of_mem_decimal) hs
    (fun _ => isDigit_of_mem_decimal) ht h
  have hvalue (k : Nat) : Nat.ofDigitChars 10 (decimal k) 0 = k :=
    Nat.ofDigitChars_toDigits (by decide) (by decide)
  exact ⟨by rw [← hvalue m, hmn, hvalue n], hst⟩

end Text
end GrammarAtlas
