import GrammarAtlas.Text.Basic

/-!
# Slices of a text

A slice of a text is what stands between two other pieces of it, and the offsets that it is
taken at are the measures of what is in front (`slice?_eq_some_iff`).  So a slice of a part
of a text is a slice of the whole, further on by what is in front of the part
(`slice?_inside`).  Where one slice starts and another one stops, there can be cut as well
(`exists_slice?`), and if the other one is behind the first, the cut begins and ends with them
(`exists_slice?_between`).
-/

namespace GrammarAtlas
namespace Text

variable {t r : Text} {n start stop : Nat}

theorem append_of_dropBytes? (h : dropBytes? t n = some r) :
    ∃ front, t = front ++ r ∧ byteSize front = n := by
  fun_induction dropBytes? t n with
  | case1 t =>
    obtain rfl := Option.some.inj h
    exact ⟨[], rfl, rfl⟩
  | case2 => cases h
  | case3 c t n hc ih =>
    obtain ⟨front, rfl, hfront⟩ := ih h
    refine ⟨c :: front, rfl, ?_⟩
    rw [byteSize_cons, hfront]
    omega
  | case4 => cases h

theorem append_of_takeBytes? (h : takeBytes? t n = some r) :
    ∃ back, t = r ++ back ∧ byteSize r = n := by
  fun_induction takeBytes? t n generalizing r with
  | case1 t =>
    obtain rfl := Option.some.inj h
    exact ⟨t, rfl, rfl⟩
  | case2 => cases h
  | case3 c t n hc ih =>
    obtain ⟨r, hr, rfl⟩ := Option.map_eq_some_iff.mp h
    obtain ⟨back, rfl, hback⟩ := ih hr
    refine ⟨back, rfl, ?_⟩
    rw [byteSize_cons, hback]
    omega
  | case4 => cases h

/-- **A slice is what stands at its offsets.** -/
theorem slice?_eq_some_iff : slice? t start stop = some r ↔
    ∃ front back, t = front ++ r ++ back ∧ byteSize front = start ∧
      byteSize front + byteSize r = stop := by
  constructor
  · intro h
    rw [slice?] at h
    split at h
    · obtain ⟨rest, hdrop, htake⟩ := Option.bind_eq_some_iff.mp h
      obtain ⟨front, rfl, hfront⟩ := append_of_dropBytes? hdrop
      obtain ⟨back, rfl, hback⟩ := append_of_takeBytes? htake
      exact ⟨front, back, (List.append_assoc ..).symm, hfront, by omega⟩
    · cases h
  · rintro ⟨front, back, rfl, rfl, rfl⟩
    exact slice?_append front r back

/-- A slice of a part is a slice of the whole. -/
theorem slice?_inside (h : slice? t start stop = some r) (front back : Text) :
    slice? (front ++ t ++ back) (byteSize front + start) (byteSize front + stop) = some r := by
  obtain ⟨before, after, rfl, rfl, rfl⟩ := slice?_eq_some_iff.mp h
  refine slice?_eq_some_iff.mpr ⟨front ++ before, after ++ back, ?_, ?_, ?_⟩
  · simp only [List.append_assoc]
  · rw [byteSize_append]
  · rw [byteSize_append, Nat.add_assoc]

/-- Of two pieces that a text begins with, the one that takes no more bytes is in front. -/
theorem prefix_of_byteSize_le {u : Text} (hr : r <+: t) (hu : u <+: t)
    (hsize : byteSize r ≤ byteSize u) : r <+: u := by
  rcases List.prefix_or_prefix_of_prefix hr hu with hprefix | ⟨more, rfl⟩
  · exact hprefix
  · cases more with
    | nil => exact (List.append_nil u).symm ▸ List.prefix_rfl
    | cons c more =>
      have hpos := c.utf8Size_pos
      rw [byteSize_append, byteSize_cons] at hsize
      omega

/-- From the start of a slice to the end of another one there is a slice. -/
theorem exists_slice? {u : Text} {start' stop' : Nat} (h : slice? t start stop' = some r)
    (h' : slice? t start' stop = some u) (hle : start ≤ stop) :
    ∃ piece, slice? t start stop = some piece := by
  obtain ⟨front, back, rfl, rfl, -⟩ := slice?_eq_some_iff.mp h
  obtain ⟨front', back', htext, -, hstop⟩ := slice?_eq_some_iff.mp h'
  rw [← byteSize_append] at hstop
  have hfront : front <+: front ++ r ++ back := by
    rw [List.append_assoc]
    exact List.prefix_append ..
  obtain ⟨piece, hpiece⟩ : front <+: front' ++ u := by
    refine prefix_of_byteSize_le hfront (htext ▸ List.prefix_append ..) ?_
    rwa [hstop]
  refine ⟨piece, slice?_eq_some_iff.mpr ⟨front, back', ?_, rfl, ?_⟩⟩
  · rw [htext, hpiece]
  · rw [← byteSize_append, hpiece, hstop]

/-- A slice that is not empty ends behind its start. -/
theorem lt_of_slice? (h : slice? t start stop = some r) (hne : r ≠ []) : start < stop := by
  obtain ⟨front, back, -, rfl, rfl⟩ := slice?_eq_some_iff.mp h
  obtain ⟨c, r, rfl⟩ := List.exists_cons_of_ne_nil hne
  exact Nat.lt_add_of_pos_right (Nat.add_pos_left c.utf8Size_pos _)

/-- From one slice to another one behind it there is a slice that begins and ends with them. -/
theorem exists_slice?_between {u : Text} {start' stop' : Nat} (h : slice? t start stop = some r)
    (h' : slice? t start' stop' = some u) (hle : stop ≤ start') :
    ∃ inside, slice? t start stop' = some (r ++ inside ++ u) := by
  obtain ⟨front, back, rfl, rfl, rfl⟩ := slice?_eq_some_iff.mp h
  obtain ⟨front', back', htext, rfl, rfl⟩ := slice?_eq_some_iff.mp h'
  obtain ⟨inside, rfl⟩ : front ++ r <+: front' := by
    have hfront' : front' <+: front ++ r ++ back := by
      rw [htext, List.append_assoc]
      exact List.prefix_append ..
    refine prefix_of_byteSize_le (List.prefix_append ..) hfront' ?_
    rwa [byteSize_append]
  refine ⟨inside, slice?_eq_some_iff.mpr ⟨front, back', ?_, rfl, ?_⟩⟩
  · rw [htext]
    simp only [List.append_assoc]
  · simp only [byteSize_append, Nat.add_assoc]

theorem le_byteSize_of_slice? (h : slice? t start stop = some r) : stop ≤ byteSize t := by
  obtain ⟨front, back, rfl, -, rfl⟩ := slice?_eq_some_iff.mp h
  rw [byteSize_append, byteSize_append]
  exact Nat.le_add_right ..

end Text
end GrammarAtlas
