import GrammarAtlas.Proofs.Text.Utf8
import GrammarAtlas.Token.Lexing

/-!
# Lines

The line of a byte is the number of line feeds in front of it (`lineOf_ofSource`).  A
line feed is one byte and no byte of a longer character, so line feeds may be counted
among the bytes or among the characters (`count_utf8_newline`).  Hence a text that
stands behind another one has the lines that it has by itself, counted on from those
in front (`lineOf_append`), and what stands behind it does not matter
(`lineOf_append_of_le`).

From one byte to another one further on the lines go on by the line feeds that lie between
them (`lineOf_add`), so the two are on different lines just when there is one
(`lineOf_lt_iff`).
-/

namespace GrammarAtlas

theorem Text.count_utf8EncodeChar_newline (c : Char) :
    (String.utf8EncodeChar c).count '\n'.toUInt8 = if c = '\n' then 1 else 0 := by
  by_cases h : c.utf8Size = 1
  · rw [Text.utf8EncodeChar_of_utf8Size h, List.count_singleton]
    simp only [beq_iff_eq, Text.toUInt8_eq_iff h (d := '\n') rfl]
  · have hne : c ≠ '\n' := by
      rintro rfl
      exact h rfl
    rw [if_neg hne, List.count_eq_zero]
    intro hmem
    exact Text.ne_toUInt8_of_le (d := '\n') rfl (Text.le_toNat_of_mem_utf8EncodeChar h hmem) rfl

/-- Line feeds may be counted among the bytes. -/
theorem Text.count_utf8_newline (t : Text) : t.utf8.count '\n'.toUInt8 = t.lineBreaks := by
  induction t with
  | nil => rfl
  | cons c t ih =>
    rw [Text.utf8_cons, List.count_append, ih, count_utf8EncodeChar_newline, Text.lineBreaks,
      Text.lineBreaks, List.count_cons, Nat.add_comm]
    simp only [beq_iff_eq]

/-- A line feed is a byte of the text just when it is a character of it. -/
theorem Text.newline_mem_utf8 {t : Text} : '\n'.toUInt8 ∈ t.utf8 ↔ '\n' ∈ t := by
  rw [← List.count_pos_iff, Text.count_utf8_newline, Text.lineBreaks, List.count_pos_iff]

namespace LineIndex

variable {a : Text} {offset : Nat}

/-- Of the line starts in a stretch of bytes, those up to an offset are as many as the line
feeds in front of it. -/
theorem length_takeWhile_starts (bytes : List UInt8) (first offset : Nat) :
    ((((bytes.zipIdx first).filter (·.1 = '\n'.toUInt8)).map (·.2 + 1)).takeWhile
      (· ≤ offset)).length = (bytes.take (offset - first)).count '\n'.toUInt8 := by
  induction bytes generalizing first with
  | nil => simp
  | cons b bytes ih =>
    have ih := ih (first + 1)
    by_cases hfirst : first + 1 ≤ offset
    · obtain ⟨n, hn⟩ : ∃ n, offset - first = n + 1 := ⟨offset - first - 1, by omega⟩
      have hnext : offset - (first + 1) = n := by omega
      rw [hnext] at ih
      rw [hn, List.take_succ_cons, List.count_cons, ← ih, List.zipIdx_cons]
      by_cases hb : b = '\n'.toUInt8
      · simp [hb, hfirst]
      · simp [hb]
    · have hzero : offset - first = 0 := by omega
      have hnext : offset - (first + 1) = 0 := by omega
      rw [hnext, List.take_zero, List.count_nil] at ih
      rw [hzero, List.take_zero, List.count_nil, List.zipIdx_cons]
      by_cases hb : b = '\n'.toUInt8
      · simp [hb, hfirst]
      · simpa [hb] using ih

/-- **The line of a byte is the number of line feeds in front of it.** -/
theorem lineOf_ofSource (source : Text) (offset : Nat) :
    (ofSource source).lineOf offset = (source.utf8.take offset).count '\n'.toUInt8 := by
  have hstarts := length_takeWhile_starts source.utf8 0 offset
  rw [Nat.sub_zero] at hstarts
  simp [ofSource, lineOf, ← hstarts]

/-- Up to its end, a text has the same lines whatever stands behind it. -/
theorem lineOf_append_of_le (h : offset ≤ Text.byteSize a) (b : Text) :
    (ofSource (a ++ b)).lineOf offset = (ofSource a).lineOf offset := by
  have hlength : offset ≤ a.utf8.length := by rwa [Text.length_utf8]
  rw [lineOf_ofSource, lineOf_ofSource, Text.utf8_append, List.take_append_of_le_length hlength]

/-- The lines of a text behind another one go on from the lines of that. -/
theorem lineOf_append (a b : Text) (offset : Nat) :
    (ofSource (a ++ b)).lineOf (Text.byteSize a + offset) =
      a.lineBreaks + (ofSource b).lineOf offset := by
  rw [lineOf_ofSource, lineOf_ofSource, Text.utf8_append, ← Text.length_utf8,
    List.take_length_add_append, List.count_append, Text.count_utf8_newline]

/-- **Lines go on** by the line feeds between two offsets. -/
theorem lineOf_add (source : Text) {m n : Nat} (h : m ≤ n) :
    (ofSource source).lineOf n = (ofSource source).lineOf m +
      ((source.utf8.take n).drop m).count '\n'.toUInt8 := by
  have hfront : (source.utf8.take n).take m = source.utf8.take m := by
    rw [List.take_take, Nat.min_eq_left h]
  rw [lineOf_ofSource, lineOf_ofSource, ← hfront, ← List.count_append, List.take_append_drop]

theorem lineOf_mono (source : Text) {m n : Nat} (h : m ≤ n) :
    (ofSource source).lineOf m ≤ (ofSource source).lineOf n := by
  rw [lineOf_add source h]
  exact Nat.le_add_right ..

theorem lineOf_lt_iff (source : Text) {m n : Nat} (h : m ≤ n) :
    (ofSource source).lineOf m < (ofSource source).lineOf n ↔
      '\n'.toUInt8 ∈ (source.utf8.take n).drop m := by
  rw [lineOf_add source h, Nat.lt_add_right_iff_pos, List.count_pos_iff]

end LineIndex
end GrammarAtlas
