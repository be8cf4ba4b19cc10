import GrammarAtlas.Text.Basic

/-!
# The bytes of characters

A character of one byte is known by its byte, which is below 128.  All bytes of a
longer character are at least 128.  So a search for characters of one byte may go
through the bytes of a text, even from inside a character, and finds them where
they are.
-/

namespace GrammarAtlas
namespace Text

variable {c d : Char} {b : UInt8}

/-- Characters of one byte are those of ASCII. -/
theorem toNat_lt_of_utf8Size (hc : c.utf8Size = 1) : c.toNat < 128 := by
  have hle : c.val.toNat ≤ 127 := UInt32.le_iff_toNat_le.mp (Char.utf8Size_eq_one_iff.mp hc)
  exact Nat.lt_succ_of_le hle

theorem utf8EncodeChar_of_utf8Size (hc : c.utf8Size = 1) :
    String.utf8EncodeChar c = [c.toUInt8] :=
  String.utf8EncodeChar_eq_singleton hc

theorem toNat_toUInt8 (hc : c.utf8Size = 1) : c.toUInt8.toNat = c.toNat := by
  have hlt := toNat_lt_of_utf8Size hc
  show c.toNat % 256 = c.toNat
  omega

/-- Characters of one byte are known by their byte. -/
theorem toUInt8_eq_iff (hc : c.utf8Size = 1) (hd : d.utf8Size = 1) :
    c.toUInt8 = d.toUInt8 ↔ c = d := by
  refine ⟨fun h => Char.toNat_inj.mp ?_, fun h => by rw [h]⟩
  rw [← toNat_toUInt8 hc, ← toNat_toUInt8 hd, h]

/-- Every byte of a longer character is at least 128. -/
theorem le_toNat_of_mem_utf8EncodeChar (hc : c.utf8Size ≠ 1)
    (hb : b ∈ String.utf8EncodeChar c) : 128 ≤ b.toNat := by
  have hor (x : UInt8) {y : UInt8} (hy : 128 ≤ y.toNat) : 128 ≤ (x ||| y).toNat := by
    rw [UInt8.toNat_or]
    exact Nat.le_trans hy Nat.right_le_or
  rcases c.utf8Size_eq with h | h | h | h
  · exact absurd h hc
  · rw [String.utf8EncodeChar_eq_cons_cons h] at hb
    rcases hb with _ | ⟨_, _ | ⟨_, ⟨⟩⟩⟩ <;> exact hor _ (by decide)
  · rw [String.utf8EncodeChar_eq_cons_cons_cons h] at hb
    rcases hb with _ | ⟨_, _ | ⟨_, _ | ⟨_, ⟨⟩⟩⟩⟩ <;> exact hor _ (by decide)
  · rw [String.utf8EncodeChar_eq_cons_cons_cons_cons h] at hb
    rcases hb with _ | ⟨_, _ | ⟨_, _ | ⟨_, _ | ⟨_, ⟨⟩⟩⟩⟩⟩ <;> exact hor _ (by decide)

/-- A byte of a longer character is not the byte of a character of one byte. -/
theorem ne_toUInt8_of_le (hd : d.utf8Size = 1) (hb : 128 ≤ b.toNat) : b ≠ d.toUInt8 := by
  intro h
  have hlt := toNat_lt_of_utf8Size hd
  rw [h, toNat_toUInt8 hd] at hb
  omega

end Text
end GrammarAtlas
