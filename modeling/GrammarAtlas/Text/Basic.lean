/-!
# Text and its measure in bytes

A text is a list of characters.  Everything that is *shown* about a text ---
spans of tokens, offsets of rules, ranges of diagnostics --- counts bytes of its
UTF-8 form, so the two views are tied together here: `byteSize` measures a text,
and `dropBytes?`, `takeBytes?` and `slice?` cut it at byte offsets.  A cut that
passes the end of the text or falls inside a character has no result.

Lines end at the line feed and nowhere else.
-/

namespace GrammarAtlas

/-- A text, character by character. -/
abbrev Text := List Char

namespace Text

/-- Two texts are the same when their characters are. -/
instance : LawfulBEq Text := inferInstance

/-- Whether a text comes before another one or is the same, by the code points of
the first characters that differ. -/
def atMost : Text → Text → Bool
  | [], _ => true
  | _ :: _, [] => false
  | c :: s, d :: t => c.toNat < d.toNat || (c = d && atMost s t)

/-- The number of bytes that the text takes in UTF-8. -/
def byteSize : Text → Nat
  | [] => 0
  | c :: t => c.utf8Size + byteSize t

@[simp] theorem byteSize_nil : byteSize [] = 0 := rfl

@[simp] theorem byteSize_cons (c : Char) (t : Text) :
    byteSize (c :: t) = c.utf8Size + byteSize t := rfl

@[simp] theorem byteSize_append (s t : Text) : byteSize (s ++ t) = byteSize s + byteSize t := by
  induction s with
  | nil => simp
  | cons c s ih => simp [ih, Nat.add_assoc]

/-- The bytes of the text in UTF-8. -/
def utf8 (t : Text) : List UInt8 := t.flatMap String.utf8EncodeChar

@[simp] theorem utf8_nil : utf8 [] = [] := rfl

@[simp] theorem utf8_cons (c : Char) (t : Text) :
    utf8 (c :: t) = String.utf8EncodeChar c ++ utf8 t := rfl

@[simp] theorem utf8_append (s t : Text) : utf8 (s ++ t) = utf8 s ++ utf8 t :=
  List.flatMap_append ..

@[simp] theorem length_utf8 (t : Text) : (utf8 t).length = byteSize t := by
  induction t with
  | nil => rfl
  | cons c t ih => simp [ih]

/-- The text without its first `n` bytes. -/
def dropBytes? : Text → Nat → Option Text
  | t, 0 => some t
  | [], _ + 1 => none
  | c :: t, n + 1 => if c.utf8Size ≤ n + 1 then dropBytes? t (n + 1 - c.utf8Size) else none

/-- The first `n` bytes of the text. -/
def takeBytes? : Text → Nat → Option Text
  | _, 0 => some []
  | [], _ + 1 => none
  | c :: t, n + 1 =>
    if c.utf8Size ≤ n + 1 then (takeBytes? t (n + 1 - c.utf8Size)).map (c :: ·) else none

@[simp] theorem dropBytes?_zero (t : Text) : dropBytes? t 0 = some t := by
  cases t <;> rfl

@[simp] theorem takeBytes?_zero (t : Text) : takeBytes? t 0 = some [] := by
  cases t <;> rfl

/-- The text from byte `start` up to byte `stop`. -/
def slice? (t : Text) (start stop : Nat) : Option Text :=
  if start ≤ stop then (dropBytes? t start).bind (takeBytes? · (stop - start)) else none

theorem dropBytes?_append (s t : Text) : dropBytes? (s ++ t) (byteSize s) = some t := by
  induction s with
  | nil => simp
  | cons c s ih =>
    obtain ⟨k, hk⟩ : ∃ k, byteSize (c :: s) = k + 1 :=
      ⟨c.utf8Size - 1 + byteSize s, by have := c.utf8Size_pos; simp; omega⟩
    have hs : k + 1 - c.utf8Size = byteSize s := by rw [← hk]; simp
    have hc : c.utf8Size ≤ k + 1 := by rw [← hk]; simp
    rw [hk]
    simp [dropBytes?, hc, hs, ih]

theorem takeBytes?_append (s t : Text) : takeBytes? (s ++ t) (byteSize s) = some s := by
  induction s with
  | nil => simp
  | cons c s ih =>
    obtain ⟨k, hk⟩ : ∃ k, byteSize (c :: s) = k + 1 :=
      ⟨c.utf8Size - 1 + byteSize s, by have := c.utf8Size_pos; simp; omega⟩
    have hs : k + 1 - c.utf8Size = byteSize s := by rw [← hk]; simp
    have hc : c.utf8Size ≤ k + 1 := by rw [← hk]; simp
    rw [hk]
    simp [takeBytes?, hc, hs, ih]

/-- Dropping bytes makes no text longer. -/
theorem length_dropBytes?_le {t r : Text} {n : Nat} (h : dropBytes? t n = some r) :
    r.length ≤ t.length := by
  fun_induction dropBytes? t n with
  | case1 t => simp_all
  | case2 => cases h
  | case3 c t n hc ih => exact Nat.le_succ_of_le (ih h)
  | case4 => cases h

/-- A text that stands between two others is read back at its byte offsets. -/
theorem slice?_append (s t u : Text) :
    slice? (s ++ t ++ u) (byteSize s) (byteSize s + byteSize t) = some t := by
  rw [slice?, if_pos (Nat.le_add_right _ _), List.append_assoc, dropBytes?_append,
    Nat.add_sub_cancel_left]
  exact takeBytes?_append t u

/-- The number of line feeds in the text. -/
def lineBreaks (t : Text) : Nat := t.count '\n'

@[simp] theorem lineBreaks_append (s t : Text) :
    lineBreaks (s ++ t) = lineBreaks s + lineBreaks t := List.count_append

/-- The digits of a number to base ten. -/
def decimal (n : Nat) : Text := Nat.toDigits 10 n

/-- The texts one after the other, with a separator between neighbours. -/
def join (separator : Text) : List Text → Text
  | [] => []
  | [t] => t
  | t :: ts => t ++ separator ++ join separator ts

@[simp] theorem join_nil (separator : Text) : join separator [] = [] := rfl

@[simp] theorem join_singleton (separator t : Text) : join separator [t] = t := rfl

theorem join_cons_cons (separator t u : Text) (ts : List Text) :
    join separator (t :: u :: ts) = t ++ separator ++ join separator (u :: ts) := rfl

end Text
end GrammarAtlas
