import GrammarAtlas.Json.Reader
import GrammarAtlas.Json.Writer
import Mathlib.Tactic.SplitIfs

/-!
# Reading back what is written

A value is written without blanks, and what follows it is nothing, a comma or a closing
bracket.  In front of these a reader takes off the value and no more (`ReadsBack`).  That is
all that lists and objects need to know of their parts, so each type has one lemma, and the
lemmas are put together as the types are.

Only numbers need to know what follows them, since they have no end of their own.  A string
ends at its quote, and what stands in it is read back character by character, whichever way
it was written (`stringTail_writeChar`).

The readers of lists and objects count down from the length of the text.  An element takes a
comma at least, so this is enough (`length_le_length_flatMap`).
-/

namespace GrammarAtlas
namespace Json

variable {α β : Type} {c : Char} {t u s rest w : Text} {n : Nat}

/-- What may follow a value that has been written. -/
def MayFollow (rest : Text) : Prop := ∀ c ∈ rest.head?, c = ',' ∨ c = ']' ∨ c = '\x7d'

/-- A value starts here: there is no blank, and no end of a list. -/
def StartsValue (t : Text) : Prop := ∃ c u, t = c :: u ∧ isBlank c = false ∧ c ≠ ']'

/-- **A value is read back** from the text that it is written as. -/
structure ReadsBack (reader : Reader α) (x : α) (written : Text) : Prop where
  starts : StartsValue written
  read : ∀ rest, MayFollow rest → reader (written ++ rest) = .ok (x, rest)

theorem mayFollow_nil : MayFollow [] := nofun

theorem mayFollow_cons (h : c = ',' ∨ c = ']' ∨ c = '\x7d') : MayFollow (c :: t) := by
  intro d hd
  obtain rfl := Option.some.inj hd
  exact h

theorem skipBlanks_cons (h : isBlank c = false) : skipBlanks (c :: t) = c :: t :=
  List.dropWhile_cons_of_neg (Bool.eq_false_iff.mp h)

/-! ## Strings -/

theorem hexValue?_digitChar : ∀ n < 16, hexValue? (Nat.digitChar n) = some n := by
  decide

/-- The digits of an escape tell the character. -/
theorem unicodeEscape_hexDigits (hc : c.toNat < 32) (u : Text) :
    unicodeEscape ('0' :: '0' :: Nat.digitChar (c.toNat / 16) :: Nat.digitChar (c.toNat % 16) :: u)
      = .ok (c, 4) := by
  have hzero : hexValue? '0' = some 0 := by decide
  have hhigh := hexValue?_digitChar (c.toNat / 16) (by omega)
  have hlow := hexValue?_digitChar (c.toNat % 16) (by omega)
  have hsum : ((0 * 16 + 0) * 16 + c.toNat / 16) * 16 + c.toNat % 16 = c.toNat := by omega
  have hnumber : hexNumber ('0' :: '0' :: Nat.digitChar (c.toNat / 16) ::
      Nat.digitChar (c.toNat % 16) :: u) = .ok c.toNat := by
    simp only [hexNumber, hexNumber?, hzero, hhigh, hlow, hsum]
  have hnotLow : isLowSurrogate c.toNat = false := by
    simp only [isLowSurrogate, Bool.and_eq_false_iff, decide_eq_false_iff_not]
    omega
  have hnotHigh : isHighSurrogate c.toNat = false := by
    simp only [isHighSurrogate, Bool.and_eq_false_iff, decide_eq_false_iff_not]
    omega
  rw [unicodeEscape, hnumber]
  simp only [bind, Except.bind, hnotLow, hnotHigh, Bool.false_eq_true, if_false, Char.ofNat_toNat]
  rfl

theorem escape_hexDigits (hc : c.toNat < 32) (u : Text) :
    escape ('u' :: '0' :: '0' :: Nat.digitChar (c.toNat / 16) ::
      Nat.digitChar (c.toNat % 16) :: u) = .ok (c, 5) := by
  have hshort : shortEscape? 'u' = none := by decide
  rw [escape, hshort]
  simp only [if_true, unicodeEscape_hexDigits hc]
  rfl

/-- Behind an escape the string goes on. -/
theorem stringTail_escape {d : Char} (hescape : escape t = .ok (d, n))
    (h : stringTail (t.drop n) = .ok (s, rest)) : stringTail ('\\' :: t) = .ok (d :: s, rest) := by
  rw [stringTail, if_neg (by decide), if_pos rfl, hescape]
  simp only [bind, Except.bind, h]
  rfl

/-- A character that stands for itself. -/
theorem stringTail_plain (hquote : c ≠ '"') (hslash : c ≠ '\\') (hcontrol : ¬ c.toNat < 32)
    (h : stringTail t = .ok (s, rest)) : stringTail (c :: t) = .ok (c :: s, rest) := by
  rw [stringTail, if_neg hquote, if_neg hslash, if_neg hcontrol, h]
  rfl

/-- **A character of a string is read back.** -/
theorem stringTail_writeChar (c : Char) (h : stringTail t = .ok (s, rest)) :
    stringTail (writeChar c ++ t) = .ok (c :: s, rest) := by
  have hshort (e : Char) (he : shortEscape? e = some c) :
      stringTail ('\\' :: e :: t) = .ok (c :: s, rest) := by
    have hescape : escape (e :: t) = .ok (c, 1) := by
      simp only [escape, he]
    exact stringTail_escape hescape h
  rw [writeChar]
  split_ifs with hquote hslash hbackspace hfeed hline hreturn htab hcontrol
  · exact hshort '"' (congrArg some hquote.symm)
  · exact hshort '\\' (congrArg some hslash.symm)
  · exact hshort 'b' (congrArg some hbackspace.symm)
  · exact hshort 'f' (congrArg some hfeed.symm)
  · exact hshort 'n' (congrArg some hline.symm)
  · exact hshort 'r' (congrArg some hreturn.symm)
  · exact hshort 't' (congrArg some htab.symm)
  · exact stringTail_escape (n := 5) (escape_hexDigits hcontrol t) h
  · exact stringTail_plain hquote hslash hcontrol h

theorem stringTail_flatMap (t rest : Text) :
    stringTail (t.flatMap writeChar ++ '"' :: rest) = .ok (t, rest) := by
  induction t with
  | nil =>
    rw [List.flatMap_nil, List.nil_append, stringTail]
    exact if_pos rfl
  | cons c t ih =>
    rw [List.flatMap_cons, List.append_assoc]
    exact stringTail_writeChar c ih

theorem readsBack_string (t : Text) : ReadsBack string t (writeString t) where
  starts := ⟨'"', _, rfl, rfl, by decide⟩
  read := by
    intro rest _
    have htext : writeString t ++ rest = '"' :: (t.flatMap writeChar ++ '"' :: rest) := by
      simp [writeString]
    rw [htext, string, skipBlanks_cons rfl]
    exact (if_pos rfl).trans (stringTail_flatMap t rest)

/-! ## Numbers and truth values -/

/-- Behind a number that is written no digit follows, and no point and no exponent. -/
theorem numberTail_of_mayFollow (h : MayFollow rest) (n : Nat) :
    numberTail false n rest = .ok (.natural n, rest) := by
  cases rest with
  | nil => rfl
  | cons c t => rcases h c rfl with rfl | rfl | rfl <;> rfl

theorem isDigit_digitChar {d : Nat} (hd : d < 10) : (Nat.digitChar d).isDigit = true := by
  rw [Nat.isDigit_digitChar]
  exact decide_eq_true hd

theorem digitValue_digitChar {d : Nat} (hd : d < 10) : digitValue (Nat.digitChar d) = d :=
  Nat.toNat_digitChar_sub_48_of_lt_ten hd

/-- One more digit. -/
theorem numberTail_digitChar {d : Nat} (hd : d < 10) (hfits : n * 10 + d < wordLimit) (u : Text) :
    numberTail false n (Nat.digitChar d :: u) = numberTail false (n * 10 + d) u := by
  have hword : fits n d = true := decide_eq_true hfits
  rw [numberTail, if_pos (isDigit_digitChar hd), digitValue_digitChar hd, if_pos hword]

/-- **The digits of a number are read one after the other.** -/
theorem number_decimal {n : Nat} (hpos : 0 < n) (hword : n < wordLimit) (u : Text) :
    number false (Text.decimal n ++ u) = numberTail false n u := by
  by_cases hlt : n < 10
  · have hzero : ¬ Nat.digitChar n = '0' := by
      rw [Nat.digitChar_eq_zero]
      omega
    rw [Text.decimal, Nat.toDigits_of_lt_base hlt, List.singleton_append, number.eq_def]
    simp only [if_neg hzero, if_pos (isDigit_digitChar hlt), digitValue_digitChar hlt]
  · have hdecimal : Text.decimal n ++ u =
        Text.decimal (n / 10) ++ (Nat.digitChar (n % 10) :: u) := by
      rw [Text.decimal, Nat.toDigits_of_base_le (by decide) (Nat.le_of_not_lt hlt),
        List.append_assoc]
      rfl
    have hsum : n / 10 * 10 + n % 10 = n := by omega
    rw [hdecimal, number_decimal (by omega) (by omega), numberTail_digitChar (by omega) (by omega),
      hsum]
termination_by n
decreasing_by omega

theorem number_decimal_of_mayFollow (hword : n < wordLimit) (h : MayFollow rest) :
    number false (Text.decimal n ++ rest) = .ok (.natural n, rest) := by
  rcases Nat.eq_zero_or_pos n with rfl | hpos
  · cases rest with
    | nil => rfl
    | cons c t => rcases h c rfl with rfl | rfl | rfl <;> rfl
  · rw [number_decimal hpos hword, numberTail_of_mayFollow h]

theorem readsBack_stateId (hn : n < stateLimit) : ReadsBack stateId n (Text.decimal n) := by
  have hword : n < wordLimit := Nat.lt_trans hn (by decide)
  obtain ⟨c, u, htext⟩ := List.exists_cons_of_ne_nil (Nat.toDigits_ne_nil (n := n) (b := 10))
  have hdigit : c.isDigit = true := by
    refine Nat.isDigit_of_mem_toDigits (b := 10) (n := n) (by decide) (by decide) ?_
    rw [htext]
    exact List.mem_cons_self
  have hne {d : Char} (hd : d.isDigit = false) : c ≠ d := by
    rintro rfl
    exact Bool.false_ne_true (hd.symm.trans hdigit)
  have hblank : isBlank c = false := by
    simp [isBlank, hne (d := ' ') rfl, hne (d := '\n') rfl, hne (d := '\t') rfl,
      hne (d := '\r') rfl]
  refine ⟨⟨c, u, htext, hblank, hne rfl⟩, fun rest hrest => ?_⟩
  have hnumber := number_decimal_of_mayFollow hword hrest
  rw [Text.decimal, htext, List.cons_append] at hnumber ⊢
  rw [stateId, skipBlanks_cons hblank]
  simp only [if_neg (hne (d := '-') rfl), if_pos hdigit, hnumber]
  exact if_pos hn

theorem readsBack_boolean (b : Bool) : ReadsBack boolean b (writeBool b) := by
  cases b with
  | true => exact ⟨⟨'t', _, rfl, rfl, by decide⟩, fun _ _ => rfl⟩
  | false => exact ⟨⟨'f', _, rfl, rfl, by decide⟩, fun _ _ => rfl⟩

/-! ## Lists -/

theorem join_cons (t : Text) (ts : List Text) :
    Text.join [','] (t :: ts) = t ++ ts.flatMap (',' :: ·) := by
  induction ts generalizing t with
  | nil => rw [Text.join_singleton, List.flatMap_nil, List.append_nil]
  | cons u ts ih =>
    rw [Text.join_cons_cons, ih, List.flatMap_cons, List.append_assoc]
    rfl

theorem length_le_length_flatMap (ts : List Text) :
    ts.length ≤ (ts.flatMap (',' :: ·)).length := by
  induction ts with
  | nil => exact Nat.le_refl 0
  | cons t ts ih =>
    rw [List.flatMap_cons, List.length_append, List.length_cons, List.length_cons]
    omega

/-- What follows an element may follow a value: a comma, or the end of the list. -/
theorem mayFollow_flatMap (ts : List Text) (hc : c = ',' ∨ c = ']' ∨ c = '\x7d') :
    MayFollow (ts.flatMap (',' :: ·) ++ c :: rest) := by
  cases ts with
  | nil => exact mayFollow_cons hc
  | cons t ts => exact mayFollow_cons (.inl rfl)

theorem nextElement_first (h : StartsValue w) : nextElement true (w ++ t) = .ok (true, w ++ t) := by
  obtain ⟨c, u, rfl, hblank, hclosing⟩ := h
  rw [List.cons_append, nextElement, skipBlanks_cons hblank]
  exact (if_neg hclosing).trans (if_pos rfl)

theorem nextElement_comma (h : StartsValue w) :
    nextElement false (',' :: (w ++ t)) = .ok (true, w ++ t) := by
  obtain ⟨c, u, rfl, hblank, hclosing⟩ := h
  rw [List.cons_append, nextElement, skipBlanks_cons rfl]
  simp only [skipBlanks_cons hblank, if_neg hclosing]
  rfl

variable {element : Reader α} {write : α → Text} {x : α} {xs : List α} {bound : Nat}

/-- An element is read, and then those behind it. -/
theorem elements_succ {first : Bool} {xs' : List α} {t' : Text}
    (hnext : nextElement first t = .ok (true, w ++ t')) (h : ReadsBack element x w)
    (hfollow : MayFollow t') (hmore : elements element bound false t' = .ok (xs', rest)) :
    elements element (bound + 1) first t = .ok (x :: xs', rest) := by
  rw [elements, hnext]
  simp only [bind, Except.bind, if_true, h.read t' hfollow, hmore]
  rfl

/-- The elements behind the first are read back, each with its comma. -/
theorem elements_flatMap (h : ∀ x ∈ xs, ReadsBack element x (write x))
    (hbound : xs.length < bound) (rest : Text) :
    elements element bound false ((xs.map write).flatMap (',' :: ·) ++ ']' :: rest) =
      .ok (xs, rest) := by
  obtain ⟨bound, rfl⟩ := Nat.exists_eq_add_of_lt (Nat.zero_lt_of_lt hbound)
  rw [Nat.zero_add] at hbound ⊢
  induction xs generalizing bound with
  | nil => rfl
  | cons x xs ih =>
    obtain ⟨hx, hxs⟩ := List.forall_mem_cons.mp h
    rw [List.length_cons, Nat.add_lt_add_iff_right] at hbound
    obtain ⟨bound, rfl⟩ := Nat.exists_eq_add_of_lt (Nat.zero_lt_of_lt hbound)
    rw [Nat.zero_add] at hbound ⊢
    rw [List.map_cons, List.flatMap_cons, List.append_assoc, List.cons_append]
    exact elements_succ (nextElement_comma hx.starts) hx
      (mayFollow_flatMap _ (.inr (.inl rfl))) (ih hxs bound hbound)

/-- **A list is read back** if its elements are. -/
theorem readsBack_list (h : ∀ x ∈ xs, ReadsBack element x (write x)) :
    ReadsBack (list element) xs (writeList (xs.map write)) where
  starts := ⟨'[', _, rfl, rfl, by decide⟩
  read := by
    intro rest _
    have htext : writeList (xs.map write) ++ rest =
        '[' :: (Text.join [','] (xs.map write) ++ ']' :: rest) := by
      simp [writeList]
    rw [htext, list, skipBlanks_cons rfl]
    refine (if_pos rfl).trans ?_
    cases xs with
    | nil => rfl
    | cons x xs =>
      obtain ⟨hx, hxs⟩ := List.forall_mem_cons.mp h
      have hlength := length_le_length_flatMap (xs.map write)
      rw [List.length_map] at hlength
      rw [List.map_cons, join_cons, List.append_assoc]
      refine elements_succ (nextElement_first hx.starts) hx
        (mayFollow_flatMap _ (.inr (.inl rfl))) (elements_flatMap hxs ?_ rest)
      rw [List.length_append, List.length_append, List.length_cons]
      omega

/-! ## Objects -/

/-- A member of an object as it is written. -/
def writeMember (m : Text × Text) : Text := writeString m.1 ++ ':' :: m.2

/-- **The members fill the fields of a record**, from one state of it to another.  `given` are
the fields that were given before. -/
inductive Fills (fields : List (Field α)) : List Text → α → List (Text × Text) → α → Prop
  | done {given : List Text} {r : α} : Fills fields given r [] r
  | member {given : List Text} {r r' r'' : α} {name written : Text} {field : Field α}
      {ms : List (Text × Text)} : fields.find? (·.name = name) = some field → name ∉ given →
      ReadsBack (field.read r) r' written → Fills fields (name :: given) r' ms r'' →
      Fills fields given r ((name, written) :: ms) r''

theorem Field.readsBack_of {value : Reader β} {set : α → β → α} {y : β} (name : Text)
    (h : ReadsBack value y w) (r : α) :
    ReadsBack ((Field.of name value set).read r) (set r y) w where
  starts := h.starts
  read := by
    intro rest hrest
    show (do return (← value (w ++ rest)).map (set r) id) = _
    rw [h.read rest hrest]
    rfl

variable {fields : List (Field α)} {given : List Text} {r r' r'' : α} {name : Text}
  {field : Field α} {ms : List (Text × Text)}

theorem writeMember_append (name written t : Text) : writeMember (name, written) ++ t =
    '"' :: (name.flatMap writeChar ++ '"' :: ':' :: (written ++ t)) := by
  simp [writeMember, writeString]

/-- A member is read into its field, and then those behind it. -/
theorem members_succ {first : Bool} {t' : Text}
    (hnext : nextKey first t = .ok (true, name.flatMap writeChar ++ '"' :: ':' :: (w ++ t')))
    (hfield : fields.find? (·.name = name) = some field) (hgiven : name ∉ given)
    (h : ReadsBack (field.read r) r' w) (hfollow : MayFollow t')
    (hmore : members fields bound false (name :: given) r' t' = .ok (r'', rest)) :
    members fields (bound + 1) first given r t = .ok (r'', rest) := by
  have hcolon : colon (':' :: (w ++ t')) = .ok (w ++ t') := rfl
  rw [members, hnext]
  simp only [bind, Except.bind, if_true, stringTail_flatMap, hfield, if_neg hgiven, hcolon,
    h.read t' hfollow, hmore]

/-- The members behind the first are read back, each with its comma. -/
theorem members_flatMap (h : Fills fields given r ms r') (hbound : ms.length < bound)
    (rest : Text) :
    members fields bound false given r ((ms.map writeMember).flatMap (',' :: ·) ++ '\x7d' :: rest) =
      .ok (r', rest) := by
  induction h generalizing bound with
  | done =>
    obtain ⟨bound, rfl⟩ := Nat.exists_eq_add_of_lt hbound
    rfl
  | @member given r r' r'' name written field ms hfield hgiven hread _ ih =>
    obtain ⟨bound, rfl⟩ := Nat.exists_eq_add_of_lt (Nat.zero_lt_of_lt hbound)
    rw [Nat.zero_add] at hbound ⊢
    rw [List.map_cons, List.flatMap_cons, List.append_assoc, List.cons_append, writeMember_append]
    exact members_succ rfl hfield hgiven hread (mayFollow_flatMap _ (.inr (.inr rfl)))
      (ih (Nat.lt_of_succ_lt_succ hbound))

/-- **A record is read back** if its members fill the fields. -/
theorem readsBack_record (name : Text) (h : Fills fields [] r ms r') :
    ReadsBack (record name fields r) r' (writeObject ms) where
  starts := ⟨'\x7b', _, rfl, rfl, by decide⟩
  read := by
    intro rest _
    have htext : writeObject ms ++ rest =
        '\x7b' :: (Text.join [','] (ms.map writeMember) ++ '\x7d' :: rest) := by
      show '\x7b' :: Text.join [','] (ms.map writeMember) ++ ['\x7d'] ++ rest = _
      simp
    rw [htext, record, skipBlanks_cons rfl]
    refine (if_neg (by decide)).trans ((if_pos rfl).trans ?_)
    cases h with
    | done => rfl
    | @member _ _ r₁ _ key written field ms hfield hgiven hread hmore =>
      have hlength := length_le_length_flatMap (ms.map writeMember)
      rw [List.length_map] at hlength
      rw [List.map_cons, join_cons, List.append_assoc, writeMember_append]
      refine members_succ rfl hfield hgiven hread (mayFollow_flatMap _ (.inr (.inr rfl)))
        (members_flatMap hmore ?_ rest)
      simp only [List.length_append, List.length_cons]
      omega

/-- **A whole text is the value that it was written from.** -/
theorem whole_eq_ok {reader : Reader α} (h : ReadsBack reader x w) : whole reader w = .ok x := by
  have hread := h.read [] mayFollow_nil
  rw [List.append_nil] at hread
  rw [whole, hread]
  rfl

end Json
end GrammarAtlas
