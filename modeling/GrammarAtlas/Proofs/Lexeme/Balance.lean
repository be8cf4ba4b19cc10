import GrammarAtlas.Proofs.Lexeme.Block

/-!
# Balanced blocks

Where a block ends is told here without a scan.  What stands in a block is *balanced*:
literals in either kind of quote marks, braces around something balanced, and bytes that
are neither quote marks nor braces.  A block closes at the brace behind its balanced front,
and the scan finds exactly this brace (`scan_eq_iff`).  If there is no such front, the block
never closes, and the scan takes everything (`scan_eq_unclosed_iff`).  In a text it stops between
two characters either way (`scan_closes_at_balance`).

The scan counts the braces that are open.  With `depth` further braces open, what it passes
over is one balanced stretch after the other, each with its closing brace (`Closes`).  That
is what its recursion keeps, since a balanced stretch may always be put in front
(`Closes.append`).
-/

namespace GrammarAtlas
namespace Block

/-- The quote marks that literals in a block stand between. -/
def IsQuoteMark (b : UInt8) : Prop := b = '\''.toUInt8 ∨ b = '"'.toUInt8

/-- The bytes that mean something outside a literal. -/
def IsMark (b : UInt8) : Prop := IsQuoteMark b ∨ b = '\x7b'.toUInt8 ∨ b = '\x7d'.toUInt8

/-- **The inside of a literal** between two quote marks `q`: no other `q`, except behind a
backslash, which takes the next byte with it. -/
inductive Quoted (q : UInt8) : List UInt8 → Prop
  | nil : Quoted q []
  | byte {b : UInt8} {bs : List UInt8} : b ≠ q → b ≠ '\\'.toUInt8 → Quoted q bs →
      Quoted q (b :: bs)
  | escape {b : UInt8} {bs : List UInt8} : Quoted q bs → Quoted q ('\\'.toUInt8 :: b :: bs)

/-- **Balanced bytes**: every literal in them is complete, and outside literals every brace
has its partner. -/
inductive Balanced : List UInt8 → Prop
  | nil : Balanced []
  | byte {b : UInt8} {bs : List UInt8} : ¬ IsMark b → Balanced bs → Balanced (b :: bs)
  | literal {q : UInt8} {inside bs : List UInt8} : IsQuoteMark q → Quoted q inside →
      Balanced bs → Balanced (q :: (inside ++ q :: bs))
  | braces {inside bs : List UInt8} : Balanced inside → Balanced bs →
      Balanced ('\x7b'.toUInt8 :: (inside ++ '\x7d'.toUInt8 :: bs))

/-- The bytes behind an opening brace have no brace that closes it. -/
def NeverCloses (bs : List UInt8) : Prop :=
  ∀ inside rest, Balanced inside → bs ≠ inside ++ '\x7d'.toUInt8 :: rest

variable {depth : Nat} {q b : UInt8} {bs cs inside r : List UInt8}

theorem Balanced.append (hbs : Balanced bs) (hcs : Balanced cs) : Balanced (bs ++ cs) := by
  induction hbs with
  | nil => exact hcs
  | byte hb _ ih => exact .byte hb ih
  | literal hq hinside _ ih =>
    rw [List.cons_append, List.append_assoc]
    exact .literal hq hinside ih
  | braces hinside _ _ ih =>
    rw [List.cons_append, List.append_assoc]
    exact .braces hinside ih

theorem IsQuoteMark.ne_backslash (hq : IsQuoteMark q) : q ≠ '\\'.toUInt8 := by
  rcases hq with rfl | rfl <;> decide

/-! ## What the scan passes over -/

/-- A literal is passed over with its closing quote mark. -/
theorem scan_quoted (hq : IsQuoteMark q) (h : Quoted q inside) (depth : Nat) (r : List UInt8) :
    scan depth (some q) (inside ++ q :: r) = (scan depth none r).advance (inside.length + 1) := by
  induction h with
  | nil =>
    rw [List.nil_append, scan.eq_def]
    simp only [hq.ne_backslash, if_false, if_true, List.length_nil, Nat.zero_add]
  | @byte b bs hne hslash _ ih =>
    rw [List.cons_append, scan.eq_def]
    simp only [hne, hslash, if_false, ih, advance_advance, List.length_cons]
  | @escape b bs _ ih =>
    rw [List.cons_append, List.cons_append, scan.eq_def]
    simp only [if_true, ih, advance_advance, List.length_cons]

theorem scan_quoteMark (hq : IsQuoteMark q) (depth : Nat) (r : List UInt8) :
    scan depth none (q :: r) = (scan depth (some q) r).advance 1 := by
  rw [scan]
  exact if_pos hq

theorem scan_unmarked (hb : ¬ IsMark b) (depth : Nat) (r : List UInt8) :
    scan depth none (b :: r) = (scan depth none r).advance 1 := by
  obtain ⟨hquote, hbrace⟩ := not_or.mp hb
  obtain ⟨hopen, hclose⟩ := not_or.mp hbrace
  rw [scan, if_neg hopen, if_neg hclose]
  exact if_neg hquote

theorem scan_openingBrace (depth : Nat) (r : List UInt8) :
    scan depth none ('\x7b'.toUInt8 :: r) = (scan (depth + 1) none r).advance 1 := rfl

theorem scan_closingBrace (depth : Nat) (r : List UInt8) :
    scan (depth + 2) none ('\x7d'.toUInt8 :: r) = (scan (depth + 1) none r).advance 1 := rfl

/-- **A balanced front is passed over.** -/
theorem scan_balanced (h : Balanced bs) (depth : Nat) (r : List UInt8) :
    scan (depth + 1) none (bs ++ r) = (scan (depth + 1) none r).advance bs.length := by
  induction h generalizing depth r with
  | nil => rfl
  | @byte b bs hb _ ih =>
    rw [List.cons_append, scan_unmarked hb, ih, advance_advance, List.length_cons]
  | @literal q inside bs hq hinside _ ih =>
    rw [List.cons_append, List.append_assoc, List.cons_append, scan_quoteMark hq,
      scan_quoted hq hinside, ih, advance_advance, advance_advance]
    congr 1
    simp only [List.length_cons, List.length_append]
    omega
  | @braces inside bs _ _ ihInside ih =>
    rw [List.cons_append, List.append_assoc, List.cons_append, scan_openingBrace, ihInside,
      scan_closingBrace, ih, advance_advance, advance_advance, advance_advance]
    congr 1
    simp only [List.length_cons, List.length_append]
    omega

/-! ## What the scan has passed over -/

/-- The bytes through the brace that closes the outermost of `depth + 1` open ones. -/
def Closes : Nat → List UInt8 → Prop
  | 0, bs => ∃ inside, Balanced inside ∧ bs = inside ++ ['\x7d'.toUInt8]
  | depth + 1, bs =>
    ∃ inside more, Balanced inside ∧ bs = inside ++ '\x7d'.toUInt8 :: more ∧ Closes depth more

theorem Closes.append (hbs : Balanced bs) (h : Closes depth cs) : Closes depth (bs ++ cs) := by
  cases depth with
  | zero =>
    obtain ⟨inside, hinside, rfl⟩ := h
    exact ⟨bs ++ inside, hbs.append hinside, (List.append_assoc ..).symm⟩
  | succ depth =>
    obtain ⟨inside, more, hinside, rfl, hmore⟩ := h
    exact ⟨bs ++ inside, more, hbs.append hinside, (List.append_assoc ..).symm, hmore⟩

/-- An opening brace is closed by the first of the closing ones. -/
theorem Closes.openingBrace (h : Closes (depth + 1) cs) :
    Closes depth ('\x7b'.toUInt8 :: cs) := by
  obtain ⟨inside, more, hinside, rfl, hmore⟩ := h
  have happend := hmore.append (.braces hinside .nil)
  rwa [List.cons_append, List.append_assoc] at happend

/-- The bytes through the closing brace, from inside a literal or outside. -/
def ClosesFrom (depth : Nat) : Option UInt8 → List UInt8 → Prop
  | none, bs => Closes depth bs
  | some q, bs => ∃ inside more, Quoted q inside ∧ bs = inside ++ q :: more ∧ Closes depth more

/-- The extent is that of a front of the bytes, which ends with the closing brace. -/
def Reaches (depth : Nat) (quote : Option UInt8) (bs : List UInt8) (e : Extent) : Prop :=
  ∃ taken rest, bs = taken ++ rest ∧ taken.length = e.size ∧ ClosesFrom depth quote taken

/-- What is passed over in front is part of what is taken. -/
theorem Reaches.append {depth' : Nat} {quote quote' : Option UInt8} {e : Extent}
    (h : Reaches depth quote bs e) (front : List UInt8)
    (hfront : ∀ taken, ClosesFrom depth quote taken → ClosesFrom depth' quote' (front ++ taken)) :
    Reaches depth' quote' (front ++ bs) (e.advance front.length) := by
  obtain ⟨taken, rest, rfl, hlength, hcloses⟩ := h
  refine ⟨front ++ taken, rest, (List.append_assoc ..).symm, ?_, hfront taken hcloses⟩
  rw [List.length_append, hlength, advance_size, Nat.add_comm]

/-- **What a scan that comes to an end has passed over.** -/
theorem reaches_of_closed_scan {quote : Option UInt8} (hdepth : depth ≠ 0)
    (hquote : ∀ q ∈ quote, IsQuoteMark q) (h : (scan depth quote bs).closed = true) :
    Reaches (depth - 1) quote bs (scan depth quote bs) := by
  fun_induction scan depth quote bs with
  | case1 => cases h
  | case2 => cases h
  | case3 depth q b bs ih =>
    refine (ih hdepth hquote h).append ['\\'.toUInt8, b] ?_
    rintro _ ⟨inside, more, hinside, rfl, hmore⟩
    exact ⟨_, more, hinside.escape, rfl, hmore⟩
  | case4 depth bs q hslash ih =>
    refine (ih hdepth nofun h).append [q] ?_
    intro taken htaken
    exact ⟨[], taken, .nil, rfl, htaken⟩
  | case5 depth b bs q hslash hne ih =>
    refine (ih hdepth hquote h).append [b] ?_
    rintro _ ⟨inside, more, hinside, rfl, hmore⟩
    exact ⟨_, more, hinside.byte hne hslash, rfl, hmore⟩
  | case6 depth q bs hq ih =>
    have hq' : ∀ q' ∈ some q, IsQuoteMark q' := fun q' hq' => Option.some.inj hq' ▸ hq
    refine (ih hdepth hq' h).append [q] ?_
    rintro _ ⟨inside, more, hinside, rfl, hmore⟩
    have hliteral := hmore.append (.literal hq hinside .nil)
    rwa [List.cons_append, List.append_assoc] at hliteral
  | case7 depth bs hquoteMark ih =>
    refine (ih (Nat.succ_ne_zero depth) nofun h).append ['\x7b'.toUInt8] ?_
    intro taken htaken
    refine Closes.openingBrace ?_
    rwa [Nat.sub_add_cancel (Nat.pos_of_ne_zero hdepth)]
  | case8 depth bs hlast _ _ =>
    refine ⟨['\x7d'.toUInt8], bs, rfl, rfl, ?_⟩
    rw [hlast]
    exact ⟨[], .nil, rfl⟩
  | case9 depth bs hmore _ _ ih =>
    obtain ⟨n, rfl⟩ : ∃ n, depth = n + 2 := ⟨depth - 2, by omega⟩
    refine (ih (Nat.succ_ne_zero n) nofun h).append ['\x7d'.toUInt8] ?_
    intro taken htaken
    exact ⟨[], taken, .nil, rfl, htaken⟩
  | case10 depth b bs hquoteMark hopen hclose ih =>
    refine (ih hdepth nofun h).append [b] ?_
    intro taken htaken
    exact htaken.append (.byte (not_or.mpr ⟨hquoteMark, not_or.mpr ⟨hopen, hclose⟩⟩) .nil)

/-! ## Where a block ends -/

/-- **The scan ends behind the brace that closes the block**, and nowhere else. -/
theorem scan_eq_iff {n : Nat} : scan 1 none bs = ⟨n, true⟩ ↔
    ∃ inside rest, Balanced inside ∧ bs = inside ++ '\x7d'.toUInt8 :: rest ∧
      n = inside.length + 1 := by
  constructor
  · intro h
    have hclosed : (scan 1 none bs).closed = true := by rw [h]
    have hreaches : Reaches 0 none bs (scan 1 none bs) :=
      reaches_of_closed_scan Nat.one_ne_zero nofun hclosed
    obtain ⟨_, rest, rfl, hlength, inside, hinside, rfl⟩ := hreaches
    rw [h, List.length_append] at hlength
    exact ⟨inside, rest, hinside, List.append_assoc .., hlength.symm⟩
  · rintro ⟨inside, rest, hinside, rfl, rfl⟩
    rw [scan_balanced hinside 0]
    exact congrArg (Extent.mk · true) (Nat.add_comm ..)

/-- **The scan of a block that never closes** does not find a brace, and only then. -/
theorem closed_scan_eq_false_iff : (scan 1 none bs).closed = false ↔ NeverCloses bs := by
  constructor
  · rintro h inside rest hinside rfl
    have hscan := scan_eq_iff.mpr ⟨inside, rest, hinside, rfl, rfl⟩
    rw [hscan] at h
    cases h
  · intro h
    refine Bool.eq_false_iff.mpr fun hclosed => ?_
    obtain ⟨inside, rest, hinside, hbs, -⟩ :=
      scan_eq_iff.mp (congrArg (Extent.mk (scan 1 none bs).size) hclosed)
    exact h inside rest hinside hbs

/-- The block closes behind the first `n` bytes: the last of them is a closing brace, and those
in front of it are balanced. -/
def ClosesAt (bs : List UInt8) (n : Nat) : Prop :=
  n ≤ bs.length ∧ ∃ inside, Balanced inside ∧ bs.take n = inside ++ ['\x7d'.toUInt8]

theorem closesAt_iff {n : Nat} : ClosesAt bs n ↔
    ∃ inside rest, Balanced inside ∧ bs = inside ++ '\x7d'.toUInt8 :: rest ∧
      n = inside.length + 1 := by
  constructor
  · rintro ⟨hn, inside, hinside, htake⟩
    refine ⟨inside, bs.drop n, hinside, ?_, ?_⟩
    · calc bs
        _ = bs.take n ++ bs.drop n := (List.take_append_drop n bs).symm
        _ = inside ++ '\x7d'.toUInt8 :: bs.drop n := by rw [htake, List.append_assoc]; rfl
    · have hlength := congrArg List.length htake
      simpa [Nat.min_eq_left hn] using hlength
  · rintro ⟨inside, rest, hinside, rfl, rfl⟩
    refine ⟨by simp, inside, hinside, ?_⟩
    rw [List.take_length_add_append]
    rfl

theorem neverCloses_iff : NeverCloses bs ↔ ∀ n, ¬ ClosesAt bs n := by
  constructor
  · intro h n hn
    obtain ⟨inside, rest, hinside, hbs, -⟩ := closesAt_iff.mp hn
    exact h inside rest hinside hbs
  · intro h inside rest hinside hbs
    exact h _ (closesAt_iff.mpr ⟨inside, rest, hinside, hbs, rfl⟩)

theorem size_scan_of_not_closed {quote : Option UInt8} (h : (scan depth quote bs).closed = false) :
    (scan depth quote bs).size = bs.length := by
  fun_induction scan depth quote bs <;> simp_all

/-- **The scan of a block that never closes** takes everything. -/
theorem scan_eq_unclosed_iff : scan 1 none bs = ⟨bs.length, false⟩ ↔ NeverCloses bs := by
  rw [← closed_scan_eq_false_iff]
  refine ⟨fun h => by rw [h], fun h => ?_⟩
  rw [← size_scan_of_not_closed h, ← h]

/-- The scan does not stop inside a character. -/
theorem exists_size_scan_eq (t : Text) :
    ∃ front back, t = front ++ back ∧ (scan 1 none t.utf8).size = Text.byteSize front := by
  have hscan : scan 1 none t.utf8 = (cut 0 none t).extent :=
    scan_utf8 0 (by trivial : IsQuote none) t
  exact ⟨(cut 0 none t).taken, (cut 0 none t).rest, (taken_append_rest 0 none t).symm,
    congrArg Extent.size hscan⟩

/-- **A block closes at the brace that balances its opening one.**  The scan ends there, and
there is no other such place; if there is none, the scan takes everything.  Either way it stops
between two characters. -/
theorem scan_closes_at_balance (t : Text) :
    (∀ n, scan 1 none t.utf8 = ⟨n, true⟩ ↔ ClosesAt t.utf8 n) ∧
      (∀ m n, ClosesAt t.utf8 m → ClosesAt t.utf8 n → m = n) ∧
      (scan 1 none t.utf8 = ⟨Text.byteSize t, false⟩ ↔ ∀ n, ¬ ClosesAt t.utf8 n) ∧
      ∃ front back, t = front ++ back ∧ (scan 1 none t.utf8).size = Text.byteSize front := by
  have hcloses (n : Nat) : scan 1 none t.utf8 = ⟨n, true⟩ ↔ ClosesAt t.utf8 n :=
    scan_eq_iff.trans closesAt_iff.symm
  refine ⟨hcloses, fun m n hm hn => ?_, ?_, exists_size_scan_eq t⟩
  · have hsame := ((hcloses m).mpr hm).symm.trans ((hcloses n).mpr hn)
    exact congrArg Extent.size hsame
  · rw [← Text.length_utf8, scan_eq_unclosed_iff, neverCloses_iff]

/-- Neither the brace in the literal nor the one behind it closes the block. -/
example : scan 1 none (Text.utf8 "'\\'\x7d' \x7b\\é\x7d \x7d;".toList) = ⟨13, true⟩ := by
  decide +kernel

end Block
end GrammarAtlas
