import GrammarAtlas.Lexeme.Delimited
import GrammarAtlas.Proofs.Text.Utf8

/-!
# Blocks, character by character

The scan of a block steps from byte to byte, and behind a backslash it may come
to stand inside a character.  The bytes that it looks for are characters of their
own, and every byte of a longer character is at least 128, so it passes over the
rest of such a character as over anything else.  Hence the scan finds the same end
as `Block.cut`, which steps from character to character (`scan_utf8`), and never
cuts a character in two.
-/

namespace GrammarAtlas
namespace Block

/-- Cuts behind the brace that balances the opening one.  `depth` counts the
further braces open at this point, `quote` is the quote mark that is open. -/
def cut (depth : Nat) (quote : Option Char) : Text → Cut
  | [] => ⟨false, [], []⟩
  | c :: t =>
    match quote with
    | some q =>
      if c = '\\' then
        match t with
        | [] => ⟨false, [c], []⟩
        | d :: r => ((cut depth (some q) r).cons d).cons c
      else if c = q then (cut depth none t).cons c
      else (cut depth (some q) t).cons c
    | none =>
      if c = '\'' ∨ c = '"' then (cut depth (some c) t).cons c
      else if c = '\x7b' then (cut (depth + 1) none t).cons c
      else if c = '\x7d' then
        if depth = 0 then ⟨true, [c], t⟩ else (cut (depth - 1) none t).cons c
      else (cut depth none t).cons c

theorem taken_append_rest (depth : Nat) (quote : Option Char) (t : Text) :
    (cut depth quote t).taken ++ (cut depth quote t).rest = t := by
  fun_induction cut depth quote t <;> simp_all

/-! ## The scan goes by characters -/

/-- What is open where the scan stands: nothing, or a literal in either kind of
quote marks. -/
def IsQuote : Option Char → Prop
  | none => True
  | some q => q = '\'' ∨ q = '"'

variable {c : Char} {bs r : List UInt8} {depth : Nat} {quote : Option Char}

@[simp] theorem advance_size (n : Nat) (e : Extent) : (e.advance n).size = e.size + n := rfl

@[simp] theorem advance_closed (n : Nat) (e : Extent) : (e.advance n).closed = e.closed := rfl

@[simp] theorem advance_zero (e : Extent) : e.advance 0 = e := rfl

@[simp] theorem advance_advance (m n : Nat) (e : Extent) :
    (e.advance m).advance n = e.advance (m + n) := by
  simp [Extent.advance, Nat.add_assoc]

/-- Bytes of longer characters are passed over, inside a literal or outside. -/
theorem scan_wide (hquote : IsQuote quote) (hbs : ∀ b ∈ bs, 128 ≤ b.toNat) :
    scan depth (quote.map Char.toUInt8) (bs ++ r) =
      (scan depth (quote.map Char.toUInt8) r).advance bs.length := by
  induction bs with
  | nil => rfl
  | cons b bs ih =>
    have hne {d : Char} (hd : d.utf8Size = 1) : b ≠ d.toUInt8 :=
      Text.ne_toUInt8_of_le hd (hbs b (List.mem_cons_self ..))
    have ih := ih fun b' hb' => hbs b' (List.mem_cons_of_mem _ hb')
    rw [List.cons_append, List.length_cons, ← advance_advance, ← ih]
    cases quote with
    | none =>
      rw [Option.map_none, scan]
      simp only [hne (d := '\'') rfl, hne (d := '"') rfl, hne (d := '\x7b') rfl,
        hne (d := '\x7d') rfl, or_false, if_false]
    | some q =>
      have hq : b ≠ q.toUInt8 := hne (by rcases hquote with rfl | rfl <;> rfl)
      rw [Option.map_some, scan.eq_def]
      simp only [hne (d := '\\') rfl, hq, if_false]

/-- Characters that mean nothing to the scan. -/
def IsPlain (c : Char) : Option Char → Prop
  | none => c ≠ '\'' ∧ c ≠ '"' ∧ c ≠ '\x7b' ∧ c ≠ '\x7d'
  | some q => c ≠ '\\' ∧ c ≠ q

/-- A plain character is passed over, whatever its bytes are. -/
theorem scan_plain (hquote : IsQuote quote) (hc : IsPlain c quote) (t : Text) :
    scan depth (quote.map Char.toUInt8) (Text.utf8 (c :: t)) =
      (scan depth (quote.map Char.toUInt8) t.utf8).advance c.utf8Size := by
  by_cases h : c.utf8Size = 1
  · have hne {d : Char} (hd : d.utf8Size = 1) (hcd : c ≠ d) : c.toUInt8 ≠ d.toUInt8 := fun he =>
      hcd ((Text.toUInt8_eq_iff h hd).mp he)
    rw [Text.utf8_cons, Text.utf8EncodeChar_of_utf8Size h, List.singleton_append, h]
    cases quote with
    | none =>
      obtain ⟨h1, h2, h3, h4⟩ := hc
      rw [Option.map_none, scan]
      simp only [hne rfl h1, hne rfl h2, hne rfl h3, hne rfl h4, or_false, if_false]
    | some q =>
      have hq : q.utf8Size = 1 := by rcases hquote with rfl | rfl <;> rfl
      rw [Option.map_some, scan.eq_def]
      simp only [hne rfl hc.1, hne hq hc.2, if_false]
  · rw [Text.utf8_cons, scan_wide hquote fun b => Text.le_toNat_of_mem_utf8EncodeChar h,
      String.length_utf8EncodeChar]

/-- In a literal the scan skips one byte behind a backslash and goes on with the
character after next, even if the byte was the first of several. -/
theorem scan_escape {q : Char} (hquote : IsQuote (some q)) (c : Char) (t : Text) :
    scan depth (some q.toUInt8) (Text.utf8 ('\\' :: c :: t)) =
      ((scan depth (some q.toUInt8) t.utf8).advance c.utf8Size).advance 1 := by
  obtain ⟨b, bs, hbs⟩ := List.exists_cons_of_ne_nil (String.utf8EncodeChar_ne_nil (c := c))
  have hlength : bs.length + 1 = c.utf8Size := by
    rw [← String.length_utf8EncodeChar, hbs, List.length_cons]
  have hwide : ∀ b' ∈ bs, 128 ≤ b'.toNat := by
    intro b' hb'
    refine Text.le_toNat_of_mem_utf8EncodeChar (fun h => ?_) (hbs ▸ List.mem_cons_of_mem b hb')
    rw [List.length_eq_zero_iff.mp (by omega : bs.length = 0)] at hb'
    exact absurd hb' List.not_mem_nil
  have hskip : scan depth (some q.toUInt8) (Text.utf8 ('\\' :: c :: t)) =
      (scan depth (some q.toUInt8) (bs ++ t.utf8)).advance 2 := by
    rw [Text.utf8_cons, Text.utf8_cons, hbs, Text.utf8EncodeChar_of_utf8Size (by rfl),
      List.singleton_append, List.cons_append, scan.eq_def]
    simp only [if_true]
  have hpass : scan depth (some q.toUInt8) (bs ++ t.utf8) =
      (scan depth (some q.toUInt8) t.utf8).advance bs.length := scan_wide hquote hwide
  rw [hskip, hpass, advance_advance, advance_advance, ← hlength]

end Block

/-- The extent of the piece that a cut takes. -/
def Cut.extent (k : Cut) : Block.Extent := ⟨Text.byteSize k.taken, k.closed⟩

@[simp] theorem Cut.extent_cons (c : Char) (k : Cut) :
    (k.cons c).extent = k.extent.advance c.utf8Size := by
  simp [Cut.extent, Block.Extent.advance, Nat.add_comm]

namespace Block

/-- **The scan finds the end that stepping by characters finds.** -/
theorem scan_utf8 (depth : Nat) {quote : Option Char} (hquote : IsQuote quote) (t : Text) :
    scan (depth + 1) (quote.map Char.toUInt8) t.utf8 = (cut depth quote t).extent := by
  fun_induction cut depth quote t with
  | case1 => rw [Text.utf8_nil, scan]; rfl
  | case2 depth q => rfl
  | case3 depth q c t ih =>
    rw [Option.map_some, scan_escape hquote, ← Option.map_some, ih hquote, Cut.extent_cons,
      Cut.extent_cons]
    rfl
  | case4 depth t q hq ih =>
    have hclose : scan (depth + 1) (some q.toUInt8) (Text.utf8 (q :: t)) =
        (scan (depth + 1) none (Text.utf8 t)).advance q.utf8Size := by
      rcases hquote with rfl | rfl <;> (rw [scan.eq_def]; rfl)
    rw [Option.map_some, hclose, Cut.extent_cons, ← ih trivial, Option.map_none]
  | case5 depth c t q hc hq ih =>
    rw [scan_plain hquote ⟨hc, hq⟩, ih hquote, Cut.extent_cons]
  | case6 depth c t hc ih =>
    have hopen : scan (depth + 1) none (Text.utf8 (c :: t)) =
        (scan (depth + 1) (some c.toUInt8) (Text.utf8 t)).advance c.utf8Size := by
      rcases hc with rfl | rfl <;> rfl
    rw [Option.map_none, hopen, Cut.extent_cons, ← ih hc, Option.map_some]
  | case7 depth t hc ih =>
    have hopen : scan (depth + 1) none (Text.utf8 ('\x7b' :: t)) =
        (scan (depth + 1 + 1) none (Text.utf8 t)).advance 1 := rfl
    rw [Option.map_none, hopen, Cut.extent_cons, ← ih trivial]
    rfl
  | case8 t h1 h2 => rfl
  | case9 depth t hd h1 h2 ih =>
    obtain ⟨n, rfl⟩ := Nat.exists_eq_succ_of_ne_zero hd
    have hclose : scan (n + 1 + 1) none (Text.utf8 ('\x7d' :: t)) =
        (scan (n + 1) none (Text.utf8 t)).advance 1 := rfl
    rw [Option.map_none, hclose, Cut.extent_cons]
    exact congrArg (Extent.advance 1) (ih trivial)
  | case10 depth c t h1 h2 h3 ih =>
    rw [scan_plain hquote ⟨not_or.mp h1 |>.1, not_or.mp h1 |>.2, h2, h3⟩, ih hquote,
      Cut.extent_cons]

/-- **What the scan leaves of a text is what the cut leaves of it.** -/
theorem dropBytes?_scan (t : Text) :
    Text.dropBytes? t (scan 1 none t.utf8).size = some (cut 0 none t).rest := by
  have hscan : scan 1 none t.utf8 = (cut 0 none t).extent :=
    scan_utf8 0 (by trivial : IsQuote none) t
  have htext := Text.dropBytes?_append (cut 0 none t).taken (cut 0 none t).rest
  rw [taken_append_rest] at htext
  rw [hscan]
  exact htext

/-- A block that is not closed takes everything. -/
theorem rest_eq_nil_of_not_closed {depth : Nat} {quote : Option Char} {t : Text}
    (h : (cut depth quote t).closed = false) : (cut depth quote t).rest = [] := by
  fun_induction cut depth quote t <;> simp_all

/-- What stands behind a block that is closed does not change it. -/
theorem cut_taken_append {t : Text} (h : (cut depth quote t).closed = true) (s : Text) :
    cut depth quote ((cut depth quote t).taken ++ s) =
      ⟨true, (cut depth quote t).taken, s⟩ := by
  fun_induction cut depth quote t with
  | case1 => cases h
  | case2 depth q => cases h
  | case3 depth q c t ih =>
    have ih := ih h
    rw [Cut.taken_cons, Cut.taken_cons, List.cons_append, List.cons_append, cut, if_pos rfl, ih]
    rfl
  | case4 depth t q hq ih =>
    have ih := ih h
    rw [Cut.taken_cons, List.cons_append, cut.eq_def]
    simp only [if_neg hq, if_true, ih]
    rfl
  | case5 depth c t q hc hq ih =>
    have ih := ih h
    rw [Cut.taken_cons, List.cons_append, cut.eq_def]
    simp only [if_neg hc, if_neg hq, ih]
    rfl
  | case6 depth c t hc ih =>
    have ih := ih h
    rw [Cut.taken_cons, List.cons_append, cut, if_pos hc, ih]
    rfl
  | case7 depth t hc ih =>
    have ih := ih h
    rw [Cut.taken_cons, List.cons_append, cut, if_neg hc, if_pos rfl, ih]
    rfl
  | case8 t h1 h2 =>
    rw [List.cons_append, cut, if_neg h1, if_neg h2, if_pos rfl, if_pos rfl]
    rfl
  | case9 depth t hd h1 h2 ih =>
    have ih := ih h
    rw [Cut.taken_cons, List.cons_append, cut, if_neg h1, if_neg h2, if_pos rfl, if_neg hd, ih]
    rfl
  | case10 depth c t h1 h2 h3 ih =>
    have ih := ih h
    rw [Cut.taken_cons, List.cons_append, cut, if_neg h1, if_neg h2, if_neg h3, ih]
    rfl
/-- A block by itself is cut where it was cut in the text. -/
theorem cut_taken (depth : Nat) (quote : Option Char) (t : Text) :
    cut depth quote (cut depth quote t).taken =
      ⟨(cut depth quote t).closed, (cut depth quote t).taken, []⟩ := by
  cases hclosed : (cut depth quote t).closed with
  | true =>
    have hself := cut_taken_append hclosed []
    rwa [List.append_nil] at hself
  | false =>
    have hrest := rest_eq_nil_of_not_closed hclosed
    have htaken : (cut depth quote t).taken = t := by
      have happend := taken_append_rest depth quote t
      rwa [hrest, List.append_nil] at happend
    rw [htaken]
    calc cut depth quote t
        = ⟨(cut depth quote t).closed, (cut depth quote t).taken, (cut depth quote t).rest⟩ := rfl
      _ = ⟨false, t, []⟩ := by rw [hclosed, htaken, hrest]

/-- A block that is closed ends in a brace. -/
theorem getLast?_taken_of_closed {depth : Nat} {quote : Option Char} {t : Text}
    (h : (cut depth quote t).closed = true) : (cut depth quote t).taken.getLast? = some '\x7d' := by
  fun_induction cut depth quote t <;> simp_all [List.getLast?_cons]

end Block
end GrammarAtlas
