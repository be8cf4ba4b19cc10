import GrammarAtlas.Proofs.Lexeme.Parts
import GrammarAtlas.Proofs.Token.Lines
import GrammarAtlas.Proofs.Token.Reading
import GrammarAtlas.Proofs.Token.Significant

/-!
# The tokens of a part of a source

The text from one token of a source to another is a source, too.  Its tokens are those
that the whole source has there, moved back to the beginning (`lex_textBetween`), so
nothing that stands in front or behind takes part in them.

From one token to another there are whole pieces (`exists_part`), and the pieces of such
a part are its own (`Lexeme.scan_part`).  What remains is to say how places move: by the
bytes and the lines in front (`tokensOf_moved`).
-/

namespace GrammarAtlas

/-- The span moved on by a number of bytes. -/
def Span.moved (bytes : Nat) (s : Span) : Span := ⟨bytes + s.start, bytes + s.stop⟩

/-- The token of a text that stands behind other text: moved on by the bytes and the
lines of that. -/
def Token.moved (bytes lines : Nat) (t : Token) : Token :=
  ⟨t.kind, t.span.moved bytes, lines + t.startLine, lines + t.stopLine⟩

namespace PlacedLexeme

open Lexeme

variable {before : Text} {l m : Lexeme} {ls ms : List Lexeme} {lines lines' : LineIndex}
  {i : Nat} {t : Token}

theorem tokensOf_append (lines : LineIndex) (before : Text) (ls ms : List Lexeme) :
    tokensOf lines before (ls ++ ms) =
      tokensOf lines before ls ++ tokensOf lines (before ++ ls.flatMap text) ms := by
  induction ls generalizing before with
  | nil => rw [List.nil_append, tokensOf, List.flatMap_nil, List.append_nil, List.nil_append]
  | cons l ls ih =>
    rw [List.cons_append, tokensOf, tokensOf, ih, List.flatMap_cons, List.append_assoc]
    split
    · rfl
    · rw [List.cons_append]

/-- A line index tells the lines of a text that stands behind `front`, up to an offset in that
text, counted on from a line. -/
def Continues (lines' lines : LineIndex) (front : Text) (first bound : Nat) : Prop :=
  ∀ offset ≤ bound, lines'.lineOf (Text.byteSize front + offset) = first + lines.lineOf offset

variable {front : Text} {first bound : Nat}

theorem token_moved (hlines : Continues lines' lines front first bound)
    (hbound : Text.byteSize (before ++ l.text) ≤ bound) :
    token lines' ⟨front ++ before, l⟩ =
      (token lines ⟨before, l⟩).moved (Text.byteSize front) first := by
  rw [Text.byteSize_append] at hbound
  have hstart := hlines (Text.byteSize before) (by omega)
  have hlast := hlines (max (Text.byteSize before + Text.byteSize l.text - 1)
    (Text.byteSize before)) (by omega)
  have hmax : max (Text.byteSize front + (Text.byteSize before + Text.byteSize l.text) - 1)
      (Text.byteSize front + Text.byteSize before) = Text.byteSize front +
        max (Text.byteSize before + Text.byteSize l.text - 1) (Text.byteSize before) := by
    omega
  simp only [token, Token.moved, Span.moved, span, Text.byteSize_append, Nat.add_assoc, hmax,
    hstart, hlast]

/-- **Tokens behind other text** are those that the pieces give by themselves, moved on. -/
theorem tokensOf_moved (hlines : Continues lines' lines front first bound)
    (hbound : Text.byteSize (before ++ ls.flatMap text) ≤ bound) :
    tokensOf lines' (front ++ before) ls =
      (tokensOf lines before ls).map (·.moved (Text.byteSize front) first) := by
  induction ls generalizing before with
  | nil => rfl
  | cons l ls ih =>
    rw [List.flatMap_cons, ← List.append_assoc] at hbound
    have hpiece : Text.byteSize (before ++ l.text) ≤ bound := by
      rw [Text.byteSize_append] at hbound
      omega
    have ih := ih hbound
    rw [← List.append_assoc] at ih
    rw [tokensOf, tokensOf, ih, token_moved hlines hpiece]
    split <;> rfl

/-- A token is that of a piece, and the tokens in front of it are those of the pieces in front
of that one. -/
theorem exists_of_getElem?_tokensOf (h : (tokensOf lines before ls)[i]? = some t) :
    ∃ as l bs, ls = as ++ l :: bs ∧ l.kind.isTrivia = false ∧
      t = token lines ⟨before ++ as.flatMap text, l⟩ ∧ (tokensOf lines before as).length = i := by
  induction ls generalizing before i with
  | nil => cases h
  | cons m ls ih =>
    rw [tokensOf] at h
    by_cases hm : m.kind.isTrivia = true
    · rw [if_pos hm] at h
      obtain ⟨as, l, bs, rfl, hl, ht, hi⟩ := ih h
      refine ⟨m :: as, l, bs, rfl, hl, ?_, ?_⟩
      · rw [ht, List.flatMap_cons, List.append_assoc]
      · rw [tokensOf, if_pos hm, hi]
    · rw [if_neg hm] at h
      cases i with
      | zero =>
        refine ⟨[], m, ls, rfl, Bool.eq_false_iff.mpr hm, ?_, rfl⟩
        rw [List.flatMap_nil, List.append_nil]
        exact (Option.some.inj h).symm
      | succ i =>
        obtain ⟨as, l, bs, rfl, hl, ht, hi⟩ := ih h
        refine ⟨m :: as, l, bs, rfl, hl, ?_, ?_⟩
        · rw [ht, List.flatMap_cons, List.append_assoc]
        · rw [tokensOf, if_neg hm, List.length_cons, hi]

end PlacedLexeme

namespace TokenStream

open Lexeme PlacedLexeme

variable {source text before after : Text} {i j : Nat} {t u : Token}

/-- The lines of a text inside a source, counted on from those in front of it. -/
theorem continues_ofSource (before text after : Text) :
    Continues (.ofSource (before ++ text ++ after)) (.ofSource text) before before.lineBreaks
      (Text.byteSize text) := by
  intro offset hoffset
  have hle : Text.byteSize before + offset ≤ Text.byteSize (before ++ text) := by
    rw [Text.byteSize_append]
    omega
  rw [LineIndex.lineOf_append_of_le hle, LineIndex.lineOf_append]

/-- A source that is scanned in three parts consists of their texts. -/
theorem source_eq_of_scan {as bs cs : List Lexeme} (h : scan source = as ++ bs ++ cs) :
    source = as.flatMap Lexeme.text ++ bs.flatMap Lexeme.text ++ cs.flatMap Lexeme.text := by
  rw [← List.flatMap_append, ← List.flatMap_append, ← h, flatMap_text_scan]

/-- **The tokens of a part of a source** that begins and ends with pieces are those of the
part by itself, moved on. -/
theorem tokensOf_part {as bs cs : List Lexeme} (h : scan source = as ++ bs ++ cs) :
    tokensOf (.ofSource source) (as.flatMap Lexeme.text) bs =
      (lex (bs.flatMap Lexeme.text)).tokens.map
        (·.moved (Text.byteSize (as.flatMap Lexeme.text))
          (Text.lineBreaks (as.flatMap Lexeme.text))) := by
  have hlines := continues_ofSource (as.flatMap Lexeme.text) (bs.flatMap Lexeme.text)
    (cs.flatMap Lexeme.text)
  rw [← source_eq_of_scan h] at hlines
  have hbound : Text.byteSize ([] ++ bs.flatMap Lexeme.text) ≤
      Text.byteSize (bs.flatMap Lexeme.text) := Nat.le_refl _
  have hmoved := tokensOf_moved hlines hbound
  rw [List.append_nil] at hmoved
  rw [hmoved, tokens_lex, scan_part h]

/-- A token of a source begins on the line that the line feeds in front of it say. -/
theorem startLine_token (before after : Text) (l : Lexeme) :
    (token (.ofSource (before ++ after)) ⟨before, l⟩).startLine = before.lineBreaks := by
  show (LineIndex.ofSource (before ++ after)).lineOf (Text.byteSize before) = before.lineBreaks
  have h := LineIndex.lineOf_append before after 0
  rwa [LineIndex.lineOf_ofSource after, List.take_zero, List.count_nil] at h

/-- From a token of a source to another one there are whole pieces. -/
structure Part (source : Text) (i j : Nat) (as bs cs : List Lexeme) : Prop where
  scan_eq : scan source = as ++ bs ++ cs
  length_front : (tokensOf (.ofSource source) [] as).length = i
  length_through : (tokensOf (.ofSource source) [] (as ++ bs)).length = j + 1
  first : ∃ t, (lex source).get? i = some t ∧
    t.span.start = Text.byteSize (as.flatMap Lexeme.text) ∧
    t.startLine = Text.lineBreaks (as.flatMap Lexeme.text)
  last : ∃ t, (lex source).get? j = some t ∧
    t.span.stop = Text.byteSize ((as ++ bs).flatMap Lexeme.text)

/-- There is such a part that ends with a token. -/
theorem exists_part_of_token (hij : i ≤ j) (hj : j < (lex source).size) :
    ∃ as bs cs, Part source i j as bs cs ∧ ∀ l ∈ bs.getLast?, l.kind.isTrivia = false := by
  obtain ⟨t, ht⟩ := exists_get? (Nat.lt_of_le_of_lt hij hj)
  obtain ⟨u, hu⟩ := exists_get? hj
  have ht' := ht
  have hu' := hu
  rw [get?, tokens_lex] at ht hu
  obtain ⟨front, l, cs, hscan, hl, rfl, hfront⟩ := exists_of_getElem?_tokensOf hu
  have hsize : (tokensOf (.ofSource source) [] (front ++ [l])).length = j + 1 := by
    rw [tokensOf_append, List.length_append, hfront, tokensOf, hl]
    rfl
  have hsplit : scan source = front ++ [l] ++ cs := by
    rw [hscan, List.append_assoc]
    rfl
  have hfirst : (tokensOf (.ofSource source) [] (front ++ [l]))[i]? = some t := by
    rw [hsplit, tokensOf_append, List.getElem?_append_left (by omega)] at ht
    exact ht
  obtain ⟨as, m, bs, hpart, -, rfl, has⟩ := exists_of_getElem?_tokensOf hfirst
  have hsource : as.flatMap Lexeme.text ++ (m :: bs ++ cs).flatMap Lexeme.text = source := by
    rw [← List.flatMap_append, ← List.append_assoc, ← hpart, ← hsplit, flatMap_text_scan]
  have hlast : ∀ n ∈ (m :: bs).getLast?, n.kind.isTrivia = false := by
    have hend := congrArg List.getLast? hpart
    rw [List.getLast?_concat, List.getLast?_append_of_ne_nil _ (List.cons_ne_nil m bs)] at hend
    intro n hn
    rw [← hend] at hn
    exact Option.some.inj hn ▸ hl
  refine ⟨as, m :: bs, cs, ⟨by rw [hsplit, hpart], has, hpart ▸ hsize, ⟨_, ht', rfl, ?_⟩,
    ⟨_, hu', ?_⟩⟩, hlast⟩
  · have hline := startLine_token (as.flatMap Lexeme.text)
      ((m :: bs ++ cs).flatMap Lexeme.text) m
    rwa [hsource] at hline
  · rw [← hpart, List.flatMap_append, Text.byteSize_append]
    simp [token, span]

theorem exists_part (hij : i ≤ j) (hj : j < (lex source).size) :
    ∃ as bs cs, Part source i j as bs cs := by
  obtain ⟨as, bs, cs, hpart, -⟩ := exists_part_of_token hij hj
  exact ⟨as, bs, cs, hpart⟩

variable {as bs cs : List Lexeme}

/-- The text of the part is a slice of the source, from its first token to its last one. -/
theorem Part.exists_slice? (h : Part source i j as bs cs) :
    ∃ t u, (lex source).get? i = some t ∧ (lex source).get? j = some u ∧
      t.span.start ≤ u.span.stop ∧
      source.slice? t.span.start u.span.stop = some (bs.flatMap Lexeme.text) := by
  obtain ⟨t, ht, hstart, -⟩ := h.first
  obtain ⟨u, hu, hstop⟩ := h.last
  rw [List.flatMap_append, Text.byteSize_append] at hstop
  have hslice := Text.slice?_append (as.flatMap Lexeme.text) (bs.flatMap Lexeme.text)
    (cs.flatMap Lexeme.text)
  rw [← source_eq_of_scan h.scan_eq] at hslice
  refine ⟨t, u, ht, hu, ?_, ?_⟩
  · rw [hstart, hstop]
    exact Nat.le_add_right ..
  · rw [hstart, hstop]
    exact hslice

/-- The text of the part is what stands between its first and its last token. -/
theorem Part.textBetween_eq (h : Part source i j as bs cs) :
    (lex source).textBetween i j = .ok (bs.flatMap Lexeme.text) := by
  obtain ⟨t, u, ht, hu, hle, hslice⟩ := h.exists_slice?
  have hread : (lex source).source.slice? _ _ = some (bs.flatMap Lexeme.text) := hslice
  rw [textBetween, ht, hu]
  simp only [if_pos hle, read, hread]

/-- The tokens from the first through the last are those of the part. -/
theorem Part.slice_eq (h : Part source i j as bs cs) :
    (lex source).slice i (j + 1) =
      tokensOf (.ofSource source) (as.flatMap Lexeme.text) bs := by
  rw [slice, tokens_lex, h.scan_eq, tokensOf_append, ← h.length_through, List.take_left,
    tokensOf_append, ← h.length_front, List.drop_left, List.nil_append]

/-- The part has the lexemes that the source has there. -/
theorem Part.significant_eq (h : Part source i j as bs cs) {n : Nat} (hn : i + n ≤ j) :
    (significant (bs.flatMap Lexeme.text))[n]? = (significant source)[i + n]? := by
  have hfront := h.length_front
  have hthrough := h.length_through
  rw [length_tokensOf] at hfront hthrough
  rw [significant, scan_part h.scan_eq, significant, h.scan_eq, List.filter_append,
    List.getElem?_append_left (by omega), List.filter_append,
    List.getElem?_append_right (by omega), hfront, Nat.add_sub_cancel_left]

/-- **The text between two tokens of a source has the tokens between them.**  By itself it
is lexed to the same kinds and texts, and to the same places, counted from where it
begins. -/
theorem lex_textBetween (source : Text) {i j : Nat} (hij : i ≤ j) (hj : j < (lex source).size) :
    ∃ first part, (lex source).get? i = some first ∧ (lex source).textBetween i j = .ok part ∧
      (lex source).slice i (j + 1) =
        (lex part).tokens.map (·.moved first.span.start first.startLine) ∧
      ∀ n, i + n ≤ j → (lex part).textAt n = (lex source).textAt (i + n) := by
  obtain ⟨as, bs, cs, h⟩ := exists_part hij hj
  obtain ⟨first, hfirst, hstart, hline⟩ := h.first
  refine ⟨first, bs.flatMap Lexeme.text, hfirst, h.textBetween_eq, ?_, ?_⟩
  · rw [h.slice_eq, tokensOf_part h.scan_eq, hstart, hline]
  · intro n hn
    rw [(readsAs_lex _).textAt, (readsAs_lex source).textAt, h.significant_eq hn]

/-- From a colon to a literal that does not close. -/
theorem lex_textBetween_garbage : (1 ≤ 2 ∧ 2 < (lex "a :\n'b".toList).size) ∧
    ∃ first part, (lex "a :\n'b".toList).get? 1 = some first ∧
      (lex "a :\n'b".toList).textBetween 1 2 = .ok part ∧
      (lex "a :\n'b".toList).slice 1 (2 + 1) =
        (lex part).tokens.map (·.moved first.span.start first.startLine) ∧
      ∀ n, 1 + n ≤ 2 → (lex part).textAt n = (lex "a :\n'b".toList).textAt (1 + n) :=
  ⟨by decide +kernel, lex_textBetween _ (by decide) (by decide +kernel)⟩

end TokenStream
end GrammarAtlas
