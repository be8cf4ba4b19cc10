import GrammarAtlas.Proofs.Text.Slice
import GrammarAtlas.Proofs.Token.Parts
import GrammarAtlas.Proofs.Token.Tiling

/-!
# The lines of tokens

A token keeps the line of its first byte and the line of its last one, and either is the number
of line feeds in front of that byte (`lines_count_newlines`).  So a token ends on another line
than it begins on just when there is a line feed in it that is not its last byte; and since
tokens stand one behind the other, no token begins on a line in front of the one where another
token in front of it has ended.

What is said of the first and the last byte of a token holds of any piece of the source
(`LineIndex.lineOf_lt_iff_of_slice?`), as of that from one token to another.
-/

namespace GrammarAtlas

variable {source text : Text} {start stop : Nat} {t u : Token}

/-- The bytes of a piece of a text, but for the last one. -/
theorem Text.dropLast_utf8_of_slice? (h : source.slice? start stop = some text) (hne : text ≠ []) :
    (source.utf8.take (stop - 1)).drop start = text.utf8.dropLast := by
  obtain ⟨front, back, rfl, rfl, rfl⟩ := Text.slice?_eq_some_iff.mp h
  have hpos : 0 < Text.byteSize text := TokenStream.byteSize_pos hne
  have hstop : Text.byteSize front + Text.byteSize text - 1 =
      front.utf8.length + (text.utf8.length - 1) := by
    rw [Text.length_utf8, Text.length_utf8]
    omega
  rw [hstop, Text.utf8_append, Text.utf8_append, List.append_assoc, List.take_length_add_append,
    ← Text.length_utf8, List.drop_left, List.take_append_of_le_length (Nat.sub_le ..),
    List.dropLast_eq_take]

/-- Where the last byte is a character of its own and no line feed, there is a line feed among the
other bytes just when the text has one. -/
theorem Text.newline_mem_dropLast_utf8 {t : Text} {c : Char} (hsize : c.utf8Size = 1)
    (hne : c ≠ '\n') : '\n'.toUInt8 ∈ (Text.utf8 (t ++ [c])).dropLast ↔ '\n' ∈ t ++ [c] := by
  have hlast : Text.utf8 (t ++ [c]) = t.utf8 ++ [c.toUInt8] := by
    rw [Text.utf8_append, Text.utf8_cons, Text.utf8EncodeChar_of_utf8Size hsize]
    rfl
  rw [hlast, List.dropLast_concat, Text.newline_mem_utf8, List.mem_append, List.mem_singleton,
    or_iff_left hne.symm]

/-- **The first and the last byte of a piece of a source** lie on different lines just when a
line feed of the piece is not its last byte. -/
theorem LineIndex.lineOf_lt_iff_of_slice? (h : source.slice? start stop = some text)
    (hne : text ≠ []) :
    (ofSource source).lineOf start < (ofSource source).lineOf (stop - 1) ↔
      '\n'.toUInt8 ∈ text.utf8.dropLast := by
  rw [lineOf_lt_iff source (Nat.le_sub_one_of_lt (Text.lt_of_slice? h hne)),
    Text.dropLast_utf8_of_slice? h hne]

namespace TokenStream

open PlacedLexeme

/-- A token of a source covers a piece of it. -/
theorem exists_slice?_of_mem_lex (ht : t ∈ (lex source).tokens) :
    ∃ text, source.slice? t.span.start t.span.stop = some text ∧ text ≠ [] := by
  obtain ⟨before, text, after, hcuts, hne⟩ := (tiling_lex source).inside t ht
  refine ⟨text, Text.slice?_eq_some_iff.mpr ⟨before, after, hcuts.source_eq, ?_, ?_⟩, hne⟩
  · exact hcuts.start_eq.symm
  · rw [hcuts.stop_eq, Text.byteSize_append]

theorem start_lt_stop_of_mem_lex (ht : t ∈ (lex source).tokens) : t.span.start < t.span.stop := by
  obtain ⟨text, htext, hne⟩ := exists_slice?_of_mem_lex ht
  exact Text.lt_of_slice? htext hne

/-- **The token's lines** are those of its first and its last byte. -/
theorem lines_of_mem_lex (ht : t ∈ (lex source).tokens) :
    t.startLine = (LineIndex.ofSource source).lineOf t.span.start ∧
      t.stopLine = (LineIndex.ofSource source).lineOf (t.span.stop - 1) := by
  have hmax : max (t.span.stop - 1) t.span.start = t.span.stop - 1 :=
    Nat.max_eq_left (Nat.le_sub_one_of_lt (start_lt_stop_of_mem_lex ht))
  obtain ⟨i, hi⟩ := List.mem_iff_getElem?.mp ht
  rw [tokens_lex] at hi
  obtain ⟨as, l, bs, -, -, htoken, -⟩ := exists_of_getElem?_tokensOf hi
  rw [← hmax, htoken]
  exact ⟨rfl, rfl⟩

/-- **The lines of a token of a stream**, told by the line feeds in the source and in the
token. -/
structure CountsLines (s : TokenStream) (t : Token) : Prop where
  /-- The token has a last byte, right in front of where it stops. -/
  start_lt_stop : t.span.start < t.span.stop
  startLine_eq : t.startLine = (s.source.utf8.take t.span.start).count '\n'.toUInt8
  stopLine_eq : t.stopLine = (s.source.utf8.take (t.span.stop - 1)).count '\n'.toUInt8
  startLine_le : t.startLine ≤ t.stopLine
  /-- Only a line feed that is not the last byte puts the end of the token on another line. -/
  differ : ∃ text, s.text t = .ok text ∧
    (t.startLine ≠ t.stopLine ↔ '\n'.toUInt8 ∈ text.utf8.dropLast)

theorem countsLines_of_mem_lex (ht : t ∈ (lex source).tokens) : (lex source).CountsLines t := by
  obtain ⟨hstart, hstop⟩ := lines_of_mem_lex ht
  obtain ⟨text, htext, hne⟩ := exists_slice?_of_mem_lex ht
  have hlt := start_lt_stop_of_mem_lex ht
  have hle : t.startLine ≤ t.stopLine := by
    rw [hstart, hstop]
    exact LineIndex.lineOf_mono source (Nat.le_sub_one_of_lt hlt)
  refine ⟨hlt, ?_, ?_, hle, text, ?_, ?_⟩
  · rw [hstart, LineIndex.lineOf_ofSource]
    rfl
  · rw [hstop, LineIndex.lineOf_ofSource]
    rfl
  · exact read_eq_ok_iff.mpr htext
  · rw [← LineIndex.lineOf_lt_iff_of_slice? htext hne, ← hstart, ← hstop]
    omega

/-- **Token lines count line feeds.**  A token begins and ends on the lines that the line feeds in
front of its first and its last byte say.  So no token begins on a line in front of one where a
token in front of it ends, and one ends on another line than it begins on just when it has a line
feed in front of its last byte. -/
theorem lines_count_newlines (source : Text) :
    (∀ t ∈ (lex source).tokens, (lex source).CountsLines t) ∧
      (lex source).tokens.Pairwise fun t u => t.stopLine ≤ u.startLine := by
  refine ⟨fun t ht => countsLines_of_mem_lex ht, ?_⟩
  refine (tiling_lex source).ordered.imp_of_mem fun {t u} ht hu horder => ?_
  obtain ⟨-, hstop⟩ := lines_of_mem_lex ht
  obtain ⟨hstart, -⟩ := lines_of_mem_lex hu
  rw [hstop, hstart]
  exact LineIndex.lineOf_mono source (by omega)

/-- A block over three lines, and behind it a line feed in a literal that does not close. -/
theorem lines_count_newlines_of_block :
    let source := "a\n: \x7b\n\né\x7d 'b\n;".toList
    (⟨.block, ⟨4, 10⟩, 1, 3⟩ : Token) ∈ (lex source).tokens ∧
      (lex source).CountsLines ⟨.block, ⟨4, 10⟩, 1, 3⟩ ∧
      (lex source).tokens.Pairwise fun t u => t.stopLine ≤ u.startLine := by
  intro source
  have hblock : (⟨.block, ⟨4, 10⟩, 1, 3⟩ : Token) ∈ (lex source).tokens := by decide +kernel
  obtain ⟨htokens, hordered⟩ := lines_count_newlines source
  exact ⟨hblock, htokens _ hblock, hordered⟩

end TokenStream
end GrammarAtlas
