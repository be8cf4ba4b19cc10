import GrammarAtlas.Proofs.Grammar.Rules
import GrammarAtlas.Proofs.Token.LineCount
import GrammarAtlas.Rule.Views

/-!
# What code folding hides

A rule folds from its colon through its semicolon.  What it knows of this region are offsets and
lines of three tokens, and this is what they say of the source: the region begins with a colon
and ends with a semicolon, it can collapse just when there is a line feed in it, and the regions
of the rules, with their names in front, lie one behind the other (`foldings_of_rules`).

The colon and the semicolon are single characters, so a line feed in the region is one in front
of its last byte.  Hence whether there is one is told by the lines of the first byte and the last
(`LineIndex.lineOf_lt_iff_of_slice?`), which are the lines of the two tokens.
-/

namespace GrammarAtlas

variable {source : Text} {r r' : Rule} {name colon semi name' colon' semi' : Token}

/-- **Where a rule stands in a source**: it begins with its name, and its colon and its semicolon
are behind that. -/
structure Rule.StandsIn (r : Rule) (source : Text) (name colon semi : Token) : Prop where
  name_at : (TokenStream.lex source).get? r.span.start = some name
  colon_at : (TokenStream.lex source).get? r.span.colon = some colon
  semi_at : (TokenStream.lex source).get? r.span.stop = some semi
  start_lt_colon : r.span.start < r.span.colon
  colon_lt_stop : r.span.colon < r.span.stop
  colon_text : source.slice? colon.span.start colon.span.stop = some [':']
  semi_text : source.slice? semi.span.start semi.span.stop = some [';']

/-- **What a fold says of a source.** -/
structure Folding.Describes (f : Folding) (source : Text) : Prop where
  paragraph_lt_start : f.paragraphOffset < f.startOffset
  start_lt_stop : f.startOffset < f.stopOffset
  stop_le_size : f.stopOffset ≤ Text.byteSize source
  startLine_le_stopLine : f.startLine ≤ f.stopLine
  collapsible_iff : f.collapsible = true ↔ f.startLine < f.stopLine
  /-- What is folded runs from a colon through a semicolon, and can collapse if it has a line
  feed. -/
  region : ∃ text, source.slice? f.startOffset f.stopOffset = some text ∧
    text.head? = some ':' ∧ text.getLast? = some ';' ∧ (f.collapsible = true ↔ '\n' ∈ text)

/-- The line of a breakpoint is the number of line feeds in front of it. -/
def BreakpointSite.CountsLines (b : BreakpointSite) (source : Text) : Prop :=
  b.line = (source.utf8.take b.offset).count '\n'.toUInt8

namespace Rule.StandsIn

open TokenStream

theorem of_delimits (h : r.span.Delimits (lex source) r.name) :
    ∃ name colon semi, r.StandsIn source name colon semi := by
  obtain ⟨name, hname, -⟩ := h.name_at_start
  obtain ⟨semi, hsemi⟩ := exists_get? h.stop_lt_size
  obtain ⟨colon, hcolon⟩ := exists_get? (h.colon_lt_stop.trans h.stop_lt_size)
  have hcolonText := h.colon_at_colon
  have hsemiText := h.semicolon_at_stop
  rw [textAt_of_get? hcolon] at hcolonText
  rw [textAt_of_get? hsemi] at hsemiText
  exact ⟨name, colon, semi, hname, hcolon, hsemi, h.start_lt_colon, h.colon_lt_stop,
    read_eq_ok_iff.mp hcolonText, read_eq_ok_iff.mp hsemiText⟩

/-! ## The fields of a fold -/

theorem paragraphOffset_eq (h : r.StandsIn source name colon semi) :
    (r.folding (lex source)).paragraphOffset = name.span.start := by
  simp [folding, startOffset, h.name_at]

theorem startOffset_eq (h : r.StandsIn source name colon semi) :
    (r.folding (lex source)).startOffset = colon.span.start := by
  simp [folding, h.colon_at]

theorem stopOffset_eq (h : r.StandsIn source name colon semi) :
    (r.folding (lex source)).stopOffset = semi.span.stop := by
  simp [folding, stopOffset, h.semi_at]

theorem startLine_eq (h : r.StandsIn source name colon semi) :
    (r.folding (lex source)).startLine =
      (LineIndex.ofSource source).lineOf colon.span.start := by
  have hlines := lines_of_mem_lex (mem_of_get? h.colon_at)
  simp [folding, h.colon_at, hlines.1]

theorem stopLine_eq (h : r.StandsIn source name colon semi) :
    (r.folding (lex source)).stopLine =
      (LineIndex.ofSource source).lineOf (semi.span.stop - 1) := by
  have hlines := lines_of_mem_lex (mem_of_get? h.semi_at)
  simp [folding, h.semi_at, hlines.2]

/-- The semicolon is one byte. -/
theorem semi_stop (h : r.StandsIn source name colon semi) :
    semi.span.stop = semi.span.start + 1 := by
  obtain ⟨front, back, -, hstart, hstop⟩ := Text.slice?_eq_some_iff.mp h.semi_text
  rw [← hstart, ← hstop]
  rfl

/-- The two lines that are compared are the first and the last of the region. -/
theorem collapsible_iff (h : r.StandsIn source name colon semi) :
    (r.folding (lex source)).collapsible = true ↔
      (r.folding (lex source)).startLine < (r.folding (lex source)).stopLine := by
  have hcolon := lines_of_mem_lex (mem_of_get? h.colon_at)
  have hsemi := lines_of_mem_lex (mem_of_get? h.semi_at)
  rw [h.startLine_eq, h.stopLine_eq, h.semi_stop, Nat.add_sub_cancel, ← hcolon.1, ← hsemi.1]
  simp [folding, isCollapsible, h.colon_at, h.semi_at]

/-! ## The region -/

theorem colon_stop_le (h : r.StandsIn source name colon semi) :
    colon.span.stop ≤ semi.span.start :=
  stop_le_start_of_get? h.colon_at h.semi_at h.colon_lt_stop

theorem start_lt_semi_stop (h : r.StandsIn source name colon semi) :
    colon.span.start < semi.span.stop := by
  have hcolon := start_lt_stop_of_mem_lex (mem_of_get? h.colon_at)
  have hsemi := start_lt_stop_of_mem_lex (mem_of_get? h.semi_at)
  have hle := h.colon_stop_le
  omega

/-- **The region of a rule** is its colon, its semicolon and what stands between them. -/
theorem exists_region (h : r.StandsIn source name colon semi) :
    ∃ inside, source.slice? colon.span.start semi.span.stop = some ([':'] ++ inside ++ [';']) :=
  Text.exists_slice?_between h.colon_text h.semi_text h.colon_stop_le

/-- The region has a line feed just when its last byte is on another line than its first. -/
theorem lineOf_lt_iff {inside : Text} (hregion : source.slice? colon.span.start semi.span.stop =
    some ([':'] ++ inside ++ [';'])) :
    (LineIndex.ofSource source).lineOf colon.span.start <
      (LineIndex.ofSource source).lineOf (semi.span.stop - 1) ↔
        '\n' ∈ [':'] ++ inside ++ [';'] := by
  rw [LineIndex.lineOf_lt_iff_of_slice? hregion (List.cons_ne_nil _ _),
    Text.newline_mem_dropLast_utf8 rfl (by decide)]

/-- **The fold of a rule** is that of its region. -/
theorem folding_describes (h : r.StandsIn source name colon semi) :
    (r.folding (lex source)).Describes source := by
  obtain ⟨inside, hregion⟩ := h.exists_region
  have hname := start_lt_stop_of_mem_lex (mem_of_get? h.name_at)
  have hcolon := stop_le_start_of_get? h.name_at h.colon_at h.start_lt_colon
  refine ⟨?_, ?_, ?_, ?_, h.collapsible_iff, [':'] ++ inside ++ [';'], ?_, rfl, ?_, ?_⟩
  · rw [h.paragraphOffset_eq, h.startOffset_eq]
    omega
  · rw [h.startOffset_eq, h.stopOffset_eq]
    exact h.start_lt_semi_stop
  · rw [h.stopOffset_eq]
    exact Text.le_byteSize_of_slice? h.semi_text
  · rw [h.startLine_eq, h.stopLine_eq]
    exact LineIndex.lineOf_mono source (Nat.le_sub_one_of_lt h.start_lt_semi_stop)
  · rw [h.startOffset_eq, h.stopOffset_eq]
    exact hregion
  · exact List.getLast?_concat
  · rw [h.collapsible_iff, h.startLine_eq, h.stopLine_eq]
    exact lineOf_lt_iff hregion

/-- The breakpoint of a rule is on the line of its name. -/
theorem breakpointSite_countsLines (h : r.StandsIn source name colon semi) :
    (r.breakpointSite (lex source)).CountsLines source := by
  have hline := (lines_of_mem_lex (mem_of_get? h.name_at)).1
  rw [LineIndex.lineOf_ofSource] at hline
  simp [BreakpointSite.CountsLines, breakpointSite, startOffset, h.name_at, hline]

/-- The fold of a rule ends in front of a rule that comes later. -/
theorem stopOffset_le (h : r.StandsIn source name colon semi)
    (h' : r'.StandsIn source name' colon' semi') (hlt : r.span.stop < r'.span.start) :
    (r.folding (lex source)).stopOffset ≤ (r'.folding (lex source)).paragraphOffset := by
  rw [h.stopOffset_eq, h'.paragraphOffset_eq]
  exact stop_le_start_of_get? h.semi_at h'.name_at hlt

end Rule.StandsIn

namespace Grammar

open TokenStream

/-- **What the rules of a source fold to.**  Each fold runs from a colon through a semicolon behind
the rule's name, and it can collapse just when there is a line feed in it; each breakpoint is on
the line of the rule's name; and the folds lie one behind the other, with the names in front of
them. -/
theorem foldings_of_rules (source : Text) :
    (∀ r ∈ (parse source).1.rules, (r.folding (lex source)).Describes source ∧
      (r.breakpointSite (lex source)).CountsLines source) ∧
    (parse source).1.rules.Pairwise fun r r' =>
      (r.folding (lex source)).stopOffset ≤ (r'.folding (lex source)).paragraphOffset := by
  obtain ⟨_, _, -, -, haccount⟩ := account_parse source
  have hstands {r : Rule} (hr : r ∈ (parse source).1.rules) :=
    Rule.StandsIn.of_delimits (haccount.delimited r hr)
  refine ⟨fun r hr => ?_, haccount.disjoint.imp_of_mem fun {r r'} hr hr' hlt => ?_⟩
  · obtain ⟨name, colon, semi, h⟩ := hstands hr
    exact ⟨h.folding_describes, h.breakpointSite_countsLines⟩
  · obtain ⟨name, colon, semi, h⟩ := hstands hr
    obtain ⟨name', colon', semi', h'⟩ := hstands hr'
    exact h.stopOffset_le h' hlt

/-- A rule whose colon is on the line of its semicolon, behind one that runs over two lines. -/
theorem foldings_of_two_rules :
    let source := "a : b\n; b\n: 'x' ;".toList
    let r : Rule := ⟨['a'], ⟨0, 1, 3⟩, true, false, false, [], ⟨0, 1⟩⟩
    let r' : Rule := ⟨['b'], ⟨4, 5, 7⟩, true, false, false, [], ⟨1, 1⟩⟩
    (parse source).1.rules = [r, r'] ∧
      (r.folding (lex source)).collapsible = true ∧ (r.folding (lex source)).Describes source ∧
      (r'.folding (lex source)).collapsible = false ∧ (r'.folding (lex source)).Describes source ∧
      (r.folding (lex source)).stopOffset ≤ (r'.folding (lex source)).paragraphOffset := by
  intro source r r'
  have hrules : (parse source).1.rules = [r, r'] := by decide +kernel
  obtain ⟨hfolds, hordered⟩ := foldings_of_rules source
  rw [hrules] at hfolds hordered
  have hr' : r' ∈ [r'] := List.mem_singleton_self r'
  obtain ⟨hfold, hfolds⟩ := List.forall_mem_cons.mp hfolds
  exact ⟨hrules, by decide +kernel, hfold.1, by decide +kernel, (hfolds r' hr').1,
    List.rel_of_pairwise_cons hordered hr'⟩

end Grammar
end GrammarAtlas
