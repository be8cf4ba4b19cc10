import GrammarAtlas.Diagnostic.Report
import GrammarAtlas.Proofs.Grammar.Malformed
import GrammarAtlas.Proofs.Lexeme.Garbage
import GrammarAtlas.Proofs.Text.Joined
import GrammarAtlas.Proofs.Token.Diagnosis

/-!
# Reports without a source

Without a source at hand, diagnostics are reported one below the other, and each is to take one
line.  What is put around a message has no line feed, so this holds as far as the messages have
none (`oneLineEach_lines_iff`).

The messages about a source have the line feeds of its garbage and no others
(`lineBreaks_messages_parse`): a rule's name is an identifier, and the brace of a block is not
quoted.  So a source is reported on in one line each just when no garbage goes over a line, and
only a literal that nothing closes does (`lines_of_report`).
-/

namespace GrammarAtlas

/-! ## Lines of diagnostics -/

namespace Diagnostic

/-- **What stands around a message has no line feed.** -/
theorem lineBreaks_line (d : Diagnostic) : d.line.lineBreaks = d.message.lineBreaks := by
  have hseverity : Text.lineBreaks d.severity.text = 0 := by
    cases d.severity <;> decide
  have hplace (r : Span) : Text.lineBreaks
      (" at ".toList ++ Text.decimal r.start ++ "..".toList ++ Text.decimal r.stop) = 0 := by
    have hdecimal (n : Nat) := Text.lineBreaks_eq_zero_iff.mpr (Text.newline_notMem_decimal n)
    simp only [Text.lineBreaks_append, hdecimal]
    decide
  have hhint {h : Text} (hh : d.kind.hint? = some h) :
      Text.lineBreaks (" (hint: ".toList ++ h ++ ")".toList) = 0 := by
    cases hkind : d.kind <;> rw [hkind] at hh <;> cases hh <;> decide
  have hcolon : Text.lineBreaks ": ".toList = 0 := by decide
  have hnil : Text.lineBreaks [] = 0 := rfl
  unfold line
  rw [Text.lineBreaks_append, Text.lineBreaks_append, Text.lineBreaks_append,
    Text.lineBreaks_append, hseverity, hcolon]
  split <;> split
  · rw [hplace, hhint ‹_›]
    omega
  · rw [hplace, hnil]
    omega
  · rw [hnil, hhint ‹_›]
    omega
  · rw [hnil]
    omega

end Diagnostic

namespace Diagnostics

variable {ds : Diagnostics}

/-- **The text shows each diagnostic on one line**, in order.  No diagnostics, no text. -/
structure OneLineEach (ds : Diagnostics) (text : Text) : Prop where
  count : text.lineBreaks = ds.length - 1
  empty : ds = [] → text = []
  lines : ds ≠ [] → text.splitOn '\n' = ds.map Diagnostic.line

/-- Diagnostics one below the other have the line feeds between them and those of the messages. -/
theorem lineBreaks_lines (ds : Diagnostics) :
    ds.lines.lineBreaks = (ds.length - 1) + Text.lineBreaks (ds.flatMap (·.message)) := by
  have hmessages : Text.lineBreaks (ds.map Diagnostic.line).flatten =
      Text.lineBreaks (ds.flatMap (·.message)) := by
    induction ds with
    | nil => rfl
    | cons d ds ih =>
      rw [List.map_cons, List.flatten_cons, List.flatMap_cons, Text.lineBreaks_append,
        Text.lineBreaks_append, ih, d.lineBreaks_line]
  rw [lines, Text.lineBreaks_join, List.length_map, hmessages]

/-- **Diagnostics take one line each** just when their messages have no line feed. -/
theorem oneLineEach_lines_iff :
    ds.OneLineEach ds.lines ↔ Text.lineBreaks (ds.flatMap (·.message)) = 0 := by
  have hcount := lineBreaks_lines ds
  constructor
  · intro h
    have hone := h.count
    omega
  intro hnone
  refine ⟨by omega, fun hnil => by rw [hnil]; rfl, fun hne => ?_⟩
  have hline : ∀ t ∈ ds.map Diagnostic.line, '\n' ∉ t := by
    intro t ht
    obtain ⟨d, hd, rfl⟩ := List.mem_map.mp ht
    rw [← Text.lineBreaks_eq_zero_iff, d.lineBreaks_line, Text.lineBreaks_eq_zero_iff]
    exact fun hmem => Text.lineBreaks_eq_zero_iff.mp hnone (List.mem_flatMap.mpr ⟨d, hd, hmem⟩)
  rw [lines, Text.join_eq_intercalate]
  exact List.splitOn_intercalate '\n' hline fun hnil => hne (List.map_eq_nil_iff.mp hnil)

/-- Without a source, diagnostics are reported one below the other. -/
theorem report_without_source (path : Option Text) (colored : Bool) (ds : Diagnostics) :
    ReportOptions.report ⟨none, path, colored⟩ ds = .ok ds.lines := by
  have hsingle : ds.mapM (ReportOptions.single ⟨none, path, colored⟩) =
      .ok (ds.map Diagnostic.line) :=
    mapM_eq_ok (List.forall₂_map_right_iff.mpr (List.forall₂_same.mpr fun _ _ => rfl))
  rw [ReportOptions.report, hsingle]
  rfl

end Diagnostics

/-! ## Messages about a source -/

namespace TokenStream

open Lexeme PlacedLexeme

variable {source : Text}

/-- What is reported of pieces has the line feeds of the garbage among them. -/
theorem lineBreaks_messages_reports (before : Text) (ls : List Lexeme) :
    Text.lineBreaks (((place before ls).flatMap reports).flatMap (·.message)) =
      Text.lineBreaks ((ls.filter (·.kind = .garbage)).flatMap Lexeme.text) := by
  have hhead : Text.lineBreaks "unexpected character: `".toList = 0 := by decide
  have htail : Text.lineBreaks "`".toList = 0 := by decide
  have hblock : Text.lineBreaks "unterminated `\x7b` block".toList = 0 := by decide
  induction ls generalizing before with
  | nil => rfl
  | cons l ls ih =>
    rw [place, List.flatMap_cons, List.flatMap_append, Text.lineBreaks_append, ih]
    by_cases hgarbage : l.kind = .garbage
    · rw [List.filter_cons_of_pos (by exact decide_eq_true hgarbage), List.flatMap_cons,
        Text.lineBreaks_append, reports, if_pos hgarbage, List.flatMap_singleton,
        Diagnostic.report, DiagnosticKind.message_unexpectedCharacter]
      simp only [Text.lineBreaks_append, hhead, htail, Nat.zero_add, Nat.add_zero]
    · rw [List.filter_cons_of_neg (by exact mt of_decide_eq_true hgarbage)]
      by_cases hopen : l.IsOpen
      · rw [reports_of_isOpen hopen, List.flatMap_singleton, hblock, Nat.zero_add]
      · rw [reports_of_not_isOpen hgarbage hopen]
        exact Nat.zero_add _

/-- Garbage is no trivia, so the garbage pieces are the garbage tokens. -/
theorem mapM_text_garbage (source : Text) :
    ((lex source).tokens.filter (·.kind = .garbage)).mapM (lex source).text =
      .ok (((scan source).filter (·.kind = .garbage)).map Lexeme.text) := by
  have hsignificant : (significant source).filter (·.kind = .garbage) =
      (scan source).filter (·.kind = .garbage) := by
    rw [significant, List.filter_filter]
    refine List.filter_congr fun l _ => ?_
    cases l.kind <;> rfl
  have hread : List.Forall₂ (fun t l => t.kind = l.kind ∧ (lex source).text t = .ok l.text)
      ((lex source).tokens.filter (·.kind = .garbage))
      ((significant source).filter (·.kind = .garbage)) := by
    refine List.rel_filter ?_ (readsAs_lex source)
    rintro t l ⟨hkind, -⟩
    simp only [hkind]
  rw [hsignificant] at hread
  exact mapM_eq_ok (List.forall₂_map_right_iff.mpr (hread.imp fun _ _ ht => ht.2))

/-- The name of a rule is an identifier, so it has no line feed. -/
theorem StartsRule.newline_notMem {i : Nat} {name : Text} (h : (lex source).StartsRule i name) :
    '\n' ∉ name := by
  obtain ⟨t, ht, hkind, htext⟩ := h.identifier
  obtain ⟨text, hpattern, htext'⟩ :=
    exists_text_mem_pattern ht (by rw [hkind]; decide) (by rw [hkind]; decide)
  rw [hkind] at hpattern
  obtain rfl : text = name := Except.ok.inj (htext'.symm.trans htext)
  obtain ⟨c, u, hsplit, hc, hu⟩ := mem_run.mp hpattern
  rw [hsplit]
  intro hmem
  rcases List.mem_cons.mp hmem with rfl | hmem
  · exact absurd hc (by decide)
  · exact absurd (hu _ hmem) (by decide)

theorem MalformedAt.newline_notMem {d : Diagnostic} {i : Nat} {name : Text}
    {bounds : Option Nat × Option Nat} {first last : Token}
    (h : (lex source).MalformedAt d i name bounds first last) : '\n' ∉ d.message := by
  rw [h.eq, ← Text.lineBreaks_eq_zero_iff]
  have hname := Text.lineBreaks_eq_zero_iff.mpr h.starts.newline_notMem
  have hhead : Text.lineBreaks "rule `".toList = 0 := by decide
  have htail : Text.lineBreaks "` has no `:`".toList = 0 := by decide
  simp only [Text.lineBreaks_append, hname, hhead, htail]

end TokenStream

namespace Grammar

open Lexeme TokenStream Diagnostics

/-- **The messages about a source have the line feeds of its garbage** and no others. -/
theorem lineBreaks_messages_parse (source : Text) :
    Text.lineBreaks ((parse source).2.flatMap (·.message)) =
      Text.lineBreaks (((scan source).filter (·.kind = .garbage)).flatMap Lexeme.text) := by
  obtain ⟨visits, hscanned, -, hreports⟩ := exists_scanned_parse source
  have hrules : Text.lineBreaks ((visits.flatMap (·.reports)).flatMap (·.message)) = 0 := by
    rw [Text.lineBreaks_eq_zero_iff]
    intro hmem
    obtain ⟨d, hd, hmem⟩ := List.mem_flatMap.mp hmem
    obtain ⟨v, hv, hd⟩ := List.mem_flatMap.mp hd
    obtain ⟨-, _, _, _, _, -, h⟩ := (hscanned.accounted v hv).malformedAt hd
    exact h.newline_notMem hmem
  rw [hreports, List.flatMap_append, Text.lineBreaks_append, hrules, lexDiagnostics_eq]
  exact lineBreaks_messages_reports [] _

/-- **Lines of a report.**  Without a source at hand, what is found in a source is reported one
below the other: the line feeds are those between two diagnostics and those in the garbage.  So
each takes one line just when no garbage has a line feed; what has one ends in a literal that
nothing closes. -/
theorem lines_of_report (source : Text) (path : Option Text) (colored : Bool) :
    ∃ text garbage, ReportOptions.report ⟨none, path, colored⟩ (parse source).2 = .ok text ∧
      text = Text.join ['\n'] ((parse source).2.map Diagnostic.line) ∧
      ((lex source).tokens.filter (·.kind = .garbage)).mapM (lex source).text = .ok garbage ∧
      text.lineBreaks = ((parse source).2.length - 1) + Text.lineBreaks garbage.flatten ∧
      ((parse source).2.OneLineEach text ↔ ∀ g ∈ garbage, '\n' ∉ g) ∧
      ∀ g ∈ garbage, '\n' ∈ g → OpenLiteral g := by
  have hbreaks := lineBreaks_messages_parse source
  refine ⟨(parse source).2.lines, _, report_without_source path colored _, rfl,
    mapM_text_garbage source, ?_, ?_, ?_⟩
  · rw [lineBreaks_lines, hbreaks]
    rfl
  · rw [oneLineEach_lines_iff, hbreaks, Text.lineBreaks_eq_zero_iff, List.mem_flatMap]
    simp only [List.forall_mem_map, not_exists, not_and]
  · intro g hg hfeed
    obtain ⟨l, hl, rfl⟩ := List.mem_map.mp hg
    obtain ⟨hl, hgarbage⟩ := List.mem_filter.mp hl
    exact openLiteral_of_mem_scan hl (of_decide_eq_true hgarbage) hfeed

/-- **A quote mark in front of a line feed** is reported in two lines. -/
theorem report_over_two_lines :
    let ds := (parse ['\'', '\n']).2
    ds = [⟨.unexpectedCharacter, some ⟨0, 2⟩,
        "unexpected character: `".toList ++ ['\'', '\n'] ++ "`".toList⟩] ∧
      ReportOptions.report ⟨none, none, false⟩ ds = .ok ds.lines ∧
      ds.lines.lineBreaks = 1 ∧ ¬ ds.OneLineEach ds.lines := by
  intro ds
  have hbreaks : ds.lines.lineBreaks = 1 := by decide +kernel
  have hlength : ds.length = 1 := by decide +kernel
  refine ⟨by decide +kernel, report_without_source none false ds, hbreaks, fun h => ?_⟩
  have hcount := h.count
  omega

end Grammar
end GrammarAtlas
