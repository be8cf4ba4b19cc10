import GrammarAtlas.Proofs.Token.Parts
import GrammarAtlas.Proofs.Token.Reports

/-!
# A source behind another one

A source without anything wrong in it may be followed by a line feed and another source:
its tokens stay as they are, those of the other source come behind (`tokens_append`), and
so do the reports (`lexDiagnostics_append`).

The only thing that could go wrong is not reported: a slash and a star behind it are two
operators while no comment closes, but the other source might close it.  `NoOpenComment`
says that there is none.
-/

namespace GrammarAtlas

/-- The report on text that stands behind other text. -/
def Diagnostic.moved (bytes : Nat) (d : Diagnostic) : Diagnostic :=
  { d with range := d.range.map (·.moved bytes) }

theorem Token.moved_zero (t : Token) : t.moved 0 0 = t := by
  simp [moved, Span.moved]

namespace PlacedLexeme

open Lexeme

variable {before front : Text} {l : Lexeme} {ls ms : List Lexeme}

theorem place_append (before : Text) (ls ms : List Lexeme) :
    place before (ls ++ ms) = place before ls ++ place (before ++ ls.flatMap text) ms := by
  induction ls generalizing before with
  | nil => rw [List.nil_append, place, List.flatMap_nil, List.append_nil, List.nil_append]
  | cons l ls ih =>
    rw [List.cons_append, place, place, ih, List.flatMap_cons, List.append_assoc, List.cons_append]

theorem reports_moved (front before : Text) (l : Lexeme) :
    reports ⟨front ++ before, l⟩ = (reports ⟨before, l⟩).map (·.moved (Text.byteSize front)) := by
  unfold reports
  split_ifs
  · simp [Diagnostic.report, Diagnostic.moved, Span.moved, span, Nat.add_assoc]
  · simp [Diagnostic.report, Diagnostic.moved, Span.moved, span, Nat.add_assoc]
  · rfl

/-- What is reported about pieces behind other text is moved on by that text. -/
theorem flatMap_reports_moved (front before : Text) (ls : List Lexeme) :
    (place (front ++ before) ls).flatMap reports =
      ((place before ls).flatMap reports).map (·.moved (Text.byteSize front)) := by
  induction ls generalizing before with
  | nil => rfl
  | cons l ls ih =>
    rw [place, place, List.flatMap_cons, List.flatMap_cons, List.map_append, List.append_assoc, ih,
      reports_moved]

end PlacedLexeme

namespace TokenStream

open Lexeme PlacedLexeme

variable {front back : Text}

/-- **No comment is opened**: no slash touches a star behind it. -/
def NoOpenComment (s : TokenStream) : Prop :=
  s.tokens.IsChain fun t u =>
    ¬ (s.text t = .ok ['/'] ∧ s.text u = .ok ['*'] ∧ t.span.stop = u.span.start)

instance (s : TokenStream) : Decidable s.NoOpenComment :=
  inferInstanceAs (Decidable (List.IsChain _ s.tokens))

/-- Between two pieces there is nothing, so a slash in front of a star touches it. -/
theorem isChain_scan_of_noOpenComment (h : (lex front).NoOpenComment) :
    (scan front).IsChain fun l m => ¬ (l.text = ['/'] ∧ m.text = ['*']) := by
  refine List.isChain_iff_forall_rel_of_append_cons_cons.mpr ?_
  rintro l m as bs hscan ⟨hslash, hstar⟩
  obtain rfl : l = ⟨.op, ['/']⟩ :=
    eq_of_text_singleton (t := front) (by simp [hscan]) hslash rfl
  obtain rfl : m = ⟨.op, ['*']⟩ :=
    eq_of_text_singleton (t := front) (by simp [hscan]) hstar rfl
  have hfront : front = as.flatMap Lexeme.text ++ ['/'] ++ ('*' :: bs.flatMap Lexeme.text) := by
    rw [← flatMap_text_scan front, hscan]
    simp
  have hstar' : front = (as.flatMap Lexeme.text ++ ['/']) ++ ['*'] ++ bs.flatMap Lexeme.text := by
    rw [hfront]
    simp
  rw [NoOpenComment, tokens_lex, hscan, tokensOf_append] at h
  refine (List.isChain_append_cons_cons.mp h).2.1 ⟨text_token hfront _ _, text_token hstar' _ _, ?_⟩
  simp [token, span]

variable (hsound : ∀ l ∈ scan front, Sound l) (hcomment : (lex front).NoOpenComment)

include hsound hcomment in
theorem scan_append_of_sound (back : Text) :
    scan (front ++ '\n' :: back) = scan front ++ ⟨.newline, ['\n']⟩ :: scan back :=
  scan_append_newline hsound (isChain_scan_of_noOpenComment hcomment) back

include hsound hcomment in
/-- **The tokens of two sources**, one behind the other. -/
theorem tokens_append (back : Text) :
    (lex (front ++ '\n' :: back)).tokens = (lex front).tokens ++
      (lex back).tokens.map (·.moved (Text.byteSize front + 1) (Text.lineBreaks front + 1)) := by
  have hscan : scan (front ++ '\n' :: back) =
      [] ++ scan front ++ (⟨.newline, ['\n']⟩ :: scan back) :=
    scan_append_of_sound hsound hcomment back
  have hparts : scan (front ++ '\n' :: back) =
      (scan front ++ [⟨.newline, ['\n']⟩]) ++ scan back ++ [] := by
    rw [hscan]
    simp
  have hfront := tokensOf_part hscan
  have hback := tokensOf_part hparts
  rw [flatMap_text_scan, List.map_congr_left fun t _ => t.moved_zero, List.map_id'] at hfront
  rw [List.flatMap_append, flatMap_text_scan, flatMap_text_scan, List.flatMap_singleton,
    Text.byteSize_append, Text.lineBreaks_append] at hback
  rw [tokens_lex, hscan, List.nil_append, tokensOf_append, flatMap_text_scan, tokensOf]
  exact congrArg₂ (· ++ ·) hfront hback

include hsound hcomment in
/-- **The lexemes of two sources**, one behind the other. -/
theorem significant_append (back : Text) :
    significant (front ++ '\n' :: back) = significant front ++ significant back := by
  rw [significant, scan_append_of_sound hsound hcomment, List.filter_append,
    List.filter_cons_of_neg (by decide)]
  rfl

include hsound hcomment in
/-- **The reports of two sources**, one behind the other. -/
theorem lexDiagnostics_append (back : Text) :
    lexDiagnostics (front ++ '\n' :: back) = lexDiagnostics front ++
      (lexDiagnostics back).map (·.moved (Text.byteSize front + 1)) := by
  have hback := flatMap_reports_moved (front ++ ['\n']) [] (scan back)
  rw [List.append_nil, Text.byteSize_append] at hback
  rw [lexDiagnostics_eq, scan_append_of_sound hsound hcomment, place_append, List.flatMap_append,
    flatMap_text_scan, lexDiagnostics_eq, lexDiagnostics_eq, place, List.flatMap_cons]
  exact congrArg _ hback

end TokenStream
end GrammarAtlas
