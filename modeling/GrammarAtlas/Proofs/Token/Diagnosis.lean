import GrammarAtlas.Proofs.Lexeme.Balance
import GrammarAtlas.Proofs.Token.Append
import GrammarAtlas.Proofs.Token.Layout
import GrammarAtlas.Proofs.Token.Tiling

/-!
# Reports and tokens

Every report of lexing is about a token, and can be told from the tokens alone: each garbage
token is reported with its text, and a block that never closes is reported at its brace
(`lexDiagnostics_match_tokens`).

Lexing emits a report where the piece stands that it is about, so reports keep the order of
the pieces.  A block that never closes takes all that is behind it; hence there is at most
one, behind all garbage.
-/

namespace GrammarAtlas

/-- The text that one diagnostic is about ends before that of the other begins. -/
def Diagnostic.InFront (d e : Diagnostic) : Prop :=
  ∃ r r', d.range = some r ∧ e.range = some r' ∧ r.stop ≤ r'.start

/-- The message about garbage names its text. -/
theorem DiagnosticKind.message_unexpectedCharacter (text : Text) :
    message .unexpectedCharacter (some ("`".toList ++ text ++ "`".toList)) =
      "unexpected character: `".toList ++ text ++ "`".toList := by
  have hwords : "unexpected character: `".toList =
      "unexpected character".toList ++ ": ".toList ++ "`".toList := by decide
  show "unexpected character".toList ++ ": ".toList ++ ("`".toList ++ text ++ "`".toList) ++ [] = _
  rw [hwords]
  simp only [List.append_assoc, List.append_nil]

/-- A block without its closing brace. -/
def Lexeme.IsOpen (l : Lexeme) : Prop :=
  l.kind = .block ∧ PlacedLexeme.isClosed l.text = false

theorem Lexeme.IsOpen.ne_garbage {l : Lexeme} (h : l.IsOpen) : l.kind ≠ .garbage := by
  rw [h.1]
  decide

theorem Lexeme.IsOpen.not_isTrivia {l : Lexeme} (h : l.IsOpen) : ¬ l.kind.isTrivia = true := by
  rw [h.1]
  decide

namespace PlacedLexeme

open Lexeme

variable {before : Text} {l : Lexeme} {ls : List Lexeme} {lines : LineIndex} {t : Token}
  {d : Diagnostic}

theorem reports_of_isOpen {p : PlacedLexeme} (h : p.lexeme.IsOpen) :
    p.reports = [⟨.unterminatedBlock, some ⟨p.span.start, p.span.start + 1⟩,
      "unterminated `\x7b` block".toList⟩] := by
  rw [reports, if_neg h.ne_garbage]
  exact if_pos h

theorem reports_of_not_isOpen {p : PlacedLexeme} (hgarbage : p.lexeme.kind ≠ .garbage)
    (h : ¬ p.lexeme.IsOpen) : p.reports = [] := by
  rw [reports, if_neg hgarbage]
  exact if_neg h

/-- A token comes from a piece that is not trivia. -/
theorem exists_of_mem_tokens (ht : t ∈ tokensOf lines before ls) :
    ∃ as l bs, ls = as ++ l :: bs ∧ t = token lines ⟨before ++ as.flatMap text, l⟩ := by
  obtain ⟨i, hi⟩ := List.mem_iff_getElem?.mp ht
  obtain ⟨as, l, bs, hls, -, ht, -⟩ := exists_of_getElem?_tokensOf hi
  exact ⟨as, l, bs, hls, ht⟩

/-! ## The order of reports -/

/-- What is reported about a piece is about text in it. -/
theorem range_of_mem_reports {p : PlacedLexeme} (htext : p.lexeme.text ≠ []) (hd : d ∈ p.reports) :
    ∃ r, d.range = some r ∧ p.span.start ≤ r.start ∧ r.stop ≤ p.span.stop := by
  have hpos : 0 < Text.byteSize p.lexeme.text := TokenStream.byteSize_pos htext
  have hstop : p.span.stop = p.span.start + Text.byteSize p.lexeme.text := rfl
  rw [reports] at hd
  split_ifs at hd
  · obtain rfl := List.mem_singleton.mp hd
    exact ⟨p.span, rfl, le_rfl, le_rfl⟩
  · obtain rfl := List.mem_singleton.mp hd
    refine ⟨⟨p.span.start, p.span.start + 1⟩, rfl, le_rfl, ?_⟩
    show p.span.start + 1 ≤ p.span.stop
    omega
  · exact absurd hd List.not_mem_nil

/-- What is reported about pieces is about text behind what is in front of them. -/
theorem le_start_of_mem_flatMap_reports (htext : ∀ l ∈ ls, l.text ≠ [])
    (hd : d ∈ (place before ls).flatMap reports) :
    ∃ r, d.range = some r ∧ Text.byteSize before ≤ r.start := by
  induction ls generalizing before with
  | nil => cases hd
  | cons l ls ih =>
    obtain ⟨hl, hls⟩ := List.forall_mem_cons.mp htext
    rw [place, List.flatMap_cons, List.mem_append] at hd
    rcases hd with hd | hd
    · obtain ⟨r, hr, hstart, -⟩ := range_of_mem_reports hl hd
      exact ⟨r, hr, hstart⟩
    · obtain ⟨r, hr, hstart⟩ := ih hls hd
      rw [Text.byteSize_append] at hstart
      exact ⟨r, hr, by omega⟩

/-- **Reports are in order of position.** -/
theorem pairwise_inFront (before : Text) (htext : ∀ l ∈ ls, l.text ≠ []) :
    ((place before ls).flatMap reports).Pairwise Diagnostic.InFront := by
  induction ls generalizing before with
  | nil => exact .nil
  | cons l ls ih =>
    obtain ⟨hl, hls⟩ := List.forall_mem_cons.mp htext
    rw [place, List.flatMap_cons]
    refine List.pairwise_append.mpr ⟨?_, ih _ hls, fun d hd e he => ?_⟩
    · rw [reports]
      split_ifs
      · exact List.pairwise_singleton _ _
      · exact List.pairwise_singleton _ _
      · exact .nil
    · obtain ⟨r, hr, -, hstop⟩ := range_of_mem_reports hl hd
      obtain ⟨r', hr', hstart⟩ := le_start_of_mem_flatMap_reports hls he
      rw [Text.byteSize_append] at hstart
      exact ⟨r, r', hr, hr', hstop.trans hstart⟩

end PlacedLexeme

namespace TokenStream

open Lexeme PlacedLexeme

variable {source before after : Text} {l : Lexeme} {ls as bs : List Lexeme} {t : Token}

/-- The report on a garbage token: it covers the token and names its text. -/
def GarbageReport (s : TokenStream) (t : Token) (d : Diagnostic) : Prop :=
  ∃ text, s.text t = .ok text ∧ d = ⟨.unexpectedCharacter, some t.span,
    "unexpected character: `".toList ++ text ++ "`".toList⟩

/-- A block token with no brace that closes it. -/
def OpenBlock (s : TokenStream) (t : Token) : Prop :=
  t.kind = .block ∧
    ∃ inside, s.text t = .ok ('\x7b' :: inside) ∧ Block.NeverCloses (Text.utf8 inside)

/-- What is reported of blocks: if the last token is one that never closes, its opening brace;
otherwise nothing. -/
def BlockReports (s : TokenStream) (ds : Diagnostics) : Prop :=
  (∃ t, s.tokens.getLast? = some t ∧ s.OpenBlock t ∧ t.span.stop = Text.byteSize s.source ∧
    s.read ⟨t.span.start, t.span.start + 1⟩ = .ok ['\x7b'] ∧
    ds = [⟨.unterminatedBlock, some ⟨t.span.start, t.span.start + 1⟩,
      "unterminated `\x7b` block".toList⟩]) ∨
  ((∀ t ∈ s.tokens, ¬ s.OpenBlock t) ∧ ds = [])

/-- A block is closed just when a brace behind its first one closes it. -/
theorem isClosed_eq_false_iff (inside : Text) :
    isClosed ('\x7b' :: inside) = false ↔ Block.NeverCloses (Text.utf8 inside) := by
  have hscan : Block.scan 1 none (Text.utf8 inside) = (Block.cut 0 none inside).extent :=
    Block.scan_utf8 0 (by trivial : Block.IsQuote none) inside
  rw [← Block.closed_scan_eq_false_iff, hscan]
  rfl

/-- A piece is an open block just when its token is. -/
theorem openBlock_token_iff (hl : l ∈ scan source) (h : source = before ++ l.text ++ after)
    (lines : LineIndex) : (lex source).OpenBlock (token lines ⟨before, l⟩) ↔ l.IsOpen := by
  have htoken : (lex source).text (token lines ⟨before, l⟩) = .ok l.text := text_token h _ _
  constructor
  · rintro ⟨hblock, inside, htext, hnever⟩
    rw [htoken] at htext
    refine ⟨hblock, ?_⟩
    rw [Except.ok.inj htext]
    exact (isClosed_eq_false_iff inside).mpr hnever
  · rintro ⟨hblock, hopen⟩
    obtain ⟨inside, htext⟩ := exists_text_of_block hl hblock
    rw [htext] at hopen htoken
    exact ⟨hblock, inside, htoken, (isClosed_eq_false_iff inside).mp hopen⟩

/-- **Where no block is open, garbage is all that is reported**, each with its token. -/
theorem forall₂_garbageReport (h : source = before ++ ls.flatMap Lexeme.text ++ after)
    (hopen : ∀ l ∈ ls, ¬ l.IsOpen) (lines : LineIndex) :
    List.Forall₂ (lex source).GarbageReport
      ((tokensOf lines before ls).filter (·.kind = .garbage))
      ((place before ls).flatMap reports) := by
  induction ls generalizing before with
  | nil => exact .nil
  | cons l ls ih =>
    obtain ⟨hl, hls⟩ := List.forall_mem_cons.mp hopen
    rw [List.flatMap_cons, ← List.append_assoc] at h
    have ih := ih h hls
    rw [tokensOf, place, List.flatMap_cons]
    by_cases hgarbage : l.kind = .garbage
    · have hpiece : source = before ++ l.text ++ (ls.flatMap Lexeme.text ++ after) := by
        rw [h, List.append_assoc _ _ after]
      have htrivia : ¬ l.kind.isTrivia = true := by
        rw [hgarbage]
        decide
      have hreports : reports ⟨before, l⟩ = [⟨.unexpectedCharacter, some (span ⟨before, l⟩),
          "unexpected character: `".toList ++ l.text ++ "`".toList⟩] := by
        rw [reports, if_pos hgarbage, Diagnostic.report,
          DiagnosticKind.message_unexpectedCharacter]
      rw [if_neg htrivia, List.filter_cons_of_pos (by exact decide_eq_true hgarbage), hreports]
      exact .cons ⟨l.text, text_token hpiece _ _, rfl⟩ ih
    · rw [reports_of_not_isOpen hgarbage hl, List.nil_append]
      split
      · exact ih
      · rwa [List.filter_cons_of_neg (by exact mt of_decide_eq_true hgarbage)]

/-- **Only the last piece may be an open block.** -/
theorem exists_split_of_open (source : Text) : ∃ front back, scan source = front ++ back ∧
    (∀ l ∈ front, ¬ l.IsOpen) ∧ (back = [] ∨ ∃ l, back = [l] ∧ l.IsOpen) := by
  have hnotOpen {l : Lexeme} (hl : l.kind ≠ .garbage → Sound l) : ¬ l.IsOpen := by
    rintro ⟨hblock, hopen⟩
    have hsound := (hl (by rw [hblock]; decide)).2 hblock
    rw [isClosed_eq] at hopen
    exact Bool.false_ne_true (hopen.symm.trans hsound)
  have hsound := pairwise_sound_scan source
  rcases List.eq_nil_or_concat (scan source) with hnil | ⟨front, l, hscan⟩
  · exact ⟨[], [], hnil, nofun, .inl rfl⟩
  rw [hscan, List.concat_eq_append] at hsound
  have hfront : ∀ m ∈ front, ¬ m.IsOpen := fun m hm =>
    hnotOpen ((List.pairwise_append.mp hsound).2.2 m hm l List.mem_cons_self)
  by_cases hl : l.IsOpen
  · exact ⟨front, [l], hscan.trans List.concat_eq_append, hfront, .inr ⟨l, rfl, hl⟩⟩
  · refine ⟨front ++ [l], [], by simp [hscan], ?_, .inl rfl⟩
    exact List.forall_mem_append.mpr ⟨hfront, List.forall_mem_singleton.mpr hl⟩

/-- Where no piece is an open block, no token is one. -/
theorem not_openBlock_of_mem (hopen : ∀ l ∈ scan source, ¬ l.IsOpen) :
    ∀ t ∈ (lex source).tokens, ¬ (lex source).OpenBlock t := by
  intro t ht hblock
  rw [tokens_lex] at ht
  obtain ⟨as, l, bs, hscan, rfl⟩ := exists_of_mem_tokens ht
  have hl : l ∈ scan source := by simp [hscan]
  have hsource : source = [] ++ as.flatMap Lexeme.text ++ l.text ++ bs.flatMap Lexeme.text := by
    rw [← flatMap_text_scan source, hscan]
    simp
  exact hopen l hl ((openBlock_token_iff hl hsource _).mp hblock)

/-- What is reported of the last piece, if it is an open block. -/
theorem blockReports_of_isOpen (hscan : scan source = as ++ [l]) (hopen : l.IsOpen) :
    (lex source).BlockReports (reports ⟨as.flatMap Lexeme.text, l⟩) := by
  have hl : l ∈ scan source := by simp [hscan]
  have hsource : source = as.flatMap Lexeme.text ++ l.text := by
    rw [← flatMap_text_scan source, hscan]
    simp
  refine .inl ⟨token (.ofSource source) ⟨as.flatMap Lexeme.text, l⟩, ?_, ?_, ?_, ?_,
    reports_of_isOpen hopen⟩
  · rw [tokens_lex, hscan, tokensOf_append, tokensOf, if_neg hopen.not_isTrivia, tokensOf]
    exact List.getLast?_concat
  · have hpiece : source = as.flatMap Lexeme.text ++ l.text ++ [] := by rw [hsource]; simp
    exact (openBlock_token_iff hl hpiece _).mpr hopen
  · show Text.byteSize (as.flatMap Lexeme.text) + Text.byteSize l.text = Text.byteSize source
    rw [hsource, Text.byteSize_append]
  · obtain ⟨inside, htext⟩ := exists_text_of_block hl hopen.1
    have hbrace : source = as.flatMap Lexeme.text ++ ['\x7b'] ++ inside := by
      rw [hsource, htext]
      simp
    have hread := text_token (l := ⟨.op, ['\x7b']⟩) hbrace (lex source).tokens (.ofSource source)
    exact hread

/-- **The reports of lexing match the tokens**, in order of position: one for each garbage
token, which covers it and names its text, and one for the opening brace of the last token, if
that is a block which never closes. -/
theorem lexDiagnostics_match_tokens (source : Text) :
    (lexDiagnostics source).Pairwise Diagnostic.InFront ∧
      ∃ garbage block, lexDiagnostics source = garbage ++ block ∧
        List.Forall₂ (lex source).GarbageReport
          ((lex source).tokens.filter (·.kind = .garbage)) garbage ∧
        (lex source).BlockReports block := by
  obtain ⟨front, back, hscan, hfront, hback⟩ := exists_split_of_open source
  have hsource : source = [] ++ front.flatMap Lexeme.text ++ back.flatMap Lexeme.text := by
    rw [← flatMap_text_scan source, hscan, List.flatMap_append, List.nil_append]
  have hgarbage := forall₂_garbageReport hsource hfront (.ofSource source)
  rw [lexDiagnostics_eq]
  refine ⟨pairwise_inFront [] (text_ne_nil_of_mem_scan source), ?_⟩
  rcases hback with rfl | ⟨l, rfl, hopen⟩
  · rw [List.append_nil] at hscan
    rw [← hscan] at hgarbage hfront
    refine ⟨_, [], (List.append_nil _).symm, ?_, .inr ⟨not_openBlock_of_mem hfront, rfl⟩⟩
    rwa [tokens_lex]
  · refine ⟨(place [] front).flatMap reports, reports ⟨front.flatMap Lexeme.text, l⟩, ?_, ?_,
      blockReports_of_isOpen hscan hopen⟩
    · rw [hscan, place_append, List.flatMap_append, List.nil_append]
      simp [place]
    · rw [tokens_lex, hscan, tokensOf_append, List.filter_append, List.nil_append, tokensOf,
        if_neg hopen.not_isTrivia,
        List.filter_cons_of_neg (by exact mt of_decide_eq_true hopen.ne_garbage), tokensOf,
        List.filter_nil, List.append_nil]
      exact hgarbage

end TokenStream
end GrammarAtlas
