import GrammarAtlas.Proofs.Grammar.Append

/-!
# Sections without a block

The sign `@` and a name open a section, and the section reaches through its block.  If the
block is missing, what comes next belongs to something else, say to a rule.  The section then
ends at the rule's colon at the latest, but that is too late for the rule: its name is one of
the tokens that are passed over.  So the rule is lost, whatever it looks like
(`parse_behind_section`), and the scan goes on inside it (`parse_misses_rule`).

The rules and the reports of the whole are those that the scan of the other source finds from
the end of the section on, since that source stands inside the whole, two tokens further on.
-/

namespace GrammarAtlas

namespace Lexeme

/-- An identifier: a letter or an underscore, with letters, digits and underscores behind it. -/
def isIdentifier : Text → Bool
  | [] => false
  | c :: t => startsId c && t.all continuesId

variable {n : Text}

theorem scan_identifier (hn : isIdentifier n) : scan n = [⟨.id, n⟩] := by
  cases n with
  | nil => exact absurd hn Bool.false_ne_true
  | cons c t =>
    rw [isIdentifier, Bool.and_eq_true, List.all_eq_true] at hn
    obtain ⟨hc, ht⟩ := hn
    have hpiece : piece c (t ++ []) = (⟨.id, c :: t⟩, []) := by
      have hbrace : c ≠ '\x7b' := by
        rintro rfl
        exact absurd hc (by decide)
      rw [piece_eq_next hbrace, next, if_pos hc]
      exact run_eq ht nofun
    have hscan := scan_cons_of_piece hpiece (by decide)
    rwa [List.append_nil, scan] at hscan

/-- The sign and the name of a section. -/
theorem scan_section (hn : isIdentifier n) : scan ('@' :: n) = [⟨.atSign, ['@']⟩, ⟨.id, n⟩] := by
  have hpiece : piece '@' ([] ++ n) = (⟨.atSign, ['@']⟩, n) := by
    cases n <;> rfl
  have hscan := scan_cons_of_piece hpiece (by decide)
  rwa [scan_identifier hn] at hscan

end Lexeme

namespace TokenStream

open Lexeme PlacedLexeme

variable {s : TokenStream} {t : Token} {i k stop : Nat} {n : Text}

/-- An action takes in a token that does not end it. -/
theorem ActionEnd.lt (h : s.ActionEnd i stop) (ht : s.get? i = some t)
    (hmark : t.kind ≠ .semi ∧ t.kind ≠ .colon) : i < stop := by
  cases h with
  | block hij _ _ _ => exact Nat.lt_succ_of_le hij
  | @mark j u hij hu hkind _ =>
    refine Nat.lt_of_le_of_ne hij ?_
    rintro rfl
    obtain rfl : t = u := Option.some.inj (ht.symm.trans hu)
    exact hkind.elim hmark.1 hmark.2
  | missing _ => exact lt_of_get? ht

/-- An action does not get past a colon. -/
theorem ActionEnd.le_colon (h : s.ActionEnd i stop) (hik : i ≤ k) (ht : s.get? k = some t)
    (hcolon : t.kind = .colon) : stop ≤ k := by
  have hle {j : Nat} (hunmarked : s.Unmarked i j) : j ≤ k := by
    refine Nat.le_of_not_lt fun hlt => ?_
    exact (hunmarked k t hik hlt ht).2.2 hcolon
  cases h with
  | @block j u _ hu hblock hunmarked =>
    refine Nat.lt_of_le_of_ne (hle hunmarked) ?_
    rintro rfl
    obtain rfl : t = u := Option.some.inj (ht.symm.trans hu)
    exact absurd (hblock.symm.trans hcolon) (by decide)
  | mark _ _ _ hunmarked => exact hle hunmarked
  | missing hunmarked => exact hle hunmarked

/-- The tokens of a section without a block are its sign and its name. -/
theorem exists_tokens_section (hn : isIdentifier n) : ∃ a b : Token,
    (lex ('@' :: n)).tokens = [a, b] ∧ a.kind = .atSign ∧
      (lex ('@' :: n)).text a = .ok ['@'] ∧ b.kind = .id := by
  have hsign : '@' :: n = [] ++ ['@'] ++ n := rfl
  refine ⟨token (.ofSource ('@' :: n)) ⟨[], ⟨.atSign, ['@']⟩⟩,
    token (.ofSource ('@' :: n)) ⟨['@'], ⟨.id, n⟩⟩, ?_, rfl, text_token hsign _ _, rfl⟩
  rw [tokens_lex, scan_section hn]
  rfl

theorem sound_section (hn : isIdentifier n) : ∀ l ∈ scan ('@' :: n), l.Sound := by
  rw [scan_section hn]
  refine List.forall_mem_cons.mpr ⟨⟨by decide, nofun⟩, ?_⟩
  exact List.forall_mem_singleton.mpr ⟨by simp, nofun⟩

theorem noOpenComment_section (hn : isIdentifier n) : (lex ('@' :: n)).NoOpenComment := by
  obtain ⟨a, b, htokens, -, htext, -⟩ := exists_tokens_section hn
  rw [NoOpenComment, htokens, List.isChain_pair, htext]
  rintro ⟨hslash, -⟩
  exact absurd hslash (by decide)

end TokenStream

namespace Grammar

open TokenStream Lexeme

variable {n rest : Text} {stop : Nat} {visits : List Visit}

/-- **A source behind a section without a block**, which ends in front of the token `stop` of
the source.  The rules and the reports of the whole are those that the scan finds from there
on; a rule that starts at the first token of the source is none of them. -/
structure BehindSection (rest whole : Text) (bytes stop : Nat) (visits : List Visit) : Prop where
  section_end : (lex rest).ActionEnd 0 stop
  scan : (lex rest).scanFrom stop = .ok visits
  rules : (parse whole).1.rules.map Rule.unlinked =
    (visits.flatMap (·.rules)).map (·.moved 2)
  diagnostics : (parse whole).2 =
    (lexDiagnostics rest ++ visits.flatMap (·.reports)).map (·.moved bytes)
  swallowed : ∀ r ∈ (parse rest).1.rules, r.span.start = 0 →
    0 < stop ∧ stop ≤ r.span.colon ∧ ∀ r' ∈ (parse whole).1.rules, r'.span.start ≠ 2

/-- The source behind a section stands inside the whole, two tokens further on and up to the
end. -/
theorem inside_section (hn : isIdentifier n) (rest : Text) :
    Inside (fun a b => b = Text.byteSize ('@' :: n) + 1 + a) 2 (lex rest)
        (lex ('@' :: n ++ '\n' :: rest)) ∧
      (lex ('@' :: n ++ '\n' :: rest)).size = 2 + (lex rest).size := by
  obtain ⟨a, b, htokens, -⟩ := exists_tokens_section hn
  have hsize : (lex ('@' :: n)).size = 2 := congrArg List.length htokens
  rw [← hsize]
  exact ⟨inside_behind (sound_section hn) (noOpenComment_section hn) rest,
    size_append (sound_section hn) (noOpenComment_section hn) rest⟩

/-- The look at the sign passes over the name and goes on where the section ends. -/
theorem visit_section (hn : isIdentifier n) (rest : Text) :
    ∃ t, (lex ('@' :: n ++ '\n' :: rest)).get? 0 = some t ∧
      (lex ('@' :: n ++ '\n' :: rest)).visit 0 t =
        .ok (⟨0, .action, [], []⟩, some (2 + (lex rest).skipThroughBlock 0)) := by
  obtain ⟨a, b, htokens, hsign, -, hname⟩ := exists_tokens_section hn
  obtain ⟨hinside, hfull⟩ := inside_section hn rest
  have hall := tokens_append (sound_section hn) (noOpenComment_section hn) rest
  rw [htokens] at hall
  have hfirst : (lex ('@' :: n ++ '\n' :: rest)).get? 0 = some a := by rw [get?, hall]; rfl
  have hsecond : (lex ('@' :: n ++ '\n' :: rest)).get? 1 = some b := by rw [get?, hall]; rfl
  obtain ⟨text, htext, -⟩ := (readable_lex _).text (mem_of_get? hfirst)
  have hopening : (lex ('@' :: n ++ '\n' :: rest)).opening 0 a = .ok .action := by
    rw [opening, htext]
    exact if_pos hsign
  have hskip : (lex ('@' :: n ++ '\n' :: rest)).skipThroughBlock 1 =
      2 + (lex rest).skipThroughBlock 0 := by
    rw [skipThroughBlock_of_get? hsecond, hname, if_neg (by decide), if_neg (by decide)]
    exact hinside.skipThroughBlock (i := 0) (.inr hfull)
  refine ⟨a, hfirst, ?_⟩
  rw [visit, hopening]
  exact congrArg (fun j => Except.ok (_, some j)) hskip

/-- The rules of a scan that starts behind a section start behind it. -/
theorem le_start_of_mem_rules {whole : Text} (h : (lex rest).Scanned stop visits)
    (hrules : (parse whole).1.rules.map Rule.unlinked =
      (visits.flatMap (·.rules)).map (·.moved 2)) :
    ∀ r ∈ (parse whole).1.rules, 2 + stop ≤ r.span.start := by
  intro r hr
  have hmem : r.unlinked ∈ (visits.flatMap (·.rules)).map (·.moved 2) :=
    hrules ▸ List.mem_map_of_mem hr
  obtain ⟨r', hr', hmoved⟩ := List.mem_map.mp hmem
  obtain ⟨v, hv, hfound⟩ := List.mem_flatMap.mp hr'
  obtain ⟨-, hstart, -⟩ := h.rules v hv r' hfound
  have hindex := h.from_index v hv
  have hspan : r.span.start = 2 + r'.span.start := (congrArg (·.span.start) hmoved).symm
  omega

/-- **A section without a block swallows the rule behind it.**  The scan goes on at the rule's
colon or in front of it, but behind the rule's name. -/
theorem parse_behind_section (hn : isIdentifier n) (rest : Text) :
    ∃ stop visits, BehindSection rest ('@' :: n ++ '\n' :: rest) (Text.byteSize ('@' :: n) + 1)
      stop visits := by
  obtain ⟨hinside, hfull⟩ := inside_section hn rest
  have hend : (lex rest).ActionEnd 0 _ := actionEnd_skipThroughBlock (Nat.zero_le _)
  obtain ⟨visits, hscan, hscanned⟩ := scanFrom_yields (readable_lex rest) (forward_lex rest)
    ((lex rest).skipThroughBlock 0)
  obtain ⟨visits', hvisits', hcarried⟩ := hinside.scanFrom (readable_lex rest) (forward_lex rest)
    (readable_lex _) (forward_lex _) (skipThroughBlock_le (Nat.zero_le _)) hscan (.inl hfull)
    (scanFrom_of_size_le (Nat.le_of_eq hfull))
  obtain ⟨t, ht, hvisit⟩ := visit_section hn rest
  obtain ⟨_, _, hwhole, hreports, haccount⟩ := account_parse ('@' :: n ++ '\n' :: rest)
  rw [scanFrom_of_visit ht hvisit, hvisits', List.append_nil] at hwhole
  obtain rfl := Except.ok.inj hwhole
  have hrules : (parse ('@' :: n ++ '\n' :: rest)).1.rules.map Rule.unlinked =
      (visits.flatMap (·.rules)).map (·.moved 2) := by
    rw [haccount.rules, List.flatMap_cons, List.nil_append, rules_of_carried hcarried]
  refine ⟨_, visits, hend, hscan, hrules, ?_, fun r hr hstart => ?_⟩
  · have hmoved := Diagnostics.eq_map_moved (reports_of_carried hcarried)
    rw [hreports, haccount.reports, List.flatMap_cons, hmoved, List.nil_append,
      lexDiagnostics_append (sound_section hn) (noOpenComment_section hn),
      lexDiagnostics_eq_nil (sound_section hn), List.map_append]
    rfl
  · obtain ⟨_, _, -, -, haccount'⟩ := account_parse rest
    have hdelimits := haccount'.delimited r hr
    obtain ⟨u, hu, hid, -⟩ := hdelimits.name_at_start
    rw [hstart] at hu
    have hpos := hend.lt hu (by rw [hid]; decide)
    obtain ⟨w, hw⟩ := exists_get? (Nat.lt_trans hdelimits.colon_lt_stop hdelimits.stop_lt_size)
    have htext := (textAt_of_get? hw).symm.trans hdelimits.colon_at_colon
    have hcolon : w.kind = .colon := kind_of_text_singleton rfl hw htext
    refine ⟨hpos, hend.le_colon (Nat.zero_le _) hw hcolon, fun r' hr' => ?_⟩
    have hle := le_start_of_mem_rules hscanned hrules r' hr'
    omega

/-- Behind the section `@n`, a source that begins with a rule. -/
theorem parse_behind_section_rule :
    let rest := "a : b ; c : d ;".toList
    isIdentifier ['n'] ∧ (∃ r ∈ (parse rest).1.rules, r.span.start = 0) ∧
      ∃ stop visits, BehindSection rest ('@' :: ['n'] ++ '\n' :: rest)
        (Text.byteSize ['@', 'n'] + 1) stop visits :=
  ⟨rfl, by decide +kernel, parse_behind_section rfl _⟩

/-- **The rule behind a section without a block is not found.**  By itself the rule `a` is; here
the scan starts again at its colon, and takes the call of `b` for a rule without a colon. -/
theorem parse_misses_rule :
    let rest := "a : b ;".toList
    let whole := '@' :: ['n'] ++ '\n' :: rest
    (parse rest).1.rules = [⟨['a'], ⟨0, 1, 3⟩, true, false, false, [], ⟨0, 0⟩⟩] ∧
      (parse rest).2 = [] ∧ (parse whole).1.rules = [] ∧
      (parse whole).2 = [.report .malformedRule (some ⟨7, 10⟩) (some ['b'])] := by
  decide +kernel

end Grammar
end GrammarAtlas
