import GrammarAtlas.Proofs.Grammar.Offsets
import GrammarAtlas.Proofs.Grammar.Steps
import GrammarAtlas.Proofs.Grammar.Views
import GrammarAtlas.Proofs.Token.Layout

/-!
# Reports on malformed rules

A report on a malformed rule says that the rule has no colon.  It is made where the scan has
found no colon, and also where it has found no semicolon, and it covers the text from the rule's
name through its semicolon or, failing that, through the last token.

No rule overlaps this text, since the scan goes on behind it (`Looks.pairwise_behind`).  But there
may be a colon in it, in two ways: the rule has one and only lacks its semicolon, or a `scope`
clause has one inside (`colons_of_malformed`).
-/

namespace GrammarAtlas

namespace TokenStream

variable {source : Text} {s : TokenStream} {i j k : Nat} {t u v : Token}

/-! ## The stretches of a scan -/

theorem ActionEnd.le (h : s.ActionEnd i j) (hi : i ≤ s.size) : i ≤ j := by
  cases h with
  | block hij _ _ _ => exact Nat.le_succ_of_le hij
  | mark hij _ _ _ => exact hij
  | missing _ => exact hi

/-- A rule ends behind its name. -/
theorem BoundsFrom.le {colon : Option Nat} {stop : Nat} (h : s.BoundsFrom i (colon, some stop)) :
    i ≤ stop := by
  cases h with
  | both hprelude _ hsemi =>
    have hle := hprelude.le
    have hle' := hsemi.le
    omega
  | uncoloned hprelude _ _ => exact hprelude.le

/-- A stretch has at least the token that is looked at. -/
theorem StretchEnd.lt {opening : Opening} (h : s.StretchEnd i opening j) (hi : i < s.size) :
    i < j := by
  cases h with
  | header hsemi => exact Nat.lt_succ_of_le hsemi.le
  | unendedHeader _ => exact hi
  | settings => omega
  | action hend => exact hend.le hi
  | modifier => omega
  | rule hbounds =>
    have hle := hbounds.le
    omega
  | stray => omega

variable {visits : List Visit}

theorem Looks.le_index (h : s.Looks i visits) : ∀ w ∈ visits, i ≤ w.index := by
  induction h with
  | done _ => exact nofun
  | unended _ hindex _ _ => exact List.forall_mem_singleton.mpr (Nat.le_of_eq hindex.symm)
  | next hi hindex hend _ ih =>
    refine List.forall_mem_cons.mpr ⟨Nat.le_of_eq hindex.symm, fun w hw => ?_⟩
    exact Nat.le_trans (Nat.le_of_lt (hend.lt hi)) (ih w hw)

/-- The look at `w` is behind what there is of the rule whose name is looked at in `v`. -/
def Behind (s : TokenStream) (v w : Visit) : Prop :=
  ∀ name bounds, v.opening = .rule name → s.BoundsFrom (v.index + 1) bounds →
    ∃ stop, bounds.2 = some stop ∧ stop < w.index

/-- **The scan goes on behind a rule**, whatever there is of it. -/
theorem Looks.pairwise_behind (hr : s.Readable) (h : s.Looks i visits) :
    visits.Pairwise s.Behind := by
  induction h with
  | done _ => exact .nil
  | unended _ _ _ _ => exact List.pairwise_singleton _ _
  | @next i j v visits _ hindex hend hrest ih =>
    refine List.pairwise_cons.mpr ⟨fun w hw name bounds hopening hbounds => ?_, ih⟩
    rw [hopening] at hend
    cases hend with
    | @rule _ colon stop hbounds' =>
      rw [hindex] at hbounds
      have hj := hrest.le_index w hw
      exact ⟨stop, congrArg Prod.snd (hbounds.unique hr hbounds'), hj⟩

/-! ## Colons -/

/-- A colon token is one with this text. -/
theorem kind_eq_colon_iff (ht : (lex source).get? k = some t) :
    t.kind = .colon ↔ (lex source).textAt k = .ok [':'] := by
  rw [textAt_of_get? ht]
  refine ⟨fun hkind => ?_, fun htext => kind_of_text_singleton (k := .colon) rfl ht htext⟩
  obtain ⟨text, hpattern, htext⟩ :=
    exists_text_mem_pattern ht (by rw [hkind]; decide) (by rw [hkind]; decide)
  rw [hkind] at hpattern
  rw [htext, show text = [':'] from hpattern]

/-- There is a colon inside a clause that starts at the first index or behind it, and the colon
is not behind the second one.  The clause may lack its semicolon. -/
def ClauseColon (s : TokenStream) (i last : Nat) : Prop :=
  ∃ start k, i ≤ start ∧ s.OpensClause start ∧ start < k ∧ k ≤ last ∧ s.textAt k = .ok [':'] ∧
    ∀ m, start < m → m < k → s.textAt m ≠ .ok [';']

theorem ColonInClause.clauseColon {stop last : Nat} (h : s.ColonInClause i stop)
    (hlast : stop ≤ last + 1) : s.ClauseColon i last := by
  obtain ⟨start, semi, k, hstart, hopens, hfirst, hsemi, hk, hk', htext⟩ := h
  refine ⟨start, k, hstart, hopens, hk, by omega, htext, fun m hm hm' => ?_⟩
  exact hfirst.none_before m hm (by omega)

/-- **Where a colon may stand in a rule without one.**  Behind a name without a colon of its own,
a colon is one of a clause. -/
theorem BoundsFrom.clauseColon {stop : Option Nat} (h : s.BoundsFrom i (none, stop))
    (hik : i ≤ k) (hk : k ≤ stop.getD (s.size - 1)) (htext : s.textAt k = .ok [':']) :
    s.ClauseColon i (stop.getD (s.size - 1)) := by
  have hsize : k < s.size := lt_size_of_textAt htext (List.cons_ne_nil _ _)
  cases h with
  | @uncoloned stop hprelude _ hsemi =>
    have hne : k ≠ stop := by
      rintro rfl
      exact absurd (Except.ok.inj (htext.symm.trans hsemi)) (by decide)
    exact (hprelude.colonInClause hik (Nat.lt_of_le_of_ne hk hne) htext).clauseColon (by simp)
  | @unendedClause j hprelude hopens hnone =>
    rcases Nat.lt_trichotomy k j with hlt | rfl | hlt
    · obtain ⟨_, hnext, -⟩ := hopens.2
      have hj := Nat.lt_of_succ_lt (lt_of_get? hnext)
      exact (hprelude.colonInClause hik hlt htext).clauseColon (by simp; omega)
    · exact absurd (Except.ok.inj (htext.symm.trans hopens.1)) (by decide)
    · exact ⟨j, k, hprelude.le, hopens, hlt, hk, htext, fun m hm hm' => hnone m hm (by omega)⟩
  | neither hprelude => exact (hprelude.colonInClause hik hsize htext).clauseColon (by simp; omega)

/-- Tokens of a source start in their order. -/
theorem start_le_start_iff (ht : (lex source).get? i = some t) (hu : (lex source).get? j = some u) :
    t.span.start ≤ u.span.start ↔ i ≤ j := by
  refine ⟨fun hle => Nat.le_of_not_lt fun hlt => ?_, fun hle => ?_⟩
  · have hroom := start_lt_stop_of_mem_lex (mem_of_get? hu)
    have hfront := stop_le_start_of_get? hu ht hlt
    omega
  · rcases Nat.eq_or_lt_of_le hle with rfl | hlt
    · rw [Option.some.inj (ht.symm.trans hu)]
    · have hroom := start_lt_stop_of_mem_lex (mem_of_get? ht)
      have hfront := stop_le_start_of_get? ht hu hlt
      omega

/-- Tokens of a source stop in their order. -/
theorem stop_le_stop_iff (ht : (lex source).get? i = some t) (hu : (lex source).get? j = some u) :
    t.span.stop ≤ u.span.stop ↔ i ≤ j := by
  refine ⟨fun hle => Nat.le_of_not_lt fun hlt => ?_, fun hle => ?_⟩
  · have hroom := start_lt_stop_of_mem_lex (mem_of_get? ht)
    have hfront := stop_le_start_of_get? hu ht hlt
    omega
  · rcases Nat.eq_or_lt_of_le hle with rfl | hlt
    · rw [Option.some.inj (ht.symm.trans hu)]
    · have hroom := start_lt_stop_of_mem_lex (mem_of_get? hu)
      have hfront := stop_le_start_of_get? ht hu hlt
      omega

/-! ## The reports -/

/-- Lexing reports nothing about rules. -/
theorem kind_ne_malformedRule {d : Diagnostic} (hd : d ∈ lexDiagnostics source) :
    d.kind ≠ .malformedRule := by
  rw [lexDiagnostics_eq] at hd
  obtain ⟨p, -, hd⟩ := List.mem_flatMap.mp hd
  rw [PlacedLexeme.reports] at hd
  split_ifs at hd
  · obtain rfl := List.mem_singleton.mp hd
    show DiagnosticKind.unexpectedCharacter ≠ _
    decide
  · obtain rfl := List.mem_singleton.mp hd
    show DiagnosticKind.unterminatedBlock ≠ _
    decide
  · exact absurd hd List.not_mem_nil

/-- **A report on a malformed rule**: its name stands at the index `i`, and of its two bounds one
is missing.  The report covers the text from the name through the semicolon, or through the last
token of all where there is none. -/
structure MalformedAt (s : TokenStream) (d : Diagnostic) (i : Nat) (name : Text)
    (bounds : Option Nat × Option Nat) (first last : Token) : Prop where
  starts : s.StartsRule i name
  behind : s.BoundsFrom (i + 1) bounds
  missing : bounds.1 = none ∨ bounds.2 = none
  first_at : s.get? i = some first
  last_at : s.get? (bounds.2.getD (s.size - 1)) = some last
  eq : d = ⟨.malformedRule, some ⟨first.span.start, last.span.stop⟩,
    "rule `".toList ++ name ++ "` has no `:`".toList⟩

end TokenStream

open TokenStream

variable {source name : Text} {s : TokenStream} {v : Visit} {d : Diagnostic} {i : Nat}
  {bounds : Option Nat × Option Nat} {first last : Token}

/-- What is reported on in a look is the rule whose name is looked at. -/
theorem Visit.Accounted.malformedAt (h : v.Accounted s) (hd : d ∈ v.reports) :
    v.rules = [] ∧ ∃ name bounds first last, v.opening = .rule name ∧
      s.MalformedAt d v.index name bounds first last := by
  by_cases hopening : ∃ name, v.opening = .rule name
  · obtain ⟨name, hname⟩ := hopening
    rcases h.rule name hname with ⟨_, _, _, _, -, -, -, -, hreports⟩ |
      ⟨bounds, range, hbounds, hmissing, hstart, hstop, hrules, hreports⟩
    · rw [hreports] at hd
      exact absurd hd List.not_mem_nil
    · rw [hreports] at hd
      obtain ⟨first, hfirst, hstart⟩ := Option.map_eq_some_iff.mp hstart
      obtain ⟨last, hlast, hstop⟩ := Option.map_eq_some_iff.mp hstop
      refine ⟨hrules, name, bounds, first, last, hname, (h.starts name).mp hname, hbounds,
        hmissing, hfirst, hlast, ?_⟩
      rw [List.mem_singleton.mp hd, hstart, hstop]
      rfl
  · rw [(h.other fun name hname => hopening ⟨name, hname⟩).2] at hd
    exact absurd hd List.not_mem_nil

namespace TokenStream.MalformedAt

/-- **Where the text of a malformed rule has a colon**: the rule has one, but no semicolon, or
there is one in a clause. -/
theorem colon_iff (h : (lex source).MalformedAt d i name bounds first last) :
    (∃ t ∈ (lex source).tokens, t.kind = .colon ∧ first.span.start ≤ t.span.start ∧
        t.span.stop ≤ last.span.stop) ↔
      bounds.1 ≠ none ∨
        (lex source).ClauseColon (i + 1) (bounds.2.getD ((lex source).size - 1)) := by
  have hcovered {k : Nat} (hik : i ≤ k) (hk : k ≤ bounds.2.getD ((lex source).size - 1))
      (htext : (lex source).textAt k = .ok [':']) :
      ∃ t ∈ (lex source).tokens, t.kind = .colon ∧ first.span.start ≤ t.span.start ∧
        t.span.stop ≤ last.span.stop := by
    obtain ⟨t, ht⟩ := exists_get? (lt_size_of_textAt htext (List.cons_ne_nil _ _))
    exact ⟨t, mem_of_get? ht, (kind_eq_colon_iff ht).mpr htext,
      (start_le_start_iff h.first_at ht).mpr hik, (stop_le_stop_iff ht h.last_at).mpr hk⟩
  obtain ⟨colon, stop⟩ := bounds
  constructor
  · rintro ⟨t, ht, hkind, hstart, hstop⟩
    obtain ⟨k, hk⟩ := List.mem_iff_getElem?.mp ht
    have htext := (kind_eq_colon_iff hk).mp hkind
    have hne : i ≠ k := by
      rintro rfl
      have hid := (h.starts.of_get? hk).1
      exact absurd (hid.symm.trans hkind) (by decide)
    have hik := Nat.lt_of_le_of_ne ((start_le_start_iff h.first_at hk).mp hstart) hne
    cases colon with
    | some colon => exact .inl nofun
    | none => exact .inr (h.behind.clauseColon hik ((stop_le_stop_iff hk h.last_at).mp hstop) htext)
  · rintro (hcolon | ⟨start, k, hstart, -, hk, hlast, htext, -⟩)
    · cases h.behind with
      | both _ _ _ => exact absurd h.missing (by simp)
      | @unended colon hprelude htext _ =>
        have hsize := lt_size_of_textAt htext (List.cons_ne_nil _ _)
        exact hcovered (Nat.le_of_succ_le hprelude.le) (Nat.le_sub_one_of_lt hsize) htext
      | uncoloned _ _ _ => exact absurd rfl hcolon
      | unendedClause _ _ _ => exact absurd rfl hcolon
      | neither _ => exact absurd rfl hcolon
    · exact hcovered (by omega) hlast htext

end TokenStream.MalformedAt

namespace Grammar

/-- A source is scanned without a fault, and its rules and the reports on them are those of the
looks. -/
theorem exists_scanned_parse (source : Text) : ∃ visits, (lex source).Scanned 0 visits ∧
    (parse source).1.rules.map Rule.unlinked = visits.flatMap (·.rules) ∧
    (parse source).2 = lexDiagnostics source ++ visits.flatMap (·.reports) := by
  obtain ⟨visits, ds, hscan, hreports, haccount⟩ := account_parse source
  obtain ⟨_, hscan', hscanned⟩ := scanFrom_yields (readable_lex source) (forward_lex source) 0
  obtain rfl := Except.ok.inj (hscan.symm.trans hscan')
  exact ⟨visits, hscanned, haccount.rules, haccount.reports ▸ hreports⟩

/-- A rule that a look has found ends in front of a malformed one, or starts behind it. -/
theorem apart_of_scanned {visits : List Visit} (hr : s.Readable) (h : s.Scanned 0 visits)
    {w : Visit} {r : Rule} (hv : v ∈ visits) (hw : w ∈ visits) (hrules : v.rules = [])
    (hopening : v.opening = .rule name) (hbounds : s.BoundsFrom (v.index + 1) bounds)
    (hfound : r ∈ w.rules) :
    r.span.stop < v.index ∨ ∃ stop, bounds.2 = some stop ∧ stop < r.span.start := by
  obtain ⟨a, ha, rfl⟩ := List.mem_iff_getElem.mp hv
  obtain ⟨b, hb, rfl⟩ := List.mem_iff_getElem.mp hw
  rcases Nat.lt_trichotomy a b with hlt | rfl | hlt
  · have hbehind := List.pairwise_iff_getElem.mp (h.looks.pairwise_behind hr) a b ha hb hlt
    rw [(h.rules _ hw r hfound).2.1]
    exact .inr (hbehind name bounds hopening hbounds)
  · rw [hrules] at hfound
    exact absurd hfound List.not_mem_nil
  · exact .inl (List.pairwise_iff_getElem.mp h.disjoint b a hb ha hlt r hfound)

/-- **Reports on malformed rules** overlap no rule.  But what they say, that there is no colon, is
not so: there is one just when the rule has one and only lacks its semicolon, or when a clause has
one inside. -/
theorem colons_of_malformed (source : Text) :
    ∀ d ∈ (parse source).2, d.kind = .malformedRule → ∃ i name bounds first last,
      (lex source).MalformedAt d i name bounds first last ∧
      (∀ r ∈ (parse source).1.rules, r.stopOffset (lex source) ≤ first.span.start ∨
        last.span.stop ≤ r.startOffset (lex source)) ∧
      ((∃ t ∈ (lex source).tokens, t.kind = .colon ∧ first.span.start ≤ t.span.start ∧
          t.span.stop ≤ last.span.stop) ↔
        bounds.1 ≠ none ∨
          (lex source).ClauseColon (i + 1) (bounds.2.getD ((lex source).size - 1))) := by
  intro d hd hkind
  obtain ⟨visits, hscanned, hrules, hreports⟩ := exists_scanned_parse source
  rw [hreports] at hd
  rcases List.mem_append.mp hd with hd | hd
  · exact absurd hkind (kind_ne_malformedRule hd)
  obtain ⟨v, hv, hd⟩ := List.mem_flatMap.mp hd
  obtain ⟨hnone, name, bounds, first, last, hopening, h⟩ :=
    (hscanned.accounted v hv).malformedAt hd
  refine ⟨v.index, name, bounds, first, last, h, fun r hr => ?_, h.colon_iff⟩
  obtain ⟨w, hw, hfound⟩ := List.mem_flatMap.mp (hrules ▸ List.mem_map_of_mem hr)
  obtain ⟨nameToken, colon, semi, hstands⟩ :=
    Rule.StandsIn.of_delimits (hscanned.rules w hw _ hfound).1
  rcases apart_of_scanned (readable_lex source) hscanned hv hw hnone hopening h.behind hfound with
    hlt | ⟨stop, hstop, hlt⟩
  · refine .inl ?_
    show r.unlinked.stopOffset (lex source) ≤ _
    rw [hstands.rule_stop]
    exact stop_le_start_of_get? hstands.semi_at h.first_at hlt
  · refine .inr ?_
    show _ ≤ r.unlinked.startOffset (lex source)
    rw [hstands.rule_start]
    have hlast := h.last_at
    rw [hstop] at hlast
    exact stop_le_start_of_get? hlast hstands.name_at hlt

/-- A colon inside a clause, and behind it a rule that lacks its semicolon. -/
theorem colons_of_malformed_clause :
    let source := "a scope b : ; ; c : d".toList
    let d : Diagnostic := ⟨.malformedRule, some ⟨0, 15⟩, "rule `a` has no `:`".toList⟩
    d ∈ (parse source).2 ∧ d.kind = .malformedRule ∧ ∃ i name bounds first last,
      (lex source).MalformedAt d i name bounds first last ∧
      (∀ r ∈ (parse source).1.rules, r.stopOffset (lex source) ≤ first.span.start ∨
        last.span.stop ≤ r.startOffset (lex source)) ∧
      ((∃ t ∈ (lex source).tokens, t.kind = .colon ∧ first.span.start ≤ t.span.start ∧
          t.span.stop ≤ last.span.stop) ↔
        bounds.1 ≠ none ∨
          (lex source).ClauseColon (i + 1) (bounds.2.getD ((lex source).size - 1))) := by
  intro source d
  have hd : d ∈ (parse source).2 := by decide +kernel
  exact ⟨hd, rfl, colons_of_malformed source d hd rfl⟩

/-- **A rule that lacks its semicolon is said to have no colon**, although it has one. -/
theorem malformed_with_colon :
    (parse "a : b".toList).2 =
        [⟨.malformedRule, some ⟨0, 5⟩, "rule `a` has no `:`".toList⟩] ∧
      (⟨.colon, ⟨2, 3⟩, 0, 0⟩ : Token) ∈ (lex "a : b".toList).tokens := by
  decide +kernel

end Grammar
end GrammarAtlas
