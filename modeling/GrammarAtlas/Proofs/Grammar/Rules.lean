import GrammarAtlas.Grammar.Basic
import GrammarAtlas.Proofs.Grammar.Scan
import GrammarAtlas.Proofs.Token.Tiling

/-!
# The rules of a grammar

A grammar has the rules that the scan of its stream has found, and linking adds
nothing to them but their references.  So the rules are delimited and disjoint,
and each look at a rule's name can be told by one rule or by one report
(`ofStream_accounts_for_names`).

The tokens of a source can be read and stand in order, so parsing a source never
meets a fault (`account_parse`).
-/

namespace GrammarAtlas

/-- The rule as the scan has found it, without references. -/
def Rule.unlinked (r : Rule) : Rule := { r with references := {} }

/-- A look at its name finds the rule: the name opens one there, its bounds are those of the
span, and what is declared over the span is this rule. -/
structure Rule.FoundIn (r : Rule) (s : TokenStream) : Prop where
  opening : ∃ t, s.get? r.span.start = some t ∧ s.opening r.span.start t = .ok (.rule r.name)
  bounds : s.BoundsFrom (r.span.start + 1) (some r.span.colon, some r.span.stop)
  declared : s.declared r.name r.span = .ok [r]

/-- What is declared is a rule with its name, its span and its mark for left recursion. -/
theorem Rule.FoundIn.completed_eq {r : Rule} {s : TokenStream} (h : r.FoundIn s) :
    Rule.completed { name := r.name, span := r.span } s = .ok r := by
  have hdeclared := h.declared
  rw [TokenStream.declared] at hdeclared
  split at hdeclared
  · rename_i made hmake
    obtain ⟨r', hdone, heq⟩ := exists_of_bind_ok hdeclared
    obtain rfl : r' = r := List.singleton_inj.mp (Except.ok.inj heq)
    rwa [Rule.eq_of_make hmake] at hdone
  · cases hdeclared

theorem Visit.Declares.foundIn {v : Visit} {s : TokenStream} {name : Text}
    (h : v.Declares s name)
    (hopening : ∃ t, s.get? v.index = some t ∧ s.opening v.index t = .ok (.rule name)) :
    ∃ r, v.rules = [r] ∧ r.FoundIn s := by
  obtain ⟨colon, stop, made, r, hbounds, hmake, hdone, hrules, -⟩ := h
  have hdeclared : s.declared name ⟨v.index, colon, stop⟩ = .ok [r] := by
    simp only [TokenStream.declared, hmake, hdone]
    rfl
  rw [Rule.eq_of_make hmake] at hdone
  rw [Rule.eq_of_completed hdone] at hrules hdeclared
  exact ⟨_, hrules, hopening, hbounds, hdeclared⟩

namespace Grammar

variable {s : TokenStream}

/-- The grammar and the reports of a stream, told by the looks of a scan. -/
structure Account (s : TokenStream) (visits : List Visit) (g : Grammar) (ds : Diagnostics) :
    Prop where
  stream : g.stream = s
  /-- The looks go through the whole stream. -/
  looks : s.Looks 0 visits
  /-- There is no rule and no report that does not come from a look. -/
  rules : g.rules.map Rule.unlinked = visits.flatMap (·.rules)
  reports : ds = visits.flatMap (·.reports)
  /-- A look at a rule's name comes to one rule or to one report. -/
  accounted : ∀ v ∈ visits, v.Accounted s
  increasing : visits.Pairwise fun v w => v.index < w.index
  delimited : ∀ r ∈ g.rules, r.span.Delimits s r.name
  disjoint : g.rules.Pairwise fun r r' => r.span.stop < r'.span.start

/-! ## Linking -/

theorem referencesAmong_yields (hr : s.Readable) (rules : List Rule) (ts : List (Nat × Token))
    (hts : ∀ p ∈ ts, p.2 ∈ s.tokens) : Yields (referencesAmong s rules ts) fun _ => True := by
  induction ts with
  | nil => exact .of_ok trivial
  | cons p ts ih =>
    obtain ⟨i, t⟩ := p
    have hrest := ih fun q hq => hts q (List.mem_cons_of_mem _ hq)
    rw [referencesAmong]
    split
    · refine (hr.text (hts (i, t) List.mem_cons_self)).bind ?_
      intro text _ _
      exact hrest.bind fun _ _ _ => .of_ok trivial
    · exact hrest

/-- Allotting the references changes nothing else about the rules. -/
theorem map_unlinked_allot (start : Nat) (made : List (Rule × List Reference)) :
    (allot start made).map Rule.unlinked = made.map fun p => p.1.unlinked := by
  induction made generalizing start with
  | nil => rfl
  | cons p made ih =>
    obtain ⟨r, refs⟩ := p
    rw [allot, List.map_cons, List.map_cons, ih]
    rfl

/-- Linking adds references to the rules and no more. -/
theorem link_yields (hr : s.Readable) (rules : List Rule) :
    Yields (link s rules) fun g =>
      g.stream = s ∧ g.rules.map Rule.unlinked = rules.map Rule.unlinked := by
  have hmade : Yields (rules.mapM fun r => return (r, ← referencesIn s rules r))
      (List.Forall₂ (fun r p => r = p.1) rules) := by
    refine .mapM ?_
    intro r _
    have hrefs := referencesAmong_yields hr rules (s.indexed (r.span.colon + 1) r.span.stop)
      fun p hp => TokenStream.mem_of_mem_indexed hp
    exact hrefs.bind fun _ _ _ => .of_ok rfl
  refine hmade.bind fun made _ hmade => .of_ok ⟨rfl, ?_⟩
  have hfirst : made.map Prod.fst = rules := by
    have heq := List.forall₂_map_right_iff.mpr hmade
    exact (List.forall₂_eq_eq_eq ▸ heq).symm
  rw [map_unlinked_allot, ← hfirst, List.map_map]
  rfl

/-! ## The account of a stream -/

theorem unlinked_of_scanned {i : Nat} {visits : List Visit} (h : s.Scanned i visits) :
    (visits.flatMap (·.rules)).map Rule.unlinked = visits.flatMap (·.rules) := by
  refine (List.map_congr_left fun r hmem => ?_).trans (List.map_id _)
  obtain ⟨v, hv, hr⟩ := List.mem_flatMap.mp hmem
  obtain ⟨-, -, hrefs⟩ := h.rules v hv r hr
  rw [Rule.unlinked, ← hrefs]
  rfl

/-- What the scan says about rules holds of the linked ones. -/
theorem account_of_scanned {visits : List Visit} {g : Grammar} (h : s.Scanned 0 visits)
    (hstream : g.stream = s) (hrules : g.rules.map Rule.unlinked = visits.flatMap (·.rules)) :
    Account s visits g (visits.flatMap (·.reports)) where
  stream := hstream
  looks := h.looks
  rules := hrules
  reports := rfl
  accounted := h.accounted
  increasing := h.increasing
  delimited := by
    intro r hr
    have hmem : r.unlinked ∈ visits.flatMap (·.rules) := hrules ▸ List.mem_map_of_mem hr
    obtain ⟨v, hv, hfound⟩ := List.mem_flatMap.mp hmem
    exact (h.rules v hv r.unlinked hfound).1
  disjoint := List.pairwise_map.mp (hrules ▸ h.pairwise_rules)

theorem ofStream_yields (hr : s.Readable) (hf : s.Forward) :
    Yields (ofStream s) fun found => ∃ visits, s.scanFrom 0 = .ok visits ∧
      Account s visits found.1 found.2 := by
  refine (TokenStream.scanFrom_yields hr hf 0).bind ?_
  intro visits hscan hscanned
  refine (link_yields hr _).bind fun g _ hg => .of_ok ⟨visits, hscan, ?_⟩
  obtain ⟨hstream, hrules⟩ := hg
  rw [unlinked_of_scanned hscanned] at hrules
  exact account_of_scanned hscanned hstream hrules

/-- **Scanning drops no rule in silence.**  Where all tokens can be read and do not
run backwards, a stream has a grammar: its rules are delimited and disjoint, the scan
goes through the whole stream, and each name at which it starts a rule is told by one
rule or by one report. -/
theorem ofStream_accounts_for_names (s : TokenStream) (hr : s.Readable) (hf : s.Forward) :
    ∃ visits g ds, s.scanFrom 0 = .ok visits ∧ ofStream s = .ok (g, ds) ∧
      Account s visits g ds := by
  obtain ⟨⟨g, ds⟩, hfound, visits, hscan, haccount⟩ := ofStream_yields hr hf
  exact ⟨visits, g, ds, hscan, hfound, haccount⟩

/-- A rule, and a name without a colon behind it. -/
theorem ofStream_accounts_for_two_names :
    let s : TokenStream := ⟨"a:b;c d;".toList, [⟨.id, ⟨0, 1⟩, 0, 0⟩, ⟨.colon, ⟨1, 2⟩, 0, 0⟩,
      ⟨.id, ⟨2, 3⟩, 0, 0⟩, ⟨.semi, ⟨3, 4⟩, 0, 0⟩, ⟨.id, ⟨4, 5⟩, 0, 0⟩, ⟨.id, ⟨6, 7⟩, 0, 0⟩,
      ⟨.semi, ⟨7, 8⟩, 0, 0⟩]⟩
    s.Readable ∧ s.Forward ∧ ∃ visits g ds, s.scanFrom 0 = .ok visits ∧
      ofStream s = .ok (g, ds) ∧ Account s visits g ds :=
  ⟨by decide, by decide, ofStream_accounts_for_names _ (by decide) (by decide)⟩

/-- A rule of a grammar is found by a look at its name. -/
theorem Account.foundIn {visits : List Visit} {g : Grammar} {ds : Diagnostics}
    (h : Account s visits g ds) {r : Rule} (hr : r ∈ g.rules) : r.unlinked.FoundIn s := by
  have hmem : r.unlinked ∈ visits.flatMap (·.rules) := h.rules ▸ List.mem_map_of_mem hr
  obtain ⟨v, hv, hfound⟩ := List.mem_flatMap.mp hmem
  have hv := h.accounted v hv
  by_cases hopening : ∃ name, v.opening = .rule name
  · obtain ⟨name, hname⟩ := hopening
    rcases hv.rule name hname with hdeclares | ⟨_, _, -, -, -, -, hrules, -⟩
    · obtain ⟨r', hrules, hr'⟩ := hdeclares.foundIn (hname ▸ hv.opening)
      rw [hrules] at hfound
      obtain rfl : r.unlinked = r' := List.mem_singleton.mp hfound
      exact hr'
    · rw [hrules] at hfound
      exact absurd hfound List.not_mem_nil
  · rw [(hv.other fun name hname => hopening ⟨name, hname⟩).1] at hfound
    exact absurd hfound List.not_mem_nil

/-- **Parsing a source meets no fault**, and its grammar has its account. -/
theorem account_parse (source : Text) :
    ∃ visits ds, (TokenStream.lex source).scanFrom 0 = .ok visits ∧
      (parse source).2 = TokenStream.lexDiagnostics source ++ ds ∧
      Account (.lex source) visits (parse source).1 ds := by
  obtain ⟨⟨g, ds⟩, hfound, visits, hscan, haccount⟩ :=
    ofStream_yields (TokenStream.readable_lex source) (TokenStream.forward_lex source)
  refine ⟨visits, ds, hscan, ?_, ?_⟩
  · rw [parse, hfound]
  · rw [parse, hfound]
    exact haccount

end Grammar
end GrammarAtlas
