import GrammarAtlas.Proofs.Grammar.Inside
import GrammarAtlas.Proofs.Grammar.References
import GrammarAtlas.Proofs.Token.Layout

/-!
# A grammar in another layout

Two streams with the same lexemes have the same rules, with the same alternatives and the
same references, wherever the lexemes stand in the two sources (`linked_of_readsAs`,
`rules_of_significant`).  So the layout of a source makes no difference to its grammar: each
lexeme may be put on a line of its own (`parse_joined`).
-/

namespace GrammarAtlas

namespace Grammar

open TokenStream

variable {s s' : TokenStream} {ls : List Lexeme} {rules : List Rule}

/-- Nothing is asked of the places. -/
def Anywhere (_ _ : Nat) : Prop := True

theorem inside_anywhere (h : s.ReadsAs ls) (h' : s'.ReadsAs ls) : Inside Anywhere 0 s s' := by
  have h' : s'.ReadsAs ([] ++ ls ++ []) := by simpa using h'
  exact inside_of_readsAs h h' (fun _ _ _ _ _ => ⟨trivial, trivial⟩) (.inl rfl)

/-- The same tokens are there in both streams, with the same kinds and texts. -/
theorem reference?_of_readsAs (h : s.ReadsAs ls) (h' : s'.ReadsAs ls) (i : Nat) :
    reference? s' rules i = reference? s rules i := by
  cases hl : ls[i]? with
  | some l =>
    obtain ⟨t, ht, hkind, htext⟩ := h.getElem? hl
    obtain ⟨t', ht', hkind', htext'⟩ := h'.getElem? hl
    simp only [reference?, ht, ht', hkind, hkind', htext, htext']
  | none =>
    have hlength := List.getElem?_eq_none_iff.mp hl
    have hget : s.get? i = none := List.getElem?_eq_none_iff.mpr (h.size.trans_le hlength)
    have hget' : s'.get? i = none := List.getElem?_eq_none_iff.mpr (h'.size.trans_le hlength)
    rw [reference?, reference?, hget, hget']

/-- **Linking makes the same grammar** of the same rules, but for the stream. -/
theorem linked_of_readsAs (h : s.ReadsAs ls) (h' : s'.ReadsAs ls)
    (hrules : ∀ r ∈ rules, r.span.stop ≤ s.size) :
    linked s' rules = { linked s rules with stream := s' } := by
  have hinside := inside_anywhere h h'
  have hbehind : ∀ r ∈ rules, referencesBehind s' rules r = referencesBehind s rules r := by
    intro r hr
    have hindices := map_index_shifted (hinside.indexed (i := r.span.colon + 1) (hrules r hr))
    simp only [Nat.zero_add] at hindices
    have href : reference? s' rules = reference? s rules := funext (reference?_of_readsAs h h')
    have hmap (s : TokenStream) (ps : List (Nat × Token)) :
        referencesAt s rules ps = (ps.map (·.1)).filterMap (reference? s rules) := by
      rw [List.filterMap_map]
      rfl
    rw [referencesBehind, referencesBehind, hmap, hmap, ← hindices, href]
  have hmade : (rules.map fun r => (r, referencesBehind s' rules r)) =
      rules.map fun r => (r, referencesBehind s rules r) :=
    List.map_congr_left fun r hr => by rw [hbehind r hr]
  rw [linked, linked, hmade, List.flatMap_congr hbehind]

/-- Sources with the same lexemes have scans that find the same rules. -/
theorem rules_of_significant {source source' : Text}
    (h : Lexeme.significant source' = Lexeme.significant source) {visits visits' : List Visit}
    (hscan : (lex source).scanFrom 0 = .ok visits)
    (hscan' : (lex source').scanFrom 0 = .ok visits') :
    visits'.flatMap (·.rules) = visits.flatMap (·.rules) := by
  have hread := readsAs_lex source
  have hread' := readsAs_lex source'
  rw [h] at hread'
  have hsize : (lex source').size = 0 + (lex source).size := by
    rw [hread.size, hread'.size, Nat.zero_add]
  obtain ⟨_, hcarry, hcarried⟩ := (inside_anywhere hread hread').scanFrom (readable_lex source)
    (forward_lex source) (readable_lex source') (forward_lex source') (Nat.zero_le _) hscan
    (.inl hsize) (scanFrom_of_size_le (Nat.le_of_eq hsize))
  rw [List.append_nil] at hcarry
  obtain rfl := Except.ok.inj (hscan'.symm.trans hcarry)
  rw [rules_of_carried hcarried, Rule.map_moved_zero]

/-- **Sources with the same lexemes have the same grammar**, but for the stream. -/
theorem parse_of_significant {source source' : Text}
    (h : Lexeme.significant source' = Lexeme.significant source) :
    (parse source').1 = { (parse source).1 with stream := .lex source' } := by
  have hread := readsAs_lex source
  have hread' := readsAs_lex source'
  rw [h] at hread'
  obtain ⟨visits, hscan, hparse, -⟩ := parse_eq source
  obtain ⟨visits', hscan', hparse', -⟩ := parse_eq source'
  obtain ⟨_, hscan₂, hscanned⟩ := scanFrom_yields (readable_lex source) (forward_lex source) 0
  obtain rfl := Except.ok.inj (hscan.symm.trans hscan₂)
  rw [hparse', hparse, rules_of_significant h hscan hscan']
  refine linked_of_readsAs hread hread' fun r hr => ?_
  obtain ⟨v, hv, hfound⟩ := List.mem_flatMap.mp hr
  exact Nat.le_of_lt (hscanned.rules v hv r hfound).1.stop_lt_size

/-- A rule has the same alternatives in both sources. -/
theorem alternatives_of_significant {source source' : Text}
    (h : Lexeme.significant source' = Lexeme.significant source) {r : Rule}
    (hr : r ∈ (parse source).1.rules) :
    ∃ as, r.alternatives (lex source) = .ok as ∧ r.alternatives (lex source') = .ok as := by
  have hread := readsAs_lex source
  have hread' := readsAs_lex source'
  rw [h] at hread'
  obtain ⟨_, _, -, -, haccount⟩ := account_parse source
  obtain ⟨as, has, has'⟩ := (inside_anywhere hread hread').alternatives (readable_lex source)
    (readable_lex source') (haccount.delimited r hr)
  rw [r.moved_zero, Alternative.map_moved_zero] at has'
  exact ⟨as, has, has'⟩

/-- **Two sources differ in their layout only**: they have the same kinds and texts of tokens,
and the same rules with their spans, marks, references and alternatives. -/
structure SameButLayout (source source' : Text) : Prop where
  kinds : (lex source').tokens.map (·.kind) = (lex source).tokens.map (·.kind)
  texts : ∃ texts, (lex source).tokens.mapM (lex source).text = .ok texts ∧
    (lex source').tokens.mapM (lex source').text = .ok texts
  rules : (parse source').1.rules = (parse source).1.rules
  references : (parse source').1.references = (parse source).1.references
  alternatives : ∀ r ∈ (parse source).1.rules, ∃ as,
    r.alternatives (lex source) = .ok as ∧ r.alternatives (lex source') = .ok as

theorem sameButLayout_of_significant {source source' : Text}
    (h : Lexeme.significant source' = Lexeme.significant source) :
    SameButLayout source source' := by
  have hread := readsAs_lex source
  have hread' := readsAs_lex source'
  have hparse := parse_of_significant h
  rw [h] at hread'
  refine ⟨?_, ⟨_, hread.mapM_text, hread'.mapM_text⟩, ?_, ?_, ?_⟩
  · rw [hread.map_kind, hread'.map_kind]
  · rw [hparse]
  · rw [hparse]
  · intro r hr
    exact alternatives_of_significant h hr

/-- **Parsing does not depend on layout.**  Where lexing finds no garbage in a source, the
texts of its tokens, joined by single line feeds, are the source in another layout. -/
theorem parse_joined (source : Text)
    (h : ∀ d ∈ lexDiagnostics source, d.kind ≠ .unexpectedCharacter) :
    ∃ texts, (lex source).tokens.mapM (lex source).text = .ok texts ∧
      SameButLayout source (Text.join ['\n'] texts) :=
  ⟨_, (readsAs_lex source).mapM_text, sameButLayout_of_significant
    (Lexeme.significant_joined (kind_ne_garbage_of_lexDiagnostics h))⟩

/-- A comment that does not close, a colon right in front of an arrow, and a block that does
not close either. -/
theorem parse_joined_unclosed :
    (∀ d ∈ lexDiagnostics "a/*:->b;\x7b c".toList, d.kind ≠ .unexpectedCharacter) ∧
    ∃ texts, (lex "a/*:->b;\x7b c".toList).tokens.mapM (lex "a/*:->b;\x7b c".toList).text =
        .ok texts ∧
      SameButLayout "a/*:->b;\x7b c".toList (Text.join ['\n'] texts) :=
  ⟨by decide +kernel, parse_joined _ (by decide +kernel)⟩

end Grammar
end GrammarAtlas
