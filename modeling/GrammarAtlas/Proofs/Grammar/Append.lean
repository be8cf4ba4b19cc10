import GrammarAtlas.Proofs.Grammar.Inside
import GrammarAtlas.Proofs.Grammar.Rules
import GrammarAtlas.Proofs.Token.Append

/-!
# A grammar behind another one

A source that is finished, so that nothing is reported about it and it ends with a
semicolon, may be followed by another source on the next line.  Its rules stay as they are
and those of the other source come behind, with the reports about the other source
(`parse_append`).

The streams of both sources stand inside the stream of the whole, the first up to its
semicolon and the second up to the end.  So the scan of the whole goes through the first and
then through the second.
-/

namespace GrammarAtlas

theorem Diagnostic.Carried.eq_moved {bytes : Nat} {d d' : Diagnostic}
    (h : Diagnostic.Carried (fun a b => b = bytes + a) d d') : d' = d.moved bytes := by
  obtain ⟨kind, range, message⟩ := d
  obtain ⟨kind', range', message'⟩ := d'
  obtain ⟨rfl, rfl, ⟨start, stop⟩, ⟨start', stop'⟩, rfl, rfl, rfl, rfl⟩ := h
  rfl

theorem Diagnostics.eq_map_moved {bytes : Nat} {ds ds' : Diagnostics}
    (h : List.Forall₂ (Diagnostic.Carried fun a b => b = bytes + a) ds ds') :
    ds' = ds.map (·.moved bytes) := by
  have hmap := map_eq_map_of_forall₂ (h.imp fun _ _ hd => hd.eq_moved.symm)
  exact (hmap.trans (List.map_id' ds')).symm

namespace Grammar

open TokenStream

variable {front back : Text}

/-- **The whole says what the front says and then what the back says**, which begins that many
bytes and lines further on. -/
structure SaysBoth (front back whole : Text) (bytes lines : Nat) : Prop where
  tokens : (lex whole).tokens =
    (lex front).tokens ++ (lex back).tokens.map (·.moved bytes lines)
  rules : (parse whole).1.rules.map Rule.unlinked =
    (parse front).1.rules.map Rule.unlinked ++
      (parse back).1.rules.map fun r => r.unlinked.moved (lex front).size
  front_alternatives : ∀ r ∈ (parse front).1.rules, ∃ as,
    r.alternatives (lex front) = .ok as ∧ r.alternatives (lex whole) = .ok as
  back_alternatives : ∀ r ∈ (parse back).1.rules, ∃ as,
    r.alternatives (lex back) = .ok as ∧
      (r.moved (lex front).size).alternatives (lex whole) =
        .ok (as.map (·.moved (lex front).size))
  diagnostics : (parse whole).2 = (parse back).2.map (·.moved bytes)

/-- A source is finished: nothing is reported about it, its last token is a semicolon, and no
comment is opened. -/
structure Finished (source : Text) : Prop where
  quiet : (parse source).2 = []
  semicolon : ∃ t, (lex source).tokens.getLast? = some t ∧ (lex source).text t = .ok [';']
  no_comment : (lex source).NoOpenComment

/-- The front has nothing to report, neither from lexing nor from its scan. -/
theorem Finished.quiet_parts (h : Finished front) {visits : List Visit}
    (hscan : (lex front).scanFrom 0 = .ok visits) :
    lexDiagnostics front = [] ∧ ∀ v ∈ visits, v.reports = [] := by
  obtain ⟨_, _, hscan', hreports, haccount⟩ := account_parse front
  obtain rfl := Except.ok.inj (hscan.symm.trans hscan')
  rw [h.quiet, haccount.reports] at hreports
  obtain ⟨hlex, hvisits⟩ := List.append_eq_nil_iff.mp hreports.symm
  exact ⟨hlex, List.flatMap_eq_nil_iff.mp hvisits⟩

theorem Finished.sound (h : Finished front) : ∀ l ∈ Lexeme.scan front, l.Sound := by
  obtain ⟨_, _, hscan, -, -⟩ := account_parse front
  exact sound_of_lexDiagnostics (h.quiet_parts hscan).1

theorem Finished.getLast?_significant (h : Finished front) :
    (Lexeme.significant front).getLast? = some ⟨.semi, [';']⟩ := by
  obtain ⟨t, ht, htext⟩ := h.semicolon
  rw [List.getLast?_eq_getElem?] at ht
  rw [List.getLast?_eq_getElem?, ← (readsAs_lex front).size]
  exact getElem?_significant_of_text rfl ht htext

/-- The front stands inside the whole. -/
theorem Finished.inside_front (h : Finished front) (back : Text) :
    Inside Eq 0 (lex front) (lex (front ++ '\n' :: back)) := by
  have hwhole : (lex (front ++ '\n' :: back)).ReadsAs
      ([] ++ Lexeme.significant front ++ Lexeme.significant back) := by
    have hread := readsAs_lex (front ++ '\n' :: back)
    rwa [significant_append h.sound h.no_comment] at hread
  refine inside_of_readsAs (readsAs_lex front) hwhole ?_ (.inr h.getLast?_significant)
  intro i t t' ht ht'
  have hi := lt_of_get? ht
  rw [List.length_nil, Nat.zero_add, get?, tokens_append h.sound h.no_comment,
    List.getElem?_append_left hi] at ht'
  obtain rfl : t = t' := Option.some.inj (ht.symm.trans ht')
  exact ⟨rfl, rfl⟩

/-- Behind a front in which nothing is wrong and no comment is opened, the back stands inside the
whole. -/
theorem inside_behind (hsound : ∀ l ∈ Lexeme.scan front, l.Sound)
    (hcomment : (lex front).NoOpenComment) (back : Text) :
    Inside (fun a b => b = Text.byteSize front + 1 + a) (lex front).size (lex back)
      (lex (front ++ '\n' :: back)) := by
  have hwhole : (lex (front ++ '\n' :: back)).ReadsAs
      (Lexeme.significant front ++ Lexeme.significant back ++ []) := by
    have hread := readsAs_lex (front ++ '\n' :: back)
    rwa [significant_append hsound hcomment,
      ← List.append_nil (Lexeme.significant front ++ _)] at hread
  rw [(readsAs_lex front).size]
  refine inside_of_readsAs (readsAs_lex back) hwhole ?_ (.inl rfl)
  intro i t t' ht ht'
  have hindex : (Lexeme.significant front).length = (lex front).tokens.length :=
    (readsAs_lex front).size.symm
  have ht : (lex back).tokens[i]? = some t := ht
  rw [hindex, get?, tokens_append hsound hcomment,
    List.getElem?_append_right (Nat.le_add_right ..), Nat.add_sub_cancel_left, List.getElem?_map,
    ht] at ht'
  obtain rfl := Option.some.inj ht'
  exact ⟨rfl, rfl⟩

/-- So does the back, behind a finished front. -/
theorem Finished.inside_back (h : Finished front) (back : Text) :
    Inside (fun a b => b = Text.byteSize front + 1 + a) (lex front).size (lex back)
      (lex (front ++ '\n' :: back)) :=
  inside_behind h.sound h.no_comment back

theorem size_append (hsound : ∀ l ∈ Lexeme.scan front, l.Sound)
    (hcomment : (lex front).NoOpenComment) (back : Text) :
    (lex (front ++ '\n' :: back)).size = (lex front).size + (lex back).size := by
  rw [size, tokens_append hsound hcomment, List.length_append, List.length_map]
  rfl

/-- **The scan of the whole** is the scan of the front and then that of the back. -/
theorem Finished.scanFrom_append (h : Finished front) {back : Text} {visits more : List Visit}
    (hfront : (lex front).scanFrom 0 = .ok visits) (hback : (lex back).scanFrom 0 = .ok more) :
    ∃ visits' more', (lex (front ++ '\n' :: back)).scanFrom 0 = .ok (visits' ++ more') ∧
      List.Forall₂ (Visit.Carried Eq 0) visits visits' ∧
      List.Forall₂ (Visit.Carried (fun a b => b = Text.byteSize front + 1 + a) (lex front).size)
        more more' := by
  have hsize := size_append h.sound h.no_comment back
  have hread := readable_lex (front ++ '\n' :: back)
  have hforward := forward_lex (front ++ '\n' :: back)
  obtain ⟨more', hmore', hmore⟩ := (h.inside_back back).scanFrom (readable_lex back)
    (forward_lex back) hread hforward (Nat.zero_le _) hback (.inl hsize)
    (scanFrom_of_size_le (Nat.le_of_eq hsize))
  rw [List.append_nil, Nat.add_zero, ← Nat.zero_add (lex front).size] at hmore'
  obtain ⟨visits', hvisits', hvisits⟩ := (h.inside_front back).scanFrom (readable_lex front)
    (forward_lex front) hread hforward (Nat.zero_le _) hfront (.inr (h.quiet_parts hfront).2)
    hmore'
  exact ⟨visits', more', hvisits', hvisits, hmore⟩

/-- **Appending text does not disturb finished rules.**  Behind a finished source, on the next
line, another source has the tokens, rules and diagnostics that it has by itself, and those of
the finished source stay. -/
theorem parse_append (hfront : Finished front) (back : Text) :
    SaysBoth front back (front ++ '\n' :: back) (Text.byteSize front + 1)
      (Text.lineBreaks front + 1) := by
  obtain ⟨visits, _, hscan, -, haccount⟩ := account_parse front
  obtain ⟨more, _, hscan', hreports', haccount'⟩ := account_parse back
  obtain ⟨visits₂, more₂, hscan₂, hvisits, hmore⟩ := hfront.scanFrom_append hscan hscan'
  obtain ⟨whole, _, hwhole, hreports, haccount₂⟩ := account_parse (front ++ '\n' :: back)
  obtain rfl := Except.ok.inj (hscan₂.symm.trans hwhole)
  have hrules := rules_of_carried hvisits
  have hrules' := rules_of_carried hmore
  refine ⟨tokens_append hfront.sound hfront.no_comment back, ?_, ?_, ?_, ?_⟩
  · rw [haccount₂.rules, List.flatMap_append, hrules, hrules', ← haccount.rules,
      ← haccount'.rules, Rule.map_moved_zero, List.map_map]
    rfl
  · intro r hr
    obtain ⟨as, has, has'⟩ := (hfront.inside_front back).alternatives (readable_lex front)
      (readable_lex _) (haccount.delimited r hr)
    rw [r.moved_zero, Alternative.map_moved_zero] at has'
    exact ⟨as, has, has'⟩
  · intro r hr
    exact (hfront.inside_back back).alternatives (readable_lex back) (readable_lex _)
      (haccount'.delimited r hr)
  · obtain ⟨hlex, hquiet⟩ := hfront.quiet_parts hscan
    have hnone := reports_of_carried hvisits
    rw [List.flatMap_eq_nil_iff.mpr hquiet, List.forall₂_nil_left_iff] at hnone
    rw [hreports, haccount₂.reports, List.flatMap_append, hnone,
      Diagnostics.eq_map_moved (reports_of_carried hmore),
      lexDiagnostics_append hfront.sound hfront.no_comment, hlex, hreports', haccount'.reports,
      List.map_append]
    rfl

/-- Behind a rule with a division, a rule that begins with a star and does not end. -/
theorem parse_append_unended :
    Finished "a : b / c ;".toList ∧
    SaysBoth "a : b / c ;".toList "*/ d : a".toList
      ("a : b / c ;".toList ++ '\n' :: "*/ d : a".toList)
      (Text.byteSize "a : b / c ;".toList + 1) (Text.lineBreaks "a : b / c ;".toList + 1) := by
  have hfinished : Finished "a : b / c ;".toList :=
    ⟨by decide +kernel, ⟨⟨.semi, ⟨10, 11⟩, 0, 0⟩, by decide +kernel⟩, by decide +kernel⟩
  exact ⟨hfinished, parse_append hfinished _⟩

end Grammar
end GrammarAtlas
