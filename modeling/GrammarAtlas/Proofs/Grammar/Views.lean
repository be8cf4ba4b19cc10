import GrammarAtlas.Proofs.Grammar.References
import GrammarAtlas.Proofs.Rule.Branches
import GrammarAtlas.Proofs.Token.Significant

/-!
# Where the body of a rule begins

Two searches look for the colon of a rule.  The scan passes over the `scope` clauses in
front of the body and records the first colon outside them; it is the one that the
references begin behind.  The alternatives begin behind the first colon of all, as do the
range of the body and whatever is made of the alternatives.

The two are the same colon unless there is one inside a clause (`Views.agree`).  Either
way the references are what the alternatives say behind the recorded colon
(`Views.references`).  With a colon inside a clause, a part of the clause is taken for an
alternative, and an identifier there is no reference (`views_of_colon_in_clause`).
-/

namespace GrammarAtlas

namespace TokenStream

variable {s : TokenStream} {i j stop : Nat}

/-- There is a colon inside a clause of the prelude between two indices. -/
def ColonInClause (s : TokenStream) (i j : Nat) : Prop :=
  ∃ start semi k, i ≤ start ∧ s.OpensClause start ∧ s.FirstText [';'] (start + 1) semi ∧
    semi < j ∧ start < k ∧ k < semi ∧ s.textAt k = .ok [':']

theorem ColonInClause.mono {i' : Nat} (h : s.ColonInClause i' j) (hi : i ≤ i') :
    s.ColonInClause i j := by
  obtain ⟨start, semi, k, hstart, hrest⟩ := h
  exact ⟨start, semi, k, Nat.le_trans hi hstart, hrest⟩

/-- A prelude passes over no colon, except inside a clause. -/
theorem Prelude.colonInClause (h : s.Prelude i j) {k : Nat} (hik : i ≤ k) (hkj : k < j)
    (hk : s.textAt k = .ok [':']) : s.ColonInClause i j := by
  induction h with
  | here i => exact absurd hkj (Nat.not_lt_of_le hik)
  | @token i j _ hcolon _ _ _ ih =>
    rcases Nat.eq_or_lt_of_le hik with rfl | hlt
    · exact absurd hk hcolon
    · exact (ih hlt hkj).mono (Nat.le_succ i)
  | @clause i semi j hopens hsemi hprelude ih =>
    have hle := hprelude.le
    have hsemi_le := hsemi.le
    rcases Nat.lt_trichotomy k semi with hlt | rfl | hlt
    · refine ⟨i, semi, k, Nat.le_refl i, hopens, hsemi, hle, ?_, hlt, hk⟩
      refine Nat.lt_of_le_of_ne hik ?_
      rintro rfl
      exact absurd (Except.ok.inj (hopens.1.symm.trans hk)) (by decide)
    · exact absurd (Except.ok.inj (hsemi.text_at.symm.trans hk)) (by decide)
    · exact (ih hlt hkj).mono (by omega)

end TokenStream

namespace Rule

variable {s : TokenStream} {r : Rule} {c : Nat} {as : List Alternative}

theorem map_index_lexed {ps : List (Nat × Token)} {ls : List IndexedLexeme}
    (h : List.Forall₂ (Lexed s) ps ls) : ps.map (·.1) = ls.map (·.1) :=
  map_eq_map_of_forall₂ (h.imp fun _ _ hp => hp.1.symm)

/-- What is read off tokens, and off no block and no pipe, may be read off the body or off
the alternatives. -/
theorem filterMap_alternatives {β : Type} (hr : s.Readable)
    (hbody : r.colonAndBody s = .ok (some (c, s.indexed (c + 1) r.span.stop)))
    (has : r.alternatives s = .ok as) {f : Nat → Option β}
    (hf : ∀ i t, s.get? i = some t → t.kind = .block ∨ s.text t = .ok ['|'] → f i = none) :
    (as.flatMap (·.indices)).filterMap f =
      (s.indexed (c + 1) r.span.stop).filterMap fun p => f p.1 := by
  obtain ⟨ls, hls, rfl⟩ := exists_lexemes_of_alternatives hr hbody has
  have hpipe : ∀ l ∈ ls, Branches.isMark '|' l = true → f l.1 = none := by
    intro l hl hmark
    obtain ⟨p, hp, hindex, -, htext⟩ := exists_of_mem_right hls hl
    obtain ⟨hget, -⟩ := TokenStream.get?_of_mem_indexed (List.mem_of_mem_filter hp)
    rw [of_decide_eq_true hmark] at htext
    exact hindex ▸ hf p.1 p.2 hget (.inr htext)
  have hblock : ∀ p ∈ s.indexed (c + 1) r.span.stop, p.2.kind = .block → f p.1 = none := by
    intro p hp hblock
    exact hf p.1 p.2 (TokenStream.get?_of_mem_indexed hp).1 (.inl hblock)
  have hflatten : ((Branches.split 0 [] ls).map fun branch =>
      (⟨branch.map (·.1)⟩ : Alternative)).flatMap (·.indices) =
        (Branches.split 0 [] ls).flatten.map (·.1) := by
    rw [List.flatMap_map, List.flatMap_def, List.map_flatten]
  rw [hflatten, List.filterMap_map]
  calc (Branches.split 0 [] ls).flatten.filterMap (fun l => f l.1)
    _ = ls.filterMap fun l => f l.1 := Branches.filterMap_flatten_split hpipe
    _ = (ls.map (·.1)).filterMap f := (List.filterMap_map ..).symm
    _ = (s.indexed (c + 1) r.span.stop).filterMap fun p => f p.1 := by
        rw [← map_index_lexed hls, List.filterMap_map, List.filterMap_filter]
        refine List.filterMap_congr fun p hp => ?_
        by_cases hkind : p.2.kind = .block
        · simp [hkind, hblock p hp hkind]
        · simp [hkind]

end Rule

namespace Grammar

variable {s : TokenStream} {rules : List Rule} {i : Nat} {t : Token}

theorem reference?_of_kind_ne (ht : s.get? i = some t) (hkind : t.kind ≠ .id) :
    reference? s rules i = none := by
  simp only [reference?, ht, if_neg hkind]

/-- **What the views of a rule show.**  `c` is the colon that its alternatives `as` begin
behind. -/
structure Views (g : Grammar) (r : Rule) (c : Nat) (as : List Alternative) : Prop where
  first : g.stream.FirstText [':'] r.span.start c
  body : r.colonAndBody g.stream = .ok (some (c, g.stream.indexed (c + 1) r.span.stop))
  alternatives : r.alternatives g.stream = .ok as
  inside : ∀ a ∈ as, ∀ i ∈ a.indices, c < i ∧ i < r.span.stop
  /-- The recorded colon is no earlier one, and it is the same if no clause has one. -/
  le_colon : c ≤ r.span.colon
  agree : c = r.span.colon ↔ ¬ g.stream.ColonInClause (r.span.start + 1) r.span.colon
  /-- The references are what the alternatives say behind the recorded colon. -/
  references : g.referencesOf r =
    ((as.flatMap (·.indices)).filter (r.span.colon < ·)).filterMap (reference? g.stream g.rules)

/-- Where the searches find the same colon, the references are what the alternatives say. -/
theorem Views.references_eq {g : Grammar} {r : Rule} {as : List Alternative}
    (h : Views g r r.span.colon as) :
    g.referencesOf r = (as.flatMap (·.indices)).filterMap (reference? g.stream g.rules) := by
  rw [h.references, List.filter_eq_self.mpr]
  intro i hi
  obtain ⟨a, ha, hi⟩ := List.mem_flatMap.mp hi
  exact decide_eq_true (h.inside a ha i hi).1

/-- The references behind a colon in the body are those that the alternatives show there. -/
theorem referencesAt_alternatives {r : Rule} {c colon : Nat} {as : List Alternative}
    (hr : s.Readable) (hbody : r.colonAndBody s = .ok (some (c, s.indexed (c + 1) r.span.stop)))
    (has : r.alternatives s = .ok as) (hc : c ≤ colon) (hcolon : colon < r.span.stop)
    (hpipe : ∀ i t, s.get? i = some t → s.text t = .ok ['|'] → t.kind ≠ .id) :
    ((as.flatMap (·.indices)).filter (colon < ·)).filterMap (reference? s rules) =
      referencesAt s rules (s.indexed (colon + 1) r.span.stop) := by
  have hnone : ∀ i t, s.get? i = some t → t.kind = .block ∨ s.text t = .ok ['|'] →
      (if colon < i then reference? s rules i else none) = none := by
    intro i t ht hkind
    split
    · refine reference?_of_kind_ne ht ?_
      rcases hkind with hblock | htext
      · rw [hblock]
        decide
      · exact hpipe i t ht htext
    · rfl
  have hfront : (s.indexed (c + 1) (colon + 1)).filterMap
      (fun p => if colon < p.1 then reference? s rules p.1 else none) = [] := by
    refine List.filterMap_eq_nil_iff.mpr fun p hp => if_neg ?_
    have hlt := (TokenStream.get?_of_mem_indexed hp).2.2
    omega
  rw [List.filterMap_filter]
  simp only [decide_eq_true_eq]
  rw [Rule.filterMap_alternatives hr hbody has hnone,
    TokenStream.indexed_append (Nat.succ_le_succ hc) hcolon, List.filterMap_append, hfront,
    List.nil_append]
  refine List.filterMap_congr fun p hp => if_pos ?_
  exact (TokenStream.get?_of_mem_indexed hp).2.1

/-- A rule's name is no colon, so the first colon stands behind it. -/
theorem exists_first_colon {source : Text} {r : Rule}
    (h : r.span.Delimits (.lex source) r.name) :
    ∃ c, (TokenStream.lex source).FirstText [':'] r.span.start c ∧ r.span.start < c ∧
      c ≤ r.span.colon := by
  have hstart := h.start_lt_colon
  have hsize : r.span.colon < (TokenStream.lex source).size :=
    Nat.lt_trans h.colon_lt_stop h.stop_lt_size
  obtain ⟨c, hfirst, hle⟩ := TokenStream.exists_firstText (TokenStream.readable_lex source)
    (Nat.le_of_lt hstart) hsize h.colon_at_colon
  refine ⟨c, hfirst, Nat.lt_of_le_of_ne hfirst.le ?_, hle⟩
  intro hname
  obtain ⟨t, ht, hid, -⟩ := h.name_at_start
  have hcolon := hfirst.text_at
  rw [← hname, TokenStream.textAt_of_get? ht] at hcolon
  have hkind := TokenStream.kind_of_text_singleton (k := .colon) rfl ht hcolon
  exact absurd (hid.symm.trans hkind) (by decide)

/-- From a rule's name one gets to its recorded colon by passing over a prelude. -/
theorem Account.prelude {visits : List Visit} {g : Grammar} {ds : Diagnostics}
    (h : Account s visits g ds) {r : Rule} (hr : r ∈ g.rules) :
    s.Prelude (r.span.start + 1) r.span.colon := by
  obtain ⟨hprelude, -, -⟩ := TokenStream.boundsFrom_both_iff.mp (h.foundIn hr).bounds
  exact hprelude

/-- **Every rule of a source has its views.**  Its alternatives begin behind the first colon
of all, its references behind the recorded one; between the two there is a clause with a
colon inside, or nothing. -/
theorem views_of_mem_rules (source : Text) :
    ∀ r ∈ (parse source).1.rules, ∃ c as, Views (parse source).1 r c as := by
  intro r hr
  have hread := TokenStream.readable_lex source
  obtain ⟨visits, ds, -, -, haccount⟩ := account_parse source
  have hdelimits := haccount.delimited r hr
  obtain ⟨c, hfirst, hstart, hle⟩ := exists_first_colon hdelimits
  have hbody := Rule.colonAndBody_eq hread hfirst
    (Nat.lt_of_le_of_lt hle hdelimits.colon_lt_stop)
  obtain ⟨as, has, -⟩ := Rule.alternatives_yields hread r
  have hagree : c = r.span.colon ↔
      ¬ (TokenStream.lex source).ColonInClause (r.span.start + 1) r.span.colon := by
    refine ⟨?_, fun hclause => ?_⟩
    · rintro rfl ⟨start, semi, k, hfront, -, -, hsemi, hk, hk', htext⟩
      exact hfirst.none_before k (by omega) (by omega) htext
    · by_contra hne
      exact hclause ((haccount.prelude hr).colonInClause hstart
        (Nat.lt_of_le_of_ne hle hne) hfirst.text_at)
  have hpipe : ∀ i t, (TokenStream.lex source).get? i = some t →
      (TokenStream.lex source).text t = .ok ['|'] → t.kind ≠ .id := by
    intro i t ht htext
    rw [TokenStream.kind_of_text_singleton (k := .pipe) rfl ht htext]
    decide
  have hrefs := referencesOf_parse hr
  rw [referencesBehind, ← referencesAt_alternatives hread hbody has hle
    hdelimits.colon_lt_stop hpipe, ← stream_parse source] at hrefs
  have hinside : ∀ a ∈ as, ∀ i ∈ a.indices, c < i ∧ i < r.span.stop := fun a ha i hi =>
    Rule.mem_range_of_alternatives hread hbody has ha hi
  rw [← stream_parse source] at hfirst hbody has hagree
  exact ⟨c, as, hfirst, hbody, has, hinside, hle, hagree, hrefs⟩

/-- A rule that calls the one behind it, with an empty clause in front. -/
theorem views_of_clause :
    (⟨['a'], ⟨0, 4, 6⟩, true, false, false, [], ⟨0, 1⟩⟩ : Rule) ∈
      (parse "a scope b; : c; c : ;".toList).1.rules ∧
    ∃ c as, Views (parse "a scope b; : c; c : ;".toList).1
      ⟨['a'], ⟨0, 4, 6⟩, true, false, false, [], ⟨0, 1⟩⟩ c as :=
  ⟨by decide +kernel, views_of_mem_rules _ _ (by decide +kernel)⟩

/-- **A colon in a clause is taken for the one in front of the body.**  The scan records the
token 6, but the rule has a single alternative, which begins behind the token 3 and calls
the rule itself.  That call is no reference. -/
theorem views_of_colon_in_clause :
    let source := "a scope b : a ; : d ;".toList
    let r : Rule := ⟨['a'], ⟨0, 6, 8⟩, true, false, true, [], ⟨0, 0⟩⟩
    (parse source).1.rules = [r] ∧
      r.colonAndBody (.lex source) = .ok (some (3, (TokenStream.lex source).indexed 4 8)) ∧
      r.alternatives (.lex source) = .ok [⟨[4, 5, 6, 7]⟩] ∧
      (TokenStream.lex source).textAt 4 = .ok r.name ∧
      (parse source).1.referencesOf r = [] := by
  decide +kernel

end Grammar
end GrammarAtlas
