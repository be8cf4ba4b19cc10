import GrammarAtlas.Proofs.Grammar.Regrouped
import GrammarAtlas.Proofs.Rule.Formed

/-!
# When a rewritten body is well-formed

Where the tokens of a rule's body are well-formed, those of the body without left recursion need
not be: they are just when no alternative begins with a call of the rule that has a suffix
(`formsBody_rewritten_iff`).  Such a call is taken off without its suffix, which then has nothing
in front of it.

Comments need no condition of their own: one is opened by a slash and a star, and a slash has no
place in a well-formed body.
-/

namespace GrammarAtlas

namespace Lexeme

/-- **A text without blocks** that can be put in front of others. -/
structure Unblocked (t : Text) : Prop extends Spliceable t where
  no_block : ∀ l ∈ significant t, l.kind ≠ .block

variable {source t : Text} {l : Lexeme} {us heads tails : List Text}
  {lss hs ts : List (List Lexeme)}

theorem Unblocked.plain_eq (h : Unblocked t) : plain t = significant t :=
  List.filter_eq_self.mpr fun l hl => decide_eq_true (h.no_block l hl)

/-- **The lexemes of a rewritten body** are regrouped from what its parts read as. -/
theorem significant_of_reads (hheads : List.Forall₂ (Reads Unblocked) heads hs)
    (htails : List.Forall₂ (Reads Unblocked) tails ts) :
    significant (Rule.rewritten heads tails) = Rule.regrouped mark hs ts := by
  have hparts {us : List Text} {lss : List (List Lexeme)}
      (h : List.Forall₂ (Reads Unblocked) us lss) : us.map significant = lss := by
    rw [← map_plain_of_reads h]
    exact List.map_congr_left fun u hu => (forall_of_reads h u hu).plain_eq.symm
  have hlexemes := significant_rewritten
    (fun u hu => (forall_of_reads hheads u hu).toSpliceable)
    (fun u hu => (forall_of_reads htails u hu).toSpliceable) []
  rwa [significant_nil, List.append_nil, List.append_nil, hparts hheads, hparts htails] at hlexemes

/-- A block has no role. -/
theorem kind_ne_block_of_role (hl : l ∈ scan source) (hrole : l.role? ≠ none) :
    l.kind ≠ .block := by
  have hmark {c : Char} {k : TokenKind} (htext : l.text = [c])
      (hpiece : piece c [] = (⟨k, [c]⟩, [])) (hk : k ≠ .block) : l.kind ≠ .block := by
    obtain rfl := eq_of_text_singleton hl htext hpiece
    exact hk
  unfold role? at hrole
  split_ifs at hrole with hopen hclose hpipe hsuffix hword
  · exact hmark hopen (k := .parenOpen) rfl (by decide)
  · exact hmark hclose (k := .parenClose) rfl (by decide)
  · exact hmark hpipe (k := .pipe) rfl (by decide)
  · simp only [suffixes, List.mem_cons, List.not_mem_nil, or_false] at hsuffix
    obtain hstar | hplus | hquestion := hsuffix
    · exact hmark hstar (k := .op) rfl (by decide)
    · exact hmark hplus (k := .op) rfl (by decide)
    · exact hmark hquestion (k := .op) rfl (by decide)
  · rintro hblock
    rw [hblock] at hword
    exact absurd hword (by decide)
  · exact absurd rfl hrole

end Lexeme

namespace TokenStream

open Lexeme

variable {source : Text} {s : TokenStream} {i j start stop : Nat}

/-- **Some tokens form a body.** -/
def FormsBody (s : TokenStream) (start stop : Nat) : Prop :=
  ∃ ls, List.Forall₂ (fun t l => t.kind = l.kind ∧ s.text t = .ok l.text) (s.slice start stop) ls ∧
    Formed.Body ls

/-- Of a source, it is the lexemes in this place that count. -/
theorem formsBody_lex_iff : (lex source).FormsBody start stop ↔
    Formed.Body (((significant source).take stop).drop start) := by
  have hread : List.Forall₂ (fun t l => t.kind = l.kind ∧ (lex source).text t = .ok l.text)
      ((lex source).slice start stop) (((significant source).take stop).drop start) :=
    List.forall₂_drop start (List.forall₂_take stop (readsAs_lex source))
  constructor
  · rintro ⟨ls, hls, hbody⟩
    have hunique : Relator.RightUnique fun (t : Token) (l : Lexeme) =>
        t.kind = l.kind ∧ (lex source).text t = .ok l.text := by
      rintro t ⟨kind, text⟩ ⟨kind', text'⟩ ⟨rfl, htext⟩ ⟨rfl, htext'⟩
      obtain rfl : text = text' := Except.ok.inj (htext.symm.trans htext')
      rfl
    rwa [hunique.forall₂ hls hread] at hbody
  · exact fun h => ⟨_, hread, h⟩

theorem formsBody_lex_size : (lex source).FormsBody 0 (lex source).size ↔
    Formed.Body (significant source) := by
  rw [formsBody_lex_iff, (readsAs_lex source).size, List.take_length, List.drop_zero]

instance (source : Text) (start stop : Nat) : Decidable ((lex source).FormsBody start stop) :=
  decidable_of_iff _ formsBody_lex_iff.symm

/-- A part of a source that lies between two tokens has the lexemes that are between these. -/
theorem Part.significant_subset {as bs cs : List Lexeme} (h : Part source i j as bs cs)
    (hi : start ≤ i) (hj : j < stop) :
    significant (bs.flatMap Lexeme.text) ⊆ ((significant source).take stop).drop start := by
  have hle : i ≤ j + 1 := by
    rw [← h.length_front, ← h.length_through, length_tokensOf, length_tokensOf, List.filter_append]
    exact (List.prefix_append _ _).length_le
  have hpart : ((significant source).take (j + 1)).drop i =
      ((((significant source).take stop).drop start).take (j + 1 - start)).drop (i - start) := by
    rw [List.take_drop, List.take_take, List.drop_drop, Nat.add_sub_cancel' hi,
      Nat.add_sub_cancel' (hi.trans hle), Nat.min_eq_left hj]
  rw [← h.significant_slice, hpart]
  exact List.Subset.trans (List.drop_subset ..) (List.take_subset ..)

/-- **What is cut out of a body** has no blocks and can be put in front of others. -/
theorem cuts_unblocked (hsound : ∀ l ∈ scan source, l.Sound)
    (hroles : ∀ l ∈ ((significant source).take stop).drop start, l.role? ≠ none) :
    Cuts Unblocked source start stop := by
  intro i j as bs cs hi hj hpart hlast
  have hrole : ∀ l ∈ significant (bs.flatMap Lexeme.text), l.role? ≠ none :=
    fun l hl => hroles l (hpart.significant_subset hi hj hl)
  have hscan := scan_part hpart.scan_eq
  -- A slash would be a token, and it has no role.
  have hslash : ∀ l ∈ bs, l.text ≠ ['/'] := by
    intro l hl htext
    rw [← hscan] at hl
    obtain rfl : l = ⟨.op, ['/']⟩ := eq_of_text_singleton hl htext rfl
    exact hrole _ (List.mem_filter.mpr ⟨hl, rfl⟩) rfl
  refine ⟨hpart.spliceable hsound ?_ hlast, fun l hl => ?_⟩
  · refine (List.pairwise_of_forall_mem_list fun l hl m _ h => ?_).isChain
    exact hslash l hl h.1
  · exact kind_ne_block_of_role (List.mem_of_mem_filter hl) (hrole l hl)

end TokenStream

namespace Grammar

open TokenStream Lexeme Branches

variable {source : Text} {r : Rule}

/-- A rule is not named by a parenthesis. -/
theorem name_ne_paren (h : r.span.Delimits (lex source) r.name) :
    r.name ≠ ['('] ∧ r.name ≠ [')'] := by
  obtain ⟨t, ht, hid, htext⟩ := h.name_at_start
  have hname := scan_text_token ht htext
  rw [hid] at hname
  exact ⟨ne_singleton_of_scan hname (k := .parenOpen) rfl (by decide),
    ne_singleton_of_scan hname (k := .parenClose) rfl (by decide)⟩

/-- **When a rewritten body is well-formed.**  Let nothing be reported about a source, and let the
body of a rule begin behind the rule's first colon and be well-formed.  Then the rewritten body is
well-formed just when no alternative begins with a call of the rule that has a suffix. -/
theorem formsBody_rewritten_iff (hquiet : (parse source).2 = []) (hr : r ∈ (parse source).1.rules)
    (hcolon : (lex source).FirstText [':'] r.span.start r.span.colon)
    (hbody : (lex source).FormsBody (r.span.colon + 1) r.span.stop) :
    ∃ as tss text, r.alternatives (lex source) = .ok as ∧
      as.mapM (·.texts (lex source)) = .ok tss ∧ r.leftRecursionRemoved (lex source) = .ok text ∧
      ((lex text).FormsBody 0 (lex text).size ↔ ∀ ts ∈ tss, ¬ Formed.SuffixedCall r.name ts) := by
  obtain ⟨_, _, -, hreports, haccount⟩ := account_parse source
  have hsound := sound_of_lexDiagnostics (List.append_eq_nil_iff.mp (hreports.symm.trans hquiet)).1
  have hdelimits := haccount.delimited r hr
  obtain ⟨ks, hks, has⟩ :=
    Rule.exists_lexed_body (readable_lex source) hcolon hdelimits.colon_lt_stop
  have hplace := (formsBody_lex_iff.mp hbody).inPlace
  have hlexemes : ks.map (·.2) =
      ((significant source).take r.span.stop).drop (r.span.colon + 1) := by
    rw [Rule.map_snd_eq_of_lexed hks ((readsAs_lex source).forall₂_plain _ _)]
    refine List.filter_eq_self.mpr fun l hl => decide_eq_true ?_
    have hmem : l ∈ significant source := List.mem_of_mem_take (List.mem_of_mem_drop hl)
    exact kind_ne_block_of_role (List.mem_of_mem_filter hmem) (hplace.roles l hl)
  have htold := Alternative.says_split (cuts_unblocked hsound hplace.roles) hks
  obtain ⟨heads, tails, hregroup, hheads, htails⟩ := Rule.exists_regroup r htold
  refine ⟨_, ((split 0 [] ks).map (List.map (·.2))).map (List.map Lexeme.text), _, has,
    mapM_eq_ok (List.forall₂_map_right_iff.mpr (htold.imp fun _ _ h => h.texts)),
    Rule.leftRecursionRemoved_eq has hregroup, ?_⟩
  rw [← hlexemes] at hplace
  rw [formsBody_lex_size, significant_of_reads hheads htails,
    Formed.body_parts_iff (name_ne_paren hdelimits) (List.forall_mem_map.mpr hplace.of_mem_split),
    List.forall_mem_map, List.forall_mem_map, List.forall_mem_map]

/-- A rule with a group that is repeated, an empty branch, and a suffix that is not that of a
call. -/
theorem formsBody_rewritten_of_group :
    let source := "e : e '+' ( t | ) * | e | ID ? e ;".toList
    let r : Rule := ⟨['e'], ⟨0, 1, 15⟩, true, false, true, [], ⟨0, 3⟩⟩
    (parse source).2 = [] ∧ r ∈ (parse source).1.rules ∧ (lex source).FirstText [':'] 0 1 ∧
      (lex source).FormsBody 2 15 ∧
      ∃ as tss text, r.alternatives (lex source) = .ok as ∧
        as.mapM (·.texts (lex source)) = .ok tss ∧
        r.leftRecursionRemoved (lex source) = .ok text ∧
        ((lex text).FormsBody 0 (lex text).size ↔
          ∀ ts ∈ tss, ¬ Formed.SuffixedCall r.name ts) := by
  intro source r
  have hquiet : (parse source).2 = [] := by decide +kernel
  have hr : r ∈ (parse source).1.rules := by decide +kernel
  have hcolon : (lex source).FirstText [':'] 0 1 :=
    (firstText_self (by decide +kernel) (by decide +kernel)).of_succ (by decide +kernel)
  have hbody : (lex source).FormsBody 2 15 := by decide +kernel
  exact ⟨hquiet, hr, hcolon, hbody, formsBody_rewritten_iff hquiet hr hcolon hbody⟩

/-- A call with a suffix leaves the suffix behind, with nothing in front of it. -/
theorem not_formsBody_of_suffixed_call :
    let source := "e : e * x | t ;".toList
    let r : Rule := ⟨['e'], ⟨0, 1, 7⟩, true, false, true, [], ⟨0, 1⟩⟩
    let text := "(t) (* x)*".toList
    (parse source).2 = [] ∧ r ∈ (parse source).1.rules ∧ (lex source).FormsBody 2 7 ∧
      r.leftRecursionRemoved (lex source) = .ok text ∧
      ¬ (lex text).FormsBody 0 (lex text).size := by
  decide +kernel

end Grammar
end GrammarAtlas
