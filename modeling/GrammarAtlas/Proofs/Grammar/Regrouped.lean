import GrammarAtlas.Proofs.Grammar.Excerpt
import GrammarAtlas.Proofs.Rule.Regrouping

/-!
# Left recursion removed

The rewritten body of a rule is regrouped from its alternatives (`regrouped_of_mem_rules`): the
heads in parentheses, and then the tails in parentheses and a star.  With the name and a colon in
front and a semicolon behind, it is a source of one rule with one alternative, which does not
call the rule first.

A source that consists of a name, a colon, a body without semicolons and a semicolon is one rule,
whatever the body is (`exists_rule_alone`).  That there is one alternative is due to the
parentheses, in which no pipe is a separator; so those of the rule must be balanced.
-/

namespace GrammarAtlas
namespace TokenStream

open Lexeme

variable {s s' : TokenStream} {name : Text} {i : Nat} {c : Char} {k : TokenKind} {ls : List Lexeme}

/-- The texts of the tokens that are no blocks. -/
def plainTexts (s : TokenStream) : Except ReadFault (List Text) :=
  (s.tokens.filter (·.kind ≠ .block)).mapM s.text

theorem plainTexts_lex (source : Text) :
    (lex source).plainTexts = .ok ((Lexeme.plain source).map Lexeme.text) :=
  mapM_eq_ok (List.forall₂_map_right_iff.mpr
    ((forall₂_filter_block (readsAs_lex source)).imp fun _ _ h => h.2))

/-! ## The name of a rule -/

/-- A name is no mark. -/
theorem ne_singleton_of_scan (h : scan name = [⟨.id, name⟩]) (hpiece : piece c [] = (⟨k, [c]⟩, []))
    (hk : k ≠ .id) : name ≠ [c] := by
  rintro rfl
  have hone := h.symm.trans (scan_singleton hpiece)
  exact hk (congrArg Lexeme.kind (List.cons.inj hone).1).symm

theorem spliceable_of_scan (h : scan name = [⟨.id, name⟩]) : Spliceable name where
  sound := by
    rw [h]
    exact List.forall_mem_singleton.mpr ⟨nofun, nofun⟩
  no_comment := by
    rw [h]
    exact .singleton _
  last := by
    rw [h]
    rintro l ⟨⟩
    rfl

/-- A name at which a rule starts would start one in front of a colon, too. -/
theorem StartsRule.of_colon (h : s.StartsRule i name)
    (hread : s'.ReadsAs (⟨.id, name⟩ :: mark ':' :: ls)) : s'.StartsRule 0 name where
  identifier := hread.getElem? (l := ⟨.id, name⟩) rfl
  no_header := h.no_header
  no_grammar := by
    rintro - hgrammar
    have hcolon : s'.textAt 1 = .ok [':'] := hread.textAt 1
    exact absurd (Except.ok.inj (hcolon.symm.trans hgrammar)) (by decide)
  no_settings := by
    rintro - u hu hblock
    obtain ⟨l, hl, hkind, -⟩ := hread.exists_getElem? hu
    obtain rfl : mark ':' = l := Option.some.inj hl
    exact absurd (hkind.symm.trans hblock) (by decide)
  no_action := h.no_action
  no_modifier := h.no_modifier

end TokenStream

/-- A rule that has been found starts at its name. -/
theorem Rule.FoundIn.startsRule {r : Rule} {s : TokenStream} (h : r.FoundIn s) (hr : s.Readable) :
    s.StartsRule r.span.start r.name := by
  obtain ⟨t, ht, hopening⟩ := h.opening
  obtain ⟨opening, hopening', hstarts⟩ := TokenStream.opening_yields hr ht
  exact (hstarts r.name).mp (Except.ok.inj (hopening'.symm.trans hopening))

namespace Grammar

open TokenStream Lexeme Branches

variable {source part name : Text} {s : TokenStream} {i : Nat} {body : List Lexeme} {r : Rule}

/-- The mark for left recursion is set where it is detected. -/
theorem detectLeftRecursion_of_mem_rules (hr : r ∈ (parse source).1.rules) :
    r.detectLeftRecursion (lex source) = .ok r.leftRecursive := by
  obtain ⟨_, _, -, -, haccount⟩ := account_parse source
  obtain ⟨b, hdetect, hmark⟩ := exists_of_bind_ok (haccount.foundIn hr).completed_eq
  obtain rfl : b = r.leftRecursive := congrArg (·.leftRecursive) (Except.ok.inj hmark)
  exact hdetect

/-! ## A source that is one rule -/

/-- The lexemes of a source that is one rule with a body. -/
def oneRule (name : Text) (body : List Lexeme) : List Lexeme :=
  ⟨.id, name⟩ :: mark ':' :: (body ++ [mark ';'])

/-- A body without semicolons ends at the first one behind it. -/
theorem firstText_oneRule (hread : s.ReadsAs (oneRule name body))
    (hbody : ∀ l ∈ body, l.text ≠ [';']) : s.FirstText [';'] 2 (body.length + 2) where
  le := Nat.le_add_left 2 _
  lt_size := by
    rw [hread.size]
    simp [oneRule]
  text_at := by
    rw [hread.textAt]
    simp [oneRule, mark]
  none_before := by
    intro k hk hlt htext
    obtain ⟨j, rfl⟩ := Nat.exists_eq_add_of_le' hk
    have hj : j < body.length := Nat.lt_of_add_lt_add_right hlt
    rw [hread.textAt] at htext
    simp only [oneRule, List.getElem?_cons_succ, List.getElem?_append_left hj,
      List.getElem?_eq_getElem hj] at htext
    exact hbody body[j] (List.getElem_mem hj) (Except.ok.inj htext)

theorem exists_foundIn_oneRule (hr : s.Readable) (hread : s.ReadsAs (oneRule name body))
    (hstarts : s.StartsRule 0 name) (hbody : ∀ l ∈ body, l.text ≠ [';']) :
    ∃ r : Rule, r.FoundIn s ∧ r.name = name ∧ r.span = ⟨0, 1, body.length + 2⟩ := by
  have hfirst := firstText_oneRule hread hbody
  have hcolon : s.textAt 1 = .ok [':'] := hread.textAt 1
  have hbounds : s.BoundsFrom 1 (some 1, some (body.length + 2)) := .both (.here 1) hcolon hfirst
  obtain ⟨t, ht, -, -⟩ := hstarts.identifier
  obtain ⟨opening, hopening, hstarts'⟩ := opening_yields hr ht
  obtain rfl := (hstarts' name).mpr hstarts
  exact Rule.FoundIn.exists_of_opening hr ht hopening hbounds

/-- **A body without separators is one alternative.** -/
theorem alternatives_oneRule (h : significant part = oneRule name body)
    (hr : r ∈ (parse part).1.rules) (hspan : r.span = ⟨0, 1, body.length + 2⟩)
    (hwhole : Whole 0 (body.filter (·.kind ≠ .block))) (hne : body.filter (·.kind ≠ .block) ≠ []) :
    ∃ a, r.alternatives (lex part) = .ok [a] ∧ ∀ name, a.startsWith (lex part) name =
      .ok (decide ((body.filter (·.kind ≠ .block)).head?.map Lexeme.text = some name)) := by
  obtain ⟨_, _, -, -, haccount⟩ := account_parse part
  have hdelimits := haccount.delimited r hr
  obtain ⟨c, hfirst, hlt, hle⟩ := exists_first_colon hdelimits
  rw [hspan] at hlt hle
  obtain rfl : c = 1 := Nat.le_antisymm hle hlt
  obtain ⟨ks, hks, has⟩ := Rule.exists_lexed_body (readable_lex part) hfirst
    (hspan ▸ Nat.lt_add_left body.length (Nat.lt_succ_self 1))
  rw [hspan] at hks
  have hread := (readsAs_lex part).forall₂_plain 2 (body.length + 2)
  have hslice : ((significant part).take (body.length + 2)).drop 2 = body := by
    rw [h]
    simp [oneRule]
  rw [hslice] at hread
  have hlexemes := Rule.map_snd_eq_of_lexed hks hread
  rw [← hlexemes] at hwhole hne ⊢
  have hsplit : split 0 [] ks = [ks] :=
    split_eq_singleton hwhole fun hnil => hne (by rw [show ks = [] from hnil, List.map_nil])
  rw [hsplit] at has
  exact ⟨_, has, Alternative.startsWith_of_lexed hks List.infix_rfl⟩

/-- **A name, a colon, a body without semicolons and separators, and a semicolon** are one rule
with one alternative. -/
theorem exists_rule_alone (h : significant part = oneRule name body) (hstarts : s.StartsRule i name)
    (hbody : ∀ l ∈ body, l.text ≠ [';']) (hwhole : Whole 0 (body.filter (·.kind ≠ .block)))
    (hne : body.filter (·.kind ≠ .block) ≠ []) :
    ∃ r a, (parse part).1.rules = [r] ∧ r.name = name ∧ r.alternatives (lex part) = .ok [a] ∧
      r.leftRecursive =
        decide ((body.filter (·.kind ≠ .block)).head?.map Lexeme.text = some name) := by
  have hread := readsAs_lex part
  rw [h] at hread
  obtain ⟨_, hfound, rfl, hspan⟩ := exists_foundIn_oneRule (readable_lex part) hread
    (hstarts.of_colon hread) hbody
  obtain ⟨r, hrules, rfl⟩ := rules_parse_of_foundIn hfound (congrArg (·.start) hspan) (by
    rw [hspan, hread.size]
    simp [oneRule])
  have hr : r ∈ (parse part).1.rules := hrules ▸ List.mem_singleton_self r
  obtain ⟨a, has, hstartsWith⟩ := alternatives_oneRule h hr hspan hwhole hne
  refine ⟨r, a, hrules, rfl, has, ?_⟩
  have hone (f : Alternative → Except ReadFault Bool) : [a].anyM f = f a := by
    rw [List.anyM]
    rcases f a with _ | (_ | _) <;> rfl
  -- The mark is what is detected, and that is whether the only alternative calls the rule first.
  have hdetect : [a].anyM (·.startsWith (lex part) r.name) = .ok r.leftRecursive := by
    have hdetect := detectLeftRecursion_of_mem_rules hr
    rwa [Rule.detectLeftRecursion, has] at hdetect
  rw [hone, hstartsWith] at hdetect
  exact (Except.ok.inj hdetect).symm

/-! ## The rewritten body -/

/-- The text of a rule with a body. -/
def ruleText (name body : Text) : Text := name ++ " : ".toList ++ body ++ " ;".toList

/-- **The rewritten body of a rule**: without its blocks it is regrouped from the alternatives of
the rule, and by itself it is the one alternative of one rule, which is not left recursive. -/
structure Regrouped (source : Text) (r : Rule) (text : Text) : Prop where
  texts : ∃ as tss, r.alternatives (lex source) = .ok as ∧
    as.mapM (·.texts (lex source)) = .ok tss ∧
    (lex text).plainTexts = .ok (Rule.regrouped (fun c => [c]) (r.heads tss) (r.tails tss))
  alone : ∃ r' a, (parse (ruleText r.name text)).1.rules = [r'] ∧ r'.name = r.name ∧
    r'.alternatives (lex (ruleText r.name text)) = .ok [a] ∧ r'.leftRecursive = false

/-- The alternatives of a rule, told by the lexemes of each. -/
structure Branched (source : Text) (r : Rule) (as : List Alternative)
    (lss : List (List Lexeme)) : Prop where
  alternatives : r.alternatives (lex source) = .ok as
  told : List.Forall₂ (Alternative.Says Spliceable (lex source)) as lss
  nested : ∀ ls ∈ lss, Nested ls
  no_semicolon : ∀ ls ∈ lss, ∀ l ∈ ls, l.text ≠ [';']

theorem exists_branched (hsound : ∀ l ∈ scan source, l.Sound)
    (hcomment : (lex source).NoOpenComment) (hr : r ∈ (parse source).1.rules)
    (hcolon : (lex source).FirstText [':'] r.span.start r.span.colon)
    (hbalanced : (lex source).Balanced r.span.colon r.span.stop) :
    ∃ as lss, Branched source r as lss := by
  obtain ⟨_, _, -, -, haccount⟩ := account_parse source
  have hdelimits := haccount.delimited r hr
  have hlt := hdelimits.colon_lt_stop
  obtain ⟨ks, hks, has⟩ := Rule.exists_lexed_body (readable_lex source) hcolon hlt
  refine ⟨_, (split 0 [] ks).map (List.map (·.2)), has, ?_, ?_, ?_⟩
  · exact Alternative.says_split (cuts_spliceable hsound hcomment _ _) hks
  · exact List.forall_mem_map.mpr (Rule.nested_of_balanced hbalanced hlt hks)
  · intro ls hls l hl hsemi
    obtain ⟨b, hb, rfl⟩ := List.mem_map.mp hls
    obtain ⟨k, hk, rfl⟩ := List.mem_map.mp hl
    have hmem : k ∈ ks := (infix_of_mem_split hb).subset hk
    have htext := Rule.textAt_of_lexed hks hmem
    obtain ⟨p, hp, hindex, -⟩ := exists_of_mem_right hks hmem
    obtain ⟨-, hle, hlt⟩ := get?_of_mem_plain hp
    rw [hsemi, hindex] at htext
    exact hdelimits.no_semicolon_between p.1 hle hlt htext

variable {heads tails : List Text} {hs ts : List (List Lexeme)}

/-- **A rewritten body as the body of a rule**: none of its lexemes runs into the others. -/
theorem significant_ruleText (hname : scan name = [⟨.id, name⟩])
    (hheads : ∀ u ∈ heads, Spliceable u) (htails : ∀ u ∈ tails, Spliceable u) :
    significant (ruleText name (Rule.rewritten heads tails)) =
      oneRule name (significant (Rule.rewritten heads tails)) := by
  have hbody (v : Text) : significant (Rule.rewritten heads tails ++ v) =
      significant (Rule.rewritten heads tails) ++ significant v := by
    have hself := significant_rewritten hheads htails []
    rw [significant_nil, List.append_nil, List.append_nil] at hself
    rw [significant_rewritten hheads htails, hself]
  have hsemi : significant " ;".toList = [mark ';'] := by decide +kernel
  have htext : ruleText name (Rule.rewritten heads tails) =
      name ++ ' ' :: ':' :: ' ' :: (Rule.rewritten heads tails ++ " ;".toList) := by
    simp [ruleText]
  have hcolon (t : Text) : significant (':' :: ' ' :: t) = mark ':' :: significant t := by
    rw [significant_mark (by decide) rfl (by simp [pair?]) (by decide), significant_space]
    rfl
  rw [htext, (spliceable_of_scan hname).significant_append (by simp [ends_space]),
    significant_space, hcolon, hbody, hsemi, significant, hname]
  rfl

/-- A text in which no semicolon stands but in blocks has no lexeme that is one. -/
theorem text_ne_of_plain {t : Text} (h : ∀ l ∈ Lexeme.plain t, l.text ≠ [';']) :
    ∀ l ∈ significant t, l.text ≠ [';'] := by
  intro l hl hsemi
  obtain rfl : l = ⟨.semi, [';']⟩ := eq_of_text_singleton (List.mem_of_mem_filter hl) hsemi rfl
  exact h _ (List.mem_filter.mpr ⟨hl, by decide⟩) rfl

/-- **By itself a rewritten body is one alternative**, which does not call the rule first. -/
theorem exists_rule_rewritten (hstarts : s.StartsRule i name) (hname : scan name = [⟨.id, name⟩])
    (hheads : List.Forall₂ (Reads Spliceable) heads hs)
    (htails : List.Forall₂ (Reads Spliceable) tails ts)
    (hnested : (∀ ls ∈ hs, Nested ls) ∧ ∀ ls ∈ ts, Nested ls)
    (hsemi : ∀ ls ∈ hs ++ ts, ∀ l ∈ ls, l.text ≠ [';']) :
    ∃ r a, (parse (ruleText name (Rule.rewritten heads tails))).1.rules = [r] ∧ r.name = name ∧
      r.alternatives (lex (ruleText name (Rule.rewritten heads tails))) = .ok [a] ∧
      r.leftRecursive = false := by
  have hlexemes := significant_ruleText hname (forall_of_reads hheads)
    (forall_of_reads htails)
  have hplain := plain_rewritten hheads htails
  -- A semicolon would be a mark, or it would stand in one of the parts.
  have hnone : ∀ l ∈ Lexeme.plain (Rule.rewritten heads tails), l.text ≠ [';'] := by
    intro l hl
    rw [hplain] at hl
    obtain ⟨c, hc, rfl⟩ | ⟨ls, hls, hl⟩ := Rule.mem_regrouped hl
    · have hmarks : ∀ c ∈ "(|)*".toList, (mark c).text ≠ [';'] := by simp [mark]
      exact hmarks c hc
    · exact hsemi ls hls l hl
  have hwhole := whole_regrouped hnested.1 hnested.2
  have hne : Rule.regrouped mark hs ts ≠ [] := by simp [Rule.regrouped]
  rw [← hplain] at hwhole hne
  obtain ⟨r, a, hrules, hname', has, hleft⟩ :=
    exists_rule_alone hlexemes hstarts (text_ne_of_plain hnone) hwhole hne
  refine ⟨r, a, hrules, hname', has, hleft.trans (decide_eq_false fun hhead => ?_)⟩
  have hparen : (Lexeme.plain (Rule.rewritten heads tails)).head?.map Lexeme.text = some ['('] := by
    rw [hplain]
    rfl
  have hk : TokenKind.parenOpen ≠ .id := by decide
  exact ne_singleton_of_scan hname rfl hk (Option.some.inj (hhead.symm.trans hparen))

/-- **The left recursion of a rule is removed by regrouping its alternatives.**  Nothing must be
reported about the source and no comment opened in it, and the body of the rule must begin behind
its first colon and have balanced parentheses. -/
theorem regrouped_of_mem_rules (hquiet : (parse source).2 = [])
    (hcomment : (lex source).NoOpenComment) (hr : r ∈ (parse source).1.rules)
    (hcolon : (lex source).FirstText [':'] r.span.start r.span.colon)
    (hbalanced : (lex source).Balanced r.span.colon r.span.stop) :
    ∃ text, r.leftRecursionRemoved (lex source) = .ok text ∧ Regrouped source r text := by
  obtain ⟨_, _, -, hreports, haccount⟩ := account_parse source
  have hsound := sound_of_lexDiagnostics (List.append_eq_nil_iff.mp (hreports.symm.trans hquiet)).1
  obtain ⟨as, lss, has, htold, hnested, hsemi⟩ :=
    exists_branched hsound hcomment hr hcolon hbalanced
  obtain ⟨heads, tails, hregroup, hheads, htails⟩ := Rule.exists_regroup r htold
  obtain ⟨t, ht, hid, htext⟩ := (haccount.delimited r hr).name_at_start
  have hname := scan_text_token ht htext
  rw [hid] at hname
  refine ⟨_, Rule.leftRecursionRemoved_eq has hregroup, ?_, ?_⟩
  · refine ⟨as, lss.map (List.map Lexeme.text), has,
      mapM_eq_ok (List.forall₂_map_right_iff.mpr (htold.imp fun _ _ h => h.texts)), ?_⟩
    rw [plainTexts_lex, plain_rewritten hheads htails, Rule.map_regrouped,
      Rule.map_text_headLexemes, Rule.map_text_tailLexemes]
    rfl
  · have hstarts := (haccount.foundIn hr).startsRule (readable_lex source)
    have hparen : r.name ≠ ['('] ∧ r.name ≠ [')'] :=
      ⟨ne_singleton_of_scan hname (k := .parenOpen) rfl (by decide),
        ne_singleton_of_scan hname (k := .parenClose) rfl (by decide)⟩
    refine exists_rule_rewritten hstarts hname hheads htails
      ⟨Rule.nested_of_mem_headLexemes hnested, Rule.nested_of_mem_tailLexemes hnested hparen⟩ ?_
    intro ls hls l hl
    obtain ⟨ms, hms, hmem⟩ := Rule.exists_of_mem_parts hls hl
    exact hsemi ms hms l hmem

/-- A rule that calls itself first in two alternatives, with a block, a comment between two tokens
and a pipe in parentheses. -/
theorem regrouped_of_two_calls :
    let source := "e : e '+' t {x} | e | t // c\n u | ( a | b ) ;".toList
    let r : Rule := ⟨['e'], ⟨0, 1, 17⟩, true, false, true, [], ⟨0, 2⟩⟩
    (parse source).2 = [] ∧ (lex source).NoOpenComment ∧ r ∈ (parse source).1.rules ∧
      (lex source).FirstText [':'] 0 1 ∧ (lex source).Balanced 1 17 ∧
      ∃ text, r.leftRecursionRemoved (lex source) = .ok text ∧ Regrouped source r text := by
  intro source r
  have hquiet : (parse source).2 = [] := by decide +kernel
  have hcomment : (lex source).NoOpenComment := by decide +kernel
  have hr : r ∈ (parse source).1.rules := by decide +kernel
  have hcolon : (lex source).FirstText [':'] 0 1 :=
    (firstText_self (by decide +kernel) (by decide +kernel)).of_succ (by decide +kernel)
  have hbalanced : (lex source).Balanced 1 17 := ⟨by decide +kernel, by decide +kernel⟩
  exact ⟨hquiet, hcomment, hr, hcolon, hbalanced,
    regrouped_of_mem_rules hquiet hcomment hr hcolon hbalanced⟩

end Grammar
end GrammarAtlas
