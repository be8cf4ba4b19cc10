import GrammarAtlas.Proofs.Grammar.Inside
import GrammarAtlas.Proofs.Grammar.Views
import GrammarAtlas.Proofs.Rule.Texts

/-!
# A rule by itself

The text of a rule, from its name through its semicolon, is a source, too.  Parsed by itself
it has that rule and no other one, with the same alternatives, the same texts and the same
mark for left recursion (`exists_cutOut`).

What is looked at in a stream is seen in every stream that it stands inside; here it is the
other way round.  A search in the other stream that stays in front of the last token of the
stream is a search in the stream (`Inside.of_boundsFrom`).  So the look that has found the
rule is made at the first token of its text (`Rule.FoundIn.of_inside`), and it leaves nothing
to look at (`Rule.FoundIn.scanFrom_eq`).
-/

namespace GrammarAtlas
namespace TokenStream

variable {m : Nat → Nat → Prop} {k i j colon stop : Nat} {s s' : TokenStream} {text : Text}

/-! ## Searches in the other stream -/

namespace Inside

theorem of_firstText (h : Inside m k s s') (hj : j < s.size)
    (hfirst : s'.FirstText text (k + i) (k + j)) : s.FirstText text i j where
  le := Nat.le_of_add_le_add_left hfirst.le
  lt_size := hj
  text_at := (h.textAt (.inl hj)).symm.trans hfirst.text_at
  none_before := by
    intro n hin hnj
    rw [← h.textAt (.inl (Nat.lt_trans hnj hj))]
    exact hfirst.none_before (k + n) (Nat.add_le_add_left hin k) (Nat.add_lt_add_left hnj k)

/-- A clause starts in both streams, if the stream has the token behind its first word. -/
theorem opensClause_iff (h : Inside m k s s') (hi : i + 1 < s.size) :
    s'.OpensClause (k + i) ↔ s.OpensClause i := by
  obtain ⟨t, ht⟩ := exists_get? hi
  obtain ⟨t', ht', hkind, -⟩ := h.token (i + 1) t ht
  rw [← Nat.add_assoc] at ht'
  simp only [OpensClause, h.textAt (.inl (Nat.lt_of_succ_lt hi)), ht, ht', Option.some.injEq,
    exists_eq_left', hkind]

theorem of_prelude (h : Inside m k s s') (hj : j < s.size) (hprelude : s'.Prelude (k + i) (k + j)) :
    s.Prelude i j := by
  generalize hfrom : k + i = i' at hprelude
  generalize hto : k + j = j' at hprelude
  induction hprelude generalizing i with
  | here i' =>
    obtain rfl : i = j := Nat.add_left_cancel (hfrom.trans hto.symm)
    exact .here i
  | @token i' j' _ hcolon hsemi hopens hprelude ih =>
    subst hfrom hto
    have hlt : i < j := Nat.lt_of_add_lt_add_left hprelude.le
    have hi : i < s.size := Nat.lt_trans hlt hj
    rw [h.textAt (.inl hi)] at hcolon hsemi
    rw [h.opensClause_iff (Nat.lt_of_le_of_lt hlt hj)] at hopens
    exact .token hi hcolon hsemi hopens (ih rfl rfl)
  | @clause i' semi' j' hopens hsemi hprelude ih =>
    subst hfrom hto
    have hle := hsemi.le
    have hle' := hprelude.le
    obtain ⟨semi, rfl⟩ := Nat.exists_eq_add_of_le (show k ≤ semi' by omega)
    rw [h.opensClause_iff (by omega)] at hopens
    exact .clause hopens (h.of_firstText (by omega) hsemi) (ih rfl rfl)

/-- **The bounds of a rule** that lie in the stream are its bounds there. -/
theorem of_boundsFrom (h : Inside m k s s') (hstop : stop < s.size)
    (hbounds : s'.BoundsFrom (k + i) (some (k + colon), some (k + stop))) :
    s.BoundsFrom i (some colon, some stop) := by
  obtain ⟨hprelude, hcolon, hsemi⟩ := boundsFrom_both_iff.mp hbounds
  have hlt : colon < stop := Nat.lt_of_add_lt_add_left hsemi.le
  have hsize : colon < s.size := Nat.lt_trans hlt hstop
  rw [h.textAt (.inl hsize)] at hcolon
  exact .both (h.of_prelude hsize hprelude) hcolon (h.of_firstText hstop hsemi)

end Inside

end TokenStream

/-! ## The look at the rule -/

namespace Rule.FoundIn

open TokenStream

variable {m : Nat → Nat → Prop} {k : Nat} {s s' : TokenStream} {r : Rule} {span : RuleSpan}

/-- Where a name opens a rule and has its bounds behind it, a rule is found. -/
theorem exists_of_opening (hr : s.Readable) {t : Token} {name : Text}
    (ht : s.get? span.start = some t) (hopening : s.opening span.start t = .ok (.rule name))
    (hbounds : s.BoundsFrom (span.start + 1) (some span.colon, some span.stop)) :
    ∃ r : Rule, r.FoundIn s ∧ r.name = name ∧ r.span = span := by
  obtain ⟨hprelude, -, hsemi⟩ := boundsFrom_both_iff.mp hbounds
  have hordered : span.Ordered := ⟨Nat.le_of_succ_le hprelude.le, hsemi.le⟩
  obtain ⟨_, hrules, made, r, hmake, hdone, rfl⟩ :=
    declared_yields hr hordered hsemi.lt_size name
  have hmade : r.name = name ∧ r.span = span := by
    rw [eq_of_completed hdone, eq_of_make hmake]
    exact ⟨rfl, rfl⟩
  obtain ⟨rfl, rfl⟩ := hmade
  exact ⟨r, ⟨⟨t, ht, hopening⟩, hbounds, hrules⟩, rfl, rfl⟩

/-- **A rule of the other stream** that lies in the stream is a rule of the stream. -/
theorem of_inside (hfound : r.FoundIn s') (h : Inside m k s s') (hr : s.Readable)
    (hr' : s'.Readable) (hspan : r.span = span.moved k) (hstop : span.stop < s.size) :
    ∃ r' : Rule, r'.FoundIn s ∧ r'.span = span ∧ r = r'.moved k := by
  obtain ⟨⟨t', ht', hopening⟩, hbounds, hdeclared⟩ := hfound
  rw [hspan] at ht' hopening hbounds hdeclared
  have hbounds : s.BoundsFrom (span.start + 1) (some span.colon, some span.stop) :=
    h.of_boundsFrom hstop hbounds
  obtain ⟨hprelude, hcolon, hsemi⟩ := boundsFrom_both_iff.mp hbounds
  have hordered : span.Ordered := ⟨Nat.le_of_succ_le hprelude.le, hsemi.le⟩
  have hstart : span.start < s.size :=
    Nat.lt_of_le_of_lt hordered.1 (Nat.lt_trans hordered.2 hstop)
  obtain ⟨t, ht⟩ := exists_get? hstart
  obtain ⟨u', hu', hkind, htext, -⟩ := h.token span.start t ht
  obtain rfl : u' = t' := Option.some.inj (hu'.symm.trans ht')
  obtain ⟨r', hfound, hname, hspan'⟩ := exists_of_opening hr ht
    ((h.opening ht hkind htext).symm.trans hopening) hbounds
  have hrules := hfound.declared
  rw [hname, hspan'] at hrules
  have hmoved := h.declared hr hr' hordered hstop hcolon hrules
  exact ⟨r', hfound, hspan', List.singleton_inj.mp (Except.ok.inj (hdeclared.symm.trans hmoved))⟩

/-- The look at the rule's name. -/
theorem exists_visit (h : r.FoundIn s) (hr : s.Readable) :
    ∃ t, s.get? r.span.start = some t ∧
      s.visit r.span.start t =
        .ok (⟨r.span.start, .rule r.name, [r], []⟩, some (r.span.stop + 1)) := by
  obtain ⟨⟨t, ht, hopening⟩, hbounds, hdeclared⟩ := h
  refine ⟨t, ht, ?_⟩
  rw [visit, hopening]
  show s.visitRule r.span.start r.name = _
  simp only [visitRule, ruleBounds_of_boundsFrom hr hbounds, hdeclared, bind, Except.bind]
  rfl

/-- A stream that is one rule has no other look. -/
theorem scanFrom_eq (h : r.FoundIn s) (hr : s.Readable) (hsize : s.size ≤ r.span.stop + 1) :
    s.scanFrom r.span.start = .ok [⟨r.span.start, .rule r.name, [r], []⟩] := by
  obtain ⟨t, ht, hvisit⟩ := h.exists_visit hr
  rw [scanFrom_of_visit ht hvisit, scanFrom_of_size_le hsize]
  rfl

end Rule.FoundIn

namespace Grammar

open TokenStream

variable {source part : Text} {r r' : Rule}

/-- **The rule by itself.**  `part` is the text of the rule `r`, and the grammar of that text
has the rule `r'` only, which is `r` counted from the beginning of its text. -/
structure CutOut (source : Text) (r : Rule) (part : Text) (r' : Rule) : Prop where
  slice : source.slice? (r.startOffset (lex source)) (r.stopOffset (lex source)) = some part
  rules : (parse part).1.rules = [r']
  name : r.name = r'.name
  span : r.span = r'.span.moved r.span.start
  leftRecursive : r.leftRecursive = r'.leftRecursive
  alternatives : ∃ as, r'.alternatives (lex part) = .ok as ∧
    r.alternatives (lex source) = .ok (as.map (·.moved r.span.start)) ∧
    ∀ a ∈ as, a.ReadsAlike (lex part) (lex source) (a.moved r.span.start)
  leftRecursionRemoved : ∃ text, r'.leftRecursionRemoved (lex part) = .ok text ∧
    r.leftRecursionRemoved (lex source) = .ok text

/-- The part from a rule's name through its semicolon is the text of the rule. -/
theorem slice?_of_part {as bs cs : List Lexeme}
    (h : Part source r.span.start r.span.stop as bs cs) :
    source.slice? (r.startOffset (lex source)) (r.stopOffset (lex source)) =
      some (bs.flatMap Lexeme.text) := by
  obtain ⟨t, u, ht, hu, -, hslice⟩ := h.exists_slice?
  rw [Rule.startOffset, Rule.stopOffset, ht, hu]
  exact hslice

/-- A source that is one rule has a grammar of that rule. -/
theorem rules_parse_of_foundIn (h : r.FoundIn (lex part)) (hstart : r.span.start = 0)
    (hsize : (lex part).size ≤ r.span.stop + 1) :
    ∃ r', (parse part).1.rules = [r'] ∧ r'.unlinked = r := by
  obtain ⟨visits, ds, hscan, -, haccount⟩ := account_parse part
  have hone := h.scanFrom_eq (readable_lex part) hsize
  rw [hstart] at hone
  obtain rfl := Except.ok.inj (hone.symm.trans hscan)
  have hrules := haccount.rules
  rw [List.flatMap_singleton] at hrules
  obtain ⟨r', hr', hunlinked⟩ := List.map_eq_singleton_iff.mp hrules
  exact ⟨r', hr', hunlinked⟩

/-- What a rule by itself says of its alternatives, the rule in the source says of them. -/
theorem exists_alternatives_excerpt {k bytes : Nat} (h : Excerpt k bytes (lex part) (lex source))
    (hdelimits : r'.span.Delimits (lex part) r'.name) :
    ∃ as, r'.alternatives (lex part) = .ok as ∧
      (r'.moved k).alternatives (lex source) = .ok (as.map (·.moved k)) ∧
      ∀ a ∈ as, a.ReadsAlike (lex part) (lex source) (a.moved k) := by
  have hr := readable_lex part
  obtain ⟨c, hfirst, -, hle⟩ := exists_first_colon hdelimits
  have hc := Nat.lt_of_le_of_lt hle hdelimits.colon_lt_stop
  have hbody := Rule.colonAndBody_eq hr hfirst hc
  obtain ⟨as, has, has'⟩ := h.inside.alternatives hr (readable_lex source) hdelimits
  refine ⟨as, has, has', fun a ha => ?_⟩
  refine Alternative.readsAlike_moved h (fun i hi => ?_)
    (Rule.increasing_of_alternatives hr hbody has ha)
  exact Nat.lt_trans (Rule.mem_range_of_alternatives hr hbody has ha hi).2
    hdelimits.stop_lt_size

/-- The text of a rule has a grammar of that rule, counted from its name. -/
theorem exists_rule_of_part {k bytes : Nat} (hr : r ∈ (parse source).1.rules)
    (hk : r.span.start = k) (hsize : (lex part).size = r.span.stop + 1 - k)
    (h : Excerpt k bytes (lex part) (lex source)) :
    ∃ r', (parse part).1.rules = [r'] ∧ r.unlinked = r'.unlinked.moved k := by
  obtain ⟨_, _, -, -, haccount⟩ := account_parse source
  have hdelimits := haccount.delimited r hr
  have hstart := hdelimits.start_lt_colon
  have hcolon := hdelimits.colon_lt_stop
  let span : RuleSpan := ⟨0, r.span.colon - k, r.span.stop - k⟩
  have hspan : r.span = span.moved k := by
    simp only [span, RuleSpan.moved, Nat.add_zero, ← hk, Nat.add_sub_cancel' (Nat.le_of_lt hstart),
      Nat.add_sub_cancel' (Nat.le_of_lt (Nat.lt_trans hstart hcolon))]
  have hstop : span.stop + 1 = (lex part).size := by
    show r.span.stop - k + 1 = _
    omega
  obtain ⟨r₁, hfound, hspan₁, hmoved⟩ := (haccount.foundIn hr).of_inside h.inside
    (readable_lex part) (readable_lex source) hspan (Nat.lt_of_succ_le (Nat.le_of_eq hstop))
  obtain ⟨r', hrules, rfl⟩ := rules_parse_of_foundIn hfound (congrArg (·.start) hspan₁)
    (hspan₁ ▸ Nat.le_of_eq hstop.symm)
  exact ⟨r', hrules, hmoved⟩

/-- **Every rule can be cut out and parsed by itself.** -/
theorem exists_cutOut (source : Text) :
    ∀ r ∈ (parse source).1.rules, ∃ part r', CutOut source r part r' := by
  intro r hr
  obtain ⟨_, _, -, -, haccount⟩ := account_parse source
  have hdelimits := haccount.delimited r hr
  have hle := Nat.le_of_lt (Nat.lt_trans hdelimits.start_lt_colon hdelimits.colon_lt_stop)
  obtain ⟨front, lexemes, back, hpart⟩ := exists_part hle hdelimits.stop_lt_size
  have hexcerpt := hpart.excerpt hle hdelimits.semicolon_at_stop
  obtain ⟨r', hrules, hmoved⟩ := exists_rule_of_part hr rfl hpart.size_eq hexcerpt
  obtain ⟨_, _, -, -, haccount'⟩ := account_parse (lexemes.flatMap Lexeme.text)
  obtain ⟨as, has, has', hreads⟩ := exists_alternatives_excerpt hexcerpt
    (haccount'.delimited r' (hrules ▸ List.mem_singleton_self r'))
  -- Only its name and its span matter for the alternatives of a rule and their texts.
  have hname : r.name = r'.name := congrArg (·.name) hmoved
  have hcut : r.alternatives (lex source) = .ok (as.map (·.moved r.span.start)) :=
    (congrArg (·.alternatives (lex source)) hmoved).trans has'
  exact ⟨_, r', slice?_of_part hpart, hrules, hname, congrArg (·.span) hmoved,
    congrArg (·.leftRecursive) hmoved, ⟨as, has, hcut, hreads⟩,
    Rule.exists_leftRecursionRemoved_moved hname has hcut hreads⟩

/-- A left recursive rule behind another one, with options and a clause in front of its body. -/
theorem exists_cutOut_of_clause :
    let source := "t : 'x'; e options { k = 1; } scope x ; : e '+' t | t ;".toList
    let r : Rule := ⟨['e'], ⟨4, 10, 16⟩, true, false, true, [], ⟨0, 3⟩⟩
    r ∈ (parse source).1.rules ∧ ∃ part r', CutOut source r part r' :=
  ⟨by decide +kernel, exists_cutOut _ _ (by decide +kernel)⟩

end Grammar
end GrammarAtlas
