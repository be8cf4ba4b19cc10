import GrammarAtlas.Proofs.Grammar.Arena
import GrammarAtlas.Proofs.Text.Slice
import GrammarAtlas.Rule.Views

/-!
# Asking about a rule of another source

A rule is asked about by its token indices, and these may come from a source that has been
edited since.  In the new source they may stand for other tokens, or for none.  An answer is
given all the same (`answers_about_stale_rule`).

A missing token is passed over wherever one is looked up.  What could go wrong is the reading
of text, and this is settled for all indices at once: from the start of any token to the end
of any other one there is text, if the two are in order (`Readable.textBetween`).  The body
runs from the token behind the colon to the one in front of the semicolon, and whether these
are in order is looked at before the range is made (`bodyRange?_yields`).
-/

namespace GrammarAtlas

namespace TokenStream

variable {s : TokenStream} {t u : Token}

theorem Readable.stop_le_byteSize (hr : s.Readable) (ht : t ∈ s.tokens) :
    t.span.stop ≤ Text.byteSize s.source := by
  obtain ⟨text, htext⟩ := Option.isSome_iff_exists.mp (hr t ht)
  exact Text.le_byteSize_of_slice? htext

/-- Where a token starts and another one stops, the source can be cut. -/
theorem Readable.canRead (hr : s.Readable) (ht : t ∈ s.tokens) (hu : u ∈ s.tokens)
    (hle : t.span.start ≤ u.span.stop) : s.canRead ⟨t.span.start, u.span.stop⟩ := by
  obtain ⟨text, htext⟩ := Option.isSome_iff_exists.mp (hr t ht)
  obtain ⟨text', htext'⟩ := Option.isSome_iff_exists.mp (hr u hu)
  exact Option.isSome_iff_exists.mpr (Text.exists_slice? htext htext' hle)

/-- **The text between any two indices** can be had. -/
theorem Readable.textBetween (hr : s.Readable) (i j : Nat) :
    Yields (s.textBetween i j) fun _ => True := by
  rw [TokenStream.textBetween]
  split
  · rename_i t u ht hu
    split
    · rename_i hle
      obtain ⟨text, htext⟩ := Option.isSome_iff_exists.mp
        (hr.canRead (mem_of_get? ht) (mem_of_get? hu) hle)
      rw [read, htext]
      exact .of_ok trivial
    · exact .of_ok trivial
  · exact .of_ok trivial

/-- An offset that is looked up lies in the source, also where there is no token. -/
theorem Readable.offset_le (hr : s.Readable) (i : Nat) :
    ((s.get? i).map (·.span.start)).getD 0 ≤ Text.byteSize s.source ∧
      ((s.get? i).map (·.span.stop)).getD 0 ≤ Text.byteSize s.source := by
  cases hget : s.get? i with
  | none => exact ⟨Nat.zero_le _, Nat.zero_le _⟩
  | some t =>
    have ht := mem_of_get? hget
    have hstop := hr.stop_le_byteSize ht
    exact ⟨(hr.start_le_stop ht).trans hstop, hstop⟩

end TokenStream

/-! ## Alternatives -/

/-- An alternative has its tokens in a stream, and all of its texts can be read there. -/
structure Alternative.HeldBy (a : Alternative) (s : TokenStream) : Prop where
  lt_size : ∀ i ∈ a.indices, i < s.size
  texts : Yields (a.texts s) fun texts => texts.length = a.size
  text : Yields (a.text s) fun _ => True
  suffixText : Yields (a.suffixText? s) fun _ => True

namespace Alternative

variable {s : TokenStream}

theorem texts_yields (hr : s.Readable) (a : Alternative) :
    Yields (a.texts s) fun texts => texts.length = a.size := by
  have htexts : Yields (a.texts s) (List.Forall₂ (fun _ _ => True) a.indices) :=
    .mapM fun i _ => hr.textAt i
  exact htexts.imp fun _ hall => hall.length_eq.symm

theorem text_yields (hr : s.Readable) (a : Alternative) : Yields (a.text s) fun _ => True := by
  rw [text]
  split
  · exact hr.textBetween _ _
  · exact .of_ok trivial

theorem suffixText?_yields (hr : s.Readable) (a : Alternative) :
    Yields (a.suffixText? s) fun _ => True := by
  have hsome {m : Except ReadFault Text} (hm : Yields m fun _ => True) :
      Yields (some <$> m) fun _ => True := by
    obtain ⟨text, rfl, -⟩ := hm
    exact .of_ok trivial
  rw [suffixText?.eq_def]
  split
  · exact hsome (hr.textAt _)
  · exact hsome (hr.textBetween _ _)
  · exact .of_ok trivial

end Alternative

namespace Rule

open TokenStream

variable {s : TokenStream} {r : Rule}

/-- The tokens of the alternatives are tokens of the stream that they are looked for in. -/
theorem lt_size_of_alternatives (hr : s.Readable) {as : List Alternative}
    (has : r.alternatives s = .ok as) : ∀ a ∈ as, ∀ i ∈ a.indices, i < s.size := by
  intro a ha i hi
  obtain ⟨found, hfound, hcolon⟩ := seekColon_indexed_yields hr r.span.start r.span.stop
  have hbody : r.colonAndBody s = .ok found := hfound
  cases found with
  | none =>
    rw [alternatives, hbody] at has
    cases has
    exact absurd ha List.not_mem_nil
  | some found =>
    obtain ⟨c, body⟩ := found
    obtain ⟨-, -, rfl⟩ := hcolon.first c body rfl
    obtain ⟨ls, hls, rfl⟩ := exists_lexemes_of_alternatives hr hbody has
    obtain ⟨branch, hbranch, rfl⟩ := List.mem_map.mp ha
    obtain ⟨l, hl, rfl⟩ := List.mem_map.mp hi
    have hmem := Branches.mem_of_mem_split hbranch hl
    rw [List.nil_append] at hmem
    obtain ⟨p, hp, hindex, -⟩ := exists_of_mem_right hls hmem
    rw [hindex]
    exact lt_of_get? (get?_of_mem_indexed (List.mem_of_mem_filter hp)).1

theorem heldBy_of_alternatives (hr : s.Readable) (r : Rule) :
    Yields (r.alternatives s) fun as => ∀ a ∈ as, a.HeldBy s := by
  obtain ⟨as, has, -⟩ := alternatives_yields hr r
  refine ⟨as, has, fun a ha => ⟨lt_size_of_alternatives hr has a ha, ?_, ?_, ?_⟩⟩
  · exact a.texts_yields hr
  · exact a.text_yields hr
  · exact a.suffixText?_yields hr

theorem regroup_yields (hr : s.Readable) (r : Rule) (as : List Alternative) :
    Yields (regroup r s as) fun _ => True := by
  induction as with
  | nil => exact .of_ok trivial
  | cons a as ih =>
    rw [regroup]
    split
    · exact ih
    refine (a.startsWith_yields hr r.name).bind fun starts _ _ => ?_
    split
    · refine (a.suffixText?_yields hr).bind fun _ _ _ => ?_
      exact ih.bind fun _ _ _ => .of_ok trivial
    · refine (a.text_yields hr).bind fun _ _ _ => ?_
      exact ih.bind fun _ _ _ => .of_ok trivial

theorem leftRecursionRemoved_yields (hr : s.Readable) (r : Rule) :
    Yields (r.leftRecursionRemoved s) fun _ => True := by
  refine (alternatives_yields hr r).bind fun as _ _ => ?_
  exact (regroup_yields hr r as).bind fun _ _ _ => .of_ok trivial

/-! ## Blocks and the body -/

theorem isOptionsWord_yields (hr : s.Readable) {previous : Option Token}
    (hprevious : ∀ t ∈ previous, t ∈ s.tokens) :
    Yields (isOptionsWord s previous) fun _ => True := by
  rw [isOptionsWord.eq_def]
  split
  · exact .of_ok trivial
  · rename_i t
    split
    · exact (hr.text (hprevious t rfl)).bind fun _ _ _ => .of_ok trivial
    · exact .of_ok trivial

theorem blocksAfter_yields (hr : s.Readable) {previous : Option Token} {ts : List Token}
    (hprevious : ∀ t ∈ previous, t ∈ s.tokens) (hts : ∀ t ∈ ts, t ∈ s.tokens) :
    Yields (blocksAfter s previous ts) fun blocks => blocks.Sublist ts := by
  induction ts generalizing previous with
  | nil => exact .of_ok .slnil
  | cons t ts ih =>
    obtain ⟨ht, hts⟩ := List.forall_mem_cons.mp hts
    have hlast : ∀ u ∈ some t, u ∈ s.tokens := fun u hu => Option.some.inj hu ▸ ht
    rw [blocksAfter]
    split
    · exact (ih hlast hts).imp fun _ hsub => hsub.cons t
    refine (isOptionsWord_yields hr hprevious).bind fun options _ _ => ?_
    split
    · exact (ih hprevious hts).imp fun _ hsub => hsub.cons t
    · exact (ih hlast hts).bind fun _ _ hsub => .of_ok (hsub.cons_cons t)

/-- The rule's tokens are a part of the stream. -/
theorem tokens_infix (r : Rule) (s : TokenStream) : r.tokens s <:+: s.tokens :=
  (List.drop_suffix _ _).isInfix.trans (List.take_prefix _ _).isInfix

theorem blocks_yields (hr : s.Readable) (r : Rule) :
    Yields (r.blocks s) fun blocks => blocks.Sublist (r.tokens s) :=
  blocksAfter_yields hr nofun fun _ ht => (r.tokens_infix s).subset ht

/-- **The range of a body** does not run backwards, and can be read.  The first token is not
behind the last one, since otherwise there is no range. -/
theorem bodyRange?_yields (hr : s.Readable) (hf : s.Forward) (r : Rule) :
    Yields (r.bodyRange? s) fun range => ∀ span ∈ range, span.Forward ∧ s.canRead span ∧
      span.stop ≤ Text.byteSize s.source := by
  refine (seekColon_indexed_yields hr r.span.start r.span.stop).bind fun found _ _ => ?_
  cases found with
  | none => exact .of_ok nofun
  | some found =>
    obtain ⟨c, body⟩ := found
    dsimp only
    split
    · rename_i first last hfirst hlast
      split
      · exact .of_ok nofun
      · rename_i hempty
        have hforward : Span.Forward ⟨first.span.start, last.span.stop⟩ :=
          hf.forward_span hr hfirst hlast (by omega)
        have hrange : Span.forward ⟨first.span.start, last.span.stop⟩ =
            .ok ⟨first.span.start, last.span.stop⟩ := if_pos hforward
        rw [hrange]
        refine .of_ok fun span hspan => ?_
        obtain rfl := Option.some.inj hspan
        exact ⟨hforward, hr.canRead (mem_of_get? hfirst) (mem_of_get? hlast) hforward,
          hr.stop_le_byteSize (mem_of_get? hlast)⟩
    · exact .of_ok nofun

/-- **A stream answers everything that is asked about a rule.**  What is read can be read, what
is given lies in the stream or in its source, and a range does not run backwards. -/
structure AnsweredBy (r : Rule) (s : TokenStream) : Prop where
  alternatives : Yields (r.alternatives s) fun as => ∀ a ∈ as, a.HeldBy s
  leftRecursion : Yields (r.detectLeftRecursion s) fun _ => True
  leftRecursionRemoved : Yields (r.leftRecursionRemoved s) fun _ => True
  blocks : Yields (r.blocks s) fun blocks => blocks.Sublist (r.tokens s)
  tokens : r.tokens s <:+: s.tokens
  bodyRange : Yields (r.bodyRange? s) fun range => ∀ span ∈ range, span.Forward ∧
    s.canRead span ∧ span.stop ≤ Text.byteSize s.source
  startOffset : r.startOffset s ≤ Text.byteSize s.source
  stopOffset : r.stopOffset s ≤ Text.byteSize s.source
  byteLength : r.byteLength s ≤ Text.byteSize s.source
  containsOffset : ∀ offset, r.containsOffset s offset → offset ≤ Text.byteSize s.source
  collapsible : r.isCollapsible s → r.span.colon < s.size ∧ r.span.stop < s.size
  folding : (r.folding s).startOffset ≤ Text.byteSize s.source
  breakpointSite : (r.breakpointSite s).offset ≤ Text.byteSize s.source

theorem answeredBy (hr : s.Readable) (hf : s.Forward) (r : Rule) : r.AnsweredBy s where
  alternatives := heldBy_of_alternatives hr r
  leftRecursion := detectLeftRecursion_yields hr r
  leftRecursionRemoved := leftRecursionRemoved_yields hr r
  blocks := blocks_yields hr r
  tokens := r.tokens_infix s
  bodyRange := bodyRange?_yields hr hf r
  startOffset := (hr.offset_le _).1
  stopOffset := (hr.offset_le _).2
  byteLength := (Nat.sub_le _ _).trans (hr.offset_le _).2
  containsOffset := by
    intro offset h
    rw [Rule.containsOffset, Bool.and_eq_true, decide_eq_true_eq, decide_eq_true_eq] at h
    exact h.2.trans (hr.offset_le _).2
  collapsible := by
    intro h
    rw [isCollapsible] at h
    split at h
    · rename_i hcolon hstop
      exact ⟨lt_of_get? hcolon, lt_of_get? hstop⟩
    · exact absurd h Bool.false_ne_true
  folding := (hr.offset_le _).1
  breakpointSite := (hr.offset_le _).1

end Rule

namespace Grammar

open TokenStream

variable {source : Text} {ref : Reference}

/-- **A grammar answers for a rule**, of whatever grammar that is: its stream does, and the
references that it has for the rule are to tokens and rules of its own, so that each has a
name. -/
structure Answers (g : Grammar) (r : Rule) : Prop where
  answered : r.AnsweredBy g.stream
  references : ∀ ref ∈ g.referencesOf r, ref.token < g.stream.size ∧ ref.rule < g.rules.length
  names : (g.referencedNames r).length = (g.referencesOf r).length

/-- The references of a source are to its tokens and its rules. -/
theorem lt_of_mem_references (href : ref ∈ (parse source).1.references) :
    ref.token < (lex source).size ∧ ref.rule < (parse source).1.rules.length := by
  obtain ⟨visits, -, hlinked, -⟩ := parse_eq source
  have hlength := congrArg List.length (map_name_linked (lex source) (visits.flatMap (·.rules)))
  rw [List.length_map, List.length_map] at hlength
  rw [hlinked] at href ⊢
  obtain ⟨r, -, href⟩ := List.mem_flatMap.mp href
  obtain ⟨-, -, t, name, ht, -, -, ⟨target, htarget, -⟩, -⟩ := mem_referencesBehind_iff.mp href
  rw [hlength]
  exact ⟨lt_of_get? ht, (List.getElem?_eq_some_iff.mp htarget).1⟩

theorem mem_references_of_mem_referencesOf {g : Grammar} {r : Rule}
    (href : ref ∈ g.referencesOf r) : ref ∈ g.references := by
  rw [referencesOf] at href
  split at href
  · exact List.mem_of_mem_take (List.mem_of_mem_drop href)
  · exact absurd href List.not_mem_nil

theorem answers_parse (source : Text) (r : Rule) : (parse source).1.Answers r := by
  have hwithin : ∀ ref ∈ (parse source).1.referencesOf r,
      ref.token < (lex source).size ∧ ref.rule < (parse source).1.rules.length :=
    fun ref href => lt_of_mem_references (mem_references_of_mem_referencesOf href)
  refine ⟨?_, ?_, ?_⟩
  · rw [stream_parse]
    exact r.answeredBy (readable_lex source) (forward_lex source)
  · rw [stream_parse]
    exact hwithin
  · rw [referencedNames, List.length_filterMap_eq_countP]
    refine List.countP_eq_length.mpr fun ref href => ?_
    rw [List.getElem?_eq_getElem (hwithin ref href).2]
    rfl

/-- **A rule may be asked about after an edit.**  The rules of the old source get an answer from
the new one, whatever the two have to do with each other. -/
theorem answers_about_stale_rule (old new : Text) :
    ∀ r ∈ (parse old).1.rules, (parse new).1.stream = .lex new ∧ (parse new).1.Answers r :=
  fun r _ => ⟨stream_parse new, answers_parse new r⟩

/-- Where the rule had its name and its colon there is garbage now, and the colon behind that is
in front of the last token. -/
theorem answers_about_rule_in_garbage :
    let old := "e : e t | t ; t : 'x' ;".toList
    let new := "é 'e :\n: e".toList
    let r : Rule := ⟨['e'], ⟨0, 1, 6⟩, true, false, true, [], ⟨0, 3⟩⟩
    r ∈ (parse old).1.rules ∧ (parse new).1.stream = .lex new ∧ (parse new).1.Answers r := by
  have hr : Rule.mk ['e'] ⟨0, 1, 6⟩ true false true [] ⟨0, 3⟩ ∈
      (parse "e : e t | t ; t : 'x' ;".toList).1.rules := by decide +kernel
  exact ⟨hr, answers_about_stale_rule _ _ _ hr⟩

end Grammar
end GrammarAtlas
