import GrammarAtlas.Proofs.Grammar.Rules
import GrammarAtlas.Proofs.Rule.Body

/-!
# Which blocks a rule lists

A rule lists its blocks of action code, and the block that the word `options` stands in front
of is none.  The search for them remembers the last token that it has not left out.  A block
that is left out is not remembered, so behind it the word is still the last token, and the next
block is left out as well.

So a block is listed unless there is the word and nothing but blocks in front of it
(`blocks_eq`).  That is not what should be left out, which is the block right behind the word
and no other (`ListsBlocks.agree`): of two blocks behind the word, neither is listed
(`blocks_of_two_behind_options`).
-/

namespace GrammarAtlas

namespace TokenStream

variable {s : TokenStream} {start i j : Nat} {t : Token}

/-- The token at the index is the word `options`. -/
def OptionsAt (s : TokenStream) (i : Nat) : Prop :=
  (s.get? i).any fun t => t.kind = .id ∧ s.text t = .ok "options".toList

/-- The token at the index is a block. -/
def BlockAt (s : TokenStream) (i : Nat) : Prop := (s.get? i).any (·.kind = .block)

/-- The word `options` is the token right in front of the index. -/
def RightBehindOptions (s : TokenStream) (i : Nat) : Prop := ∃ j < i, j + 1 = i ∧ s.OptionsAt j

/-- From the index `start` on there is the word `options`, and from there to the index `i` there
are only blocks. -/
def BehindOptions (s : TokenStream) (start i : Nat) : Prop :=
  ∃ j < i, start ≤ j ∧ s.OptionsAt j ∧ ∀ k < i, j < k → s.BlockAt k

instance (s : TokenStream) (i : Nat) : Decidable (s.OptionsAt i) :=
  inferInstanceAs (Decidable (_ = _))

instance (s : TokenStream) (i : Nat) : Decidable (s.BlockAt i) :=
  inferInstanceAs (Decidable (_ = _))

instance (s : TokenStream) (i : Nat) : Decidable (s.RightBehindOptions i) :=
  inferInstanceAs (Decidable (∃ _ < _, _))

instance (s : TokenStream) (start i : Nat) : Decidable (s.BehindOptions start i) :=
  inferInstanceAs (Decidable (∃ _ < _, _))

theorem optionsAt_iff (ht : s.get? i = some t) :
    s.OptionsAt i ↔ t.kind = .id ∧ s.text t = .ok "options".toList := by
  rw [OptionsAt, ht, Option.any_some, decide_eq_true_iff]

theorem blockAt_iff (ht : s.get? i = some t) : s.BlockAt i ↔ t.kind = .block := by
  rw [BlockAt, ht, Option.any_some, decide_eq_true_iff]

/-- The word is no block. -/
theorem OptionsAt.not_blockAt (h : s.OptionsAt i) : ¬ s.BlockAt i := by
  intro hblock
  obtain ⟨t, ht, hword⟩ := (Option.any_eq_true _ _).mp h
  rw [blockAt_iff ht] at hblock
  exact absurd (hblock.symm.trans (of_decide_eq_true hword).1) (by decide)

theorem not_behindOptions_self (s : TokenStream) (start : Nat) : ¬ s.BehindOptions start start := by
  rintro ⟨j, hlt, hle, -⟩
  exact absurd hlt (Nat.not_lt_of_le hle)

/-- Behind a token there is the word and nothing but blocks, if the token is the word, or if it
is a block and there was the word in front of it. -/
theorem behindOptions_succ (hi : start ≤ i) :
    s.BehindOptions start (i + 1) ↔ s.OptionsAt i ∨ (s.BlockAt i ∧ s.BehindOptions start i) := by
  constructor
  · rintro ⟨j, hlt, hle, hword, hblocks⟩
    rcases Nat.eq_or_lt_of_le (Nat.le_of_lt_succ hlt) with rfl | hlt
    · exact .inl hword
    · refine .inr ⟨hblocks i (Nat.lt_succ_self i) hlt, j, hlt, hle, hword, fun k hk => ?_⟩
      exact hblocks k (Nat.lt_succ_of_lt hk)
  · rintro (hword | ⟨hblock, j, hlt, hle, hword, hblocks⟩)
    · refine ⟨i, Nat.lt_succ_self i, hi, hword, fun k hk hlt => ?_⟩
      omega
    · refine ⟨j, Nat.lt_succ_of_lt hlt, hle, hword, fun k hk hjk => ?_⟩
      rcases Nat.eq_or_lt_of_le (Nat.le_of_lt_succ hk) with rfl | hk
      · exact hblock
      · exact hblocks k hk hjk

/-- Right behind the word there are no blocks in between. -/
theorem RightBehindOptions.behindOptions (h : s.RightBehindOptions i) (hi : start < i) :
    s.BehindOptions start i := by
  obtain ⟨j, -, rfl, hword⟩ := h
  exact (behindOptions_succ (Nat.le_of_lt_succ hi)).mpr (.inl hword)

end TokenStream

namespace Rule

open TokenStream

variable {s : TokenStream} {start i stop : Nat} {previous : Option Token} {r : Rule}

/-- What is remembered of the tokens in front of an index tells whether there is the word
`options` and nothing but blocks in front of it. -/
def Remembers (s : TokenStream) (start i : Nat) (previous : Option Token) : Prop :=
  isOptionsWord s previous = .ok (decide (s.BehindOptions start i))

/-- A token that is not left out is remembered, and tells whether it is the word. -/
theorem remembers_some (hr : s.Readable) {t : Token} (ht : s.get? i = some t) (hi : start ≤ i)
    (hleft : ¬ (s.BlockAt i ∧ s.BehindOptions start i)) : Remembers s start (i + 1) (some t) := by
  have hbehind : s.BehindOptions start (i + 1) ↔
      t.kind = .id ∧ s.text t = .ok "options".toList := by
    rw [behindOptions_succ hi, or_iff_left hleft, optionsAt_iff ht]
  obtain ⟨text, htext, -⟩ := hr.text (mem_of_get? ht)
  rw [Remembers, isOptionsWord, decide_eq_decide.mpr hbehind]
  by_cases hid : t.kind = .id
  · simp only [hid, htext, true_and, Except.ok.injEq]
    rfl
  · rw [if_neg hid, decide_eq_false fun h => hid h.1]

/-- **The search for blocks from an index on** leaves out those behind the word `options`. -/
theorem blocksAfter_indexed (hr : s.Readable) (i : Nat) (previous : Option Token) (hi : start ≤ i)
    (hprevious : Remembers s start i previous) :
    blocksAfter s previous ((s.indexed i stop).map (·.2)) =
      .ok (((s.indexed i stop).filter fun p =>
        p.2.kind = .block ∧ ¬ s.BehindOptions start p.1).map (·.2)) := by
  obtain hnil | ⟨t, hstop, ht, hcons⟩ := s.indexed_cases i stop
  · rw [hnil]
    rfl
  have hrest (previous : Option Token) :=
    blocksAfter_indexed hr (i + 1) previous (Nat.le_succ_of_le hi)
  rw [hcons, List.map_cons, blocksAfter, hprevious]
  by_cases hblock : t.kind = .block
  · rw [if_neg (not_not_intro hblock)]
    by_cases hbehind : s.BehindOptions start i
    · have hkept : Remembers s start (i + 1) previous := by
        rw [Remembers, hprevious, Except.ok.injEq, decide_eq_decide, behindOptions_succ hi,
          blockAt_iff ht]
        exact ⟨fun h => .inr ⟨hblock, h⟩, fun _ => hbehind⟩
      rw [List.filter_cons_of_neg (by simp [hbehind]), ← hrest previous hkept]
      simp [hbehind, bind, Except.bind]
    · have hnext := remembers_some hr ht hi fun h => hbehind h.2
      rw [List.filter_cons_of_pos (by simp [hblock, hbehind])]
      simp only [hbehind, decide_false, bind, Except.bind, hrest _ hnext]
      rfl
  · have hnext := remembers_some hr ht hi fun h => hblock ((blockAt_iff ht).mp h.1)
    rw [if_pos hblock, List.filter_cons_of_neg (by simp [hblock]), hrest _ hnext]
termination_by stop - i

/-- The blocks of a rule, but for those at certain indices. -/
def blocksBut (r : Rule) (s : TokenStream) (out : Nat → Prop) [DecidablePred out] : List Token :=
  ((s.indexed r.span.start r.span.stop).filter fun p => p.2.kind = .block ∧ ¬ out p.1).map (·.2)

/-- **A rule lists its blocks** but for those that have the word `options` and nothing but blocks
in front of them. -/
theorem blocks_eq (hr : s.Readable) (r : Rule) :
    r.blocks s = .ok (r.blocksBut s (s.BehindOptions r.span.start)) := by
  have hnone : Remembers s r.span.start r.span.start none := by
    rw [Remembers, decide_eq_false (s.not_behindOptions_self _)]
    rfl
  rw [blocks, tokens, ← map_snd_indexed]
  exact blocksAfter_indexed hr _ none (Nat.le_refl _) hnone

/-- Some block of the rule that is left out has another block right behind it. -/
def RunsOn (r : Rule) (s : TokenStream) : Prop :=
  ∃ i, s.BehindOptions r.span.start i ∧ s.BlockAt i ∧ s.BlockAt (i + 1) ∧ i + 1 < r.span.stop

variable (hstart : ¬ s.BlockAt r.span.start)

include hstart in
/-- A block right behind the word `options` has the word in the rule. -/
theorem behindOptions_of_right {p : Nat × Token} (hp : p ∈ s.indexed r.span.start r.span.stop)
    (hblock : s.BlockAt p.1) (h : s.RightBehindOptions p.1) :
    s.BehindOptions r.span.start p.1 := by
  refine h.behindOptions (Nat.lt_of_le_of_ne (get?_of_mem_indexed hp).2.1 ?_)
  intro heq
  exact hstart (heq ▸ hblock)

include hstart in
/-- Where no blocks run on, those behind the word stand right behind it. -/
theorem blocksBut_eq (h : ¬ r.RunsOn s) :
    r.blocksBut s (s.BehindOptions r.span.start) = r.blocksBut s s.RightBehindOptions := by
  refine congrArg (List.map Prod.snd) (List.filter_congr fun p hp => decide_eq_decide.mpr ?_)
  obtain ⟨n, t⟩ := p
  obtain ⟨ht, hle, hstop⟩ := get?_of_mem_indexed hp
  refine and_congr_right fun hblock => not_congr ⟨fun hbehind => ?_, ?_⟩
  · obtain ⟨j, hlt, hj, -⟩ := id hbehind
    obtain ⟨i, rfl⟩ : ∃ i, n = i + 1 := Nat.exists_eq_succ_of_ne_zero (Nat.ne_zero_of_lt hlt)
    have hi : r.span.start ≤ i := Nat.le_trans hj (Nat.le_of_lt_succ hlt)
    rcases (behindOptions_succ hi).mp hbehind with hword | ⟨hfront, hfront'⟩
    · exact ⟨i, Nat.lt_succ_self i, rfl, hword⟩
    · exact absurd ⟨i, hfront', hfront, (blockAt_iff ht).mpr hblock, hstop⟩ h
  · exact behindOptions_of_right hstart hp ((blockAt_iff ht).mpr hblock)

include hstart in
/-- Where blocks run on, one is left out that does not stand right behind the word. -/
theorem blocksBut_ne (h : r.RunsOn s) :
    r.blocksBut s (s.BehindOptions r.span.start) ≠ r.blocksBut s s.RightBehindOptions := by
  obtain ⟨i, hbehind, hfront, hblock, hstop⟩ := h
  obtain ⟨j, hlt, hj, -⟩ := id hbehind
  have hi : r.span.start ≤ i := Nat.le_trans hj (Nat.le_of_lt hlt)
  obtain ⟨t, ht, -⟩ := (Option.any_eq_true _ _).mp hblock
  have hmem : (i + 1, t) ∈ s.indexed r.span.start r.span.stop :=
    mem_indexed ht (Nat.le_succ_of_le hi) hstop
  -- What is listed is what should be listed, less the blocks behind the word.
  have hless : (s.indexed r.span.start r.span.stop).filter (fun p =>
        p.2.kind = .block ∧ ¬ s.BehindOptions r.span.start p.1) =
      ((s.indexed r.span.start r.span.stop).filter fun p =>
        p.2.kind = .block ∧ ¬ s.RightBehindOptions p.1).filter
          fun p => ¬ s.BehindOptions r.span.start p.1 := by
    rw [List.filter_filter]
    refine List.filter_congr fun p hp => ?_
    rw [← Bool.decide_and, decide_eq_decide]
    refine ⟨fun ⟨hkind, hout⟩ => ⟨hout, hkind, fun hright => hout ?_⟩, fun h => ⟨h.2.1, h.1⟩⟩
    exact behindOptions_of_right hstart hp
      ((blockAt_iff (get?_of_mem_indexed hp).1).mpr hkind) hright
  intro heq
  have hlength := congrArg List.length heq
  rw [blocksBut, blocksBut, List.length_map, List.length_map] at hlength
  have hright : ¬ s.RightBehindOptions (i + 1) := by
    rintro ⟨k, -, hk, hword⟩
    obtain rfl : k = i := Nat.succ.inj hk
    exact hword.not_blockAt hfront
  rw [hless, List.length_filter_eq_length_iff] at hlength
  have hlisted : (i + 1, t) ∈ (s.indexed r.span.start r.span.stop).filter fun p =>
      p.2.kind = .block ∧ ¬ s.RightBehindOptions p.1 :=
    List.mem_filter.mpr ⟨hmem, decide_eq_true ⟨(blockAt_iff ht).mp hblock, hright⟩⟩
  refine of_decide_eq_true (hlength _ hlisted) ?_
  exact (behindOptions_succ hi).mpr (.inr ⟨hfront, hbehind⟩)

/-- **What a rule lists as its blocks.**  It is what should be listed, all blocks but that right
behind the word `options`, just when no block comes behind one that is left out. -/
structure ListsBlocks (r : Rule) (s : TokenStream) (blocks : List Token) : Prop where
  listed : blocks = r.blocksBut s (s.BehindOptions r.span.start)
  agree : blocks = r.blocksBut s s.RightBehindOptions ↔ ¬ r.RunsOn s

include hstart in
theorem listsBlocks : r.ListsBlocks s (r.blocksBut s (s.BehindOptions r.span.start)) where
  listed := rfl
  agree := ⟨fun heq hruns => blocksBut_ne hstart hruns heq, blocksBut_eq hstart⟩

end Rule

namespace Grammar

open TokenStream

/-- **Every rule of a source lists its blocks**, but for those that the word `options` stands in
front of with nothing but blocks in between. -/
theorem blocks_of_mem_rules (source : Text) :
    ∀ r ∈ (parse source).1.rules, ∃ blocks,
      r.blocks (lex source) = .ok blocks ∧ r.ListsBlocks (lex source) blocks := by
  intro r hr
  obtain ⟨_, _, -, -, haccount⟩ := account_parse source
  obtain ⟨t, ht, hid, -⟩ := (haccount.delimited r hr).name_at_start
  refine ⟨_, Rule.blocks_eq (readable_lex source) r, Rule.listsBlocks ?_⟩
  rw [blockAt_iff ht, hid]
  decide

/-- A block behind the word `options`, one behind the colon and one behind a call. -/
theorem blocks_of_options_and_actions :
    let source := "a options { k } : { x } b { y } ;".toList
    let r : Rule := ⟨['a'], ⟨0, 3, 7⟩, true, false, false, [], ⟨0, 0⟩⟩
    r ∈ (parse source).1.rules ∧ ∃ blocks,
      r.blocks (lex source) = .ok blocks ∧ r.ListsBlocks (lex source) blocks :=
  ⟨by decide +kernel, blocks_of_mem_rules _ _ (by decide +kernel)⟩

/-- **A block of action code is lost behind the block of options.**  The token in front of it is
no word, and still it is not listed. -/
theorem blocks_of_two_behind_options :
    let source := "a options {x} {y} : b ;".toList
    let r : Rule := ⟨['a'], ⟨0, 4, 6⟩, true, false, false, [], ⟨0, 0⟩⟩
    (parse source).1.rules = [r] ∧ r.blocks (lex source) = .ok [] ∧
      r.blocksBut (lex source) (lex source).RightBehindOptions =
        [⟨.block, ⟨14, 17⟩, 0, 0⟩] := by
  decide +kernel

end Grammar
end GrammarAtlas
