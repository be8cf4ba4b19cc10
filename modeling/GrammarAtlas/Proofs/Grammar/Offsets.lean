import GrammarAtlas.Proofs.Grammar.Folding
import GrammarAtlas.Proofs.Grammar.References

/-!
# Which rule an offset lies in

A rule takes in both of its ends, so two rules may take in one offset.  Rules of a source take up
text and stand one behind the other (`Rule.InOrder`).  Hence an offset that two rules take in is
the end of one and the start of the other, and no rule fits in between
(`Rule.InOrder.of_shared`); three rules never meet in one offset.  A search from the front finds
the earlier of the two (`finds_at_offset`).
-/

namespace GrammarAtlas

namespace Rule

variable {s : TokenStream} {rules : List Rule} {r r' : Rule} {offset i j : Nat}

/-- The rules take up text, one behind the other. -/
structure InOrder (s : TokenStream) (rules : List Rule) : Prop where
  start_lt_stop : ∀ r ∈ rules, r.startOffset s < r.stopOffset s
  stop_le_start : rules.Pairwise fun r r' => r.stopOffset s ≤ r'.startOffset s

theorem containsOffset_iff :
    r.containsOffset s offset = true ↔ r.startOffset s ≤ offset ∧ offset ≤ r.stopOffset s := by
  rw [containsOffset, Bool.and_eq_true, decide_eq_true_iff, decide_eq_true_iff]

namespace InOrder

theorem sublist {rules' : List Rule} (h : InOrder s rules) (hsub : rules'.Sublist rules) :
    InOrder s rules' where
  start_lt_stop := fun r hr => h.start_lt_stop r (hsub.subset hr)
  stop_le_start := h.stop_le_start.sublist hsub

theorem stop_le_start_of_lt (h : InOrder s rules) (hr : rules[i]? = some r)
    (hr' : rules[j]? = some r') (hij : i < j) : r.stopOffset s ≤ r'.startOffset s := by
  obtain ⟨hi, rfl⟩ := List.getElem?_eq_some_iff.mp hr
  obtain ⟨hj, rfl⟩ := List.getElem?_eq_some_iff.mp hr'
  exact List.pairwise_iff_getElem.mp h.stop_le_start i j hi hj hij

/-- **Two rules meet in an offset** only where one ends and the next one starts. -/
theorem of_shared (h : InOrder s rules) (hr : rules[i]? = some r) (hr' : rules[j]? = some r')
    (hij : i < j) (hoffset : r.containsOffset s offset = true)
    (hoffset' : r'.containsOffset s offset = true) :
    j = i + 1 ∧ r.stopOffset s = offset ∧ r'.startOffset s = offset := by
  have hle := h.stop_le_start_of_lt hr hr' hij
  have hstop := (containsOffset_iff.mp hoffset).2
  have hstart := (containsOffset_iff.mp hoffset').1
  refine ⟨?_, by omega, by omega⟩
  by_contra hne
  -- a rule in between would have no room
  have hj : j < rules.length := (List.getElem?_eq_some_iff.mp hr').1
  obtain ⟨m, hm⟩ : ∃ m, rules[i + 1]? = some m :=
    ⟨_, List.getElem?_eq_getElem (show i + 1 < rules.length by omega)⟩
  have hfront := h.stop_le_start_of_lt hr hm (Nat.lt_succ_self i)
  have hback := h.stop_le_start_of_lt hm hr' (by omega)
  have hroom := h.start_lt_stop m (List.mem_of_getElem? hm)
  omega

/-- An offset lies in two rules at most. -/
theorem countP_le (h : InOrder s rules) (offset : Nat) :
    rules.countP (·.containsOffset s offset) ≤ 2 := by
  rw [List.countP_eq_length_filter]
  have hfilter := h.sublist (List.filter_sublist (p := (·.containsOffset s offset)))
  by_contra hlength
  obtain ⟨r, hr⟩ : ∃ r, (rules.filter (·.containsOffset s offset))[0]? = some r :=
    ⟨_, List.getElem?_eq_getElem (by omega)⟩
  obtain ⟨r', hr'⟩ : ∃ r', (rules.filter (·.containsOffset s offset))[2]? = some r' :=
    ⟨_, List.getElem?_eq_getElem (by omega)⟩
  have hoffset := List.of_mem_filter (List.mem_of_getElem? hr)
  have hoffset' := List.of_mem_filter (List.mem_of_getElem? hr')
  have hnext := (hfilter.of_shared hr hr' (by omega) hoffset hoffset').1
  omega

/-- Of two rules that an offset lies in, a search from the front finds the first. -/
theorem find?_of_shared (h : InOrder s rules) (hr : rules[i]? = some r)
    (hr' : rules[j]? = some r') (hij : i < j) (hoffset : r.containsOffset s offset = true)
    (hoffset' : r'.containsOffset s offset = true) :
    rules.find? (·.containsOffset s offset) = some r := by
  obtain ⟨hi, hget⟩ := List.getElem?_eq_some_iff.mp hr
  refine List.find?_eq_some_iff_getElem.mpr ⟨hoffset, i, hi, hget, fun k hk => ?_⟩
  rw [Bool.not_eq_true']
  refine Bool.eq_false_iff.mpr fun hfront => ?_
  -- a rule in front of both would be next to both
  have hkget := List.getElem?_eq_getElem (Nat.lt_trans hk hi)
  have hnext := (h.of_shared hkget hr hk hfront hoffset).1
  have hnext' := (h.of_shared hkget hr' (Nat.lt_trans hk hij) hfront hoffset').1
  omega

end InOrder

variable {source : Text} {name colon semi : Token}

/-- A rule starts where its name does. -/
theorem StandsIn.rule_start (h : r.StandsIn source name colon semi) :
    r.startOffset (.lex source) = name.span.start := h.paragraphOffset_eq

/-- A rule stops where its semicolon does. -/
theorem StandsIn.rule_stop (h : r.StandsIn source name colon semi) :
    r.stopOffset (.lex source) = semi.span.stop := h.stopOffset_eq

theorem StandsIn.rule_start_lt_stop (h : r.StandsIn source name colon semi) :
    r.startOffset (.lex source) < r.stopOffset (.lex source) := by
  have hdescribes := h.folding_describes
  exact hdescribes.paragraph_lt_start.trans hdescribes.start_lt_stop

end Rule

namespace Grammar

open TokenStream

/-- The rules of a source are in order. -/
theorem inOrder_rules (source : Text) : Rule.InOrder (.lex source) (parse source).1.rules := by
  obtain ⟨_, _, -, -, haccount⟩ := account_parse source
  have hstands {r : Rule} (hr : r ∈ (parse source).1.rules) :=
    Rule.StandsIn.of_delimits (haccount.delimited r hr)
  refine ⟨fun r hr => ?_, haccount.disjoint.imp_of_mem fun {r r'} hr hr' hlt => ?_⟩
  · obtain ⟨_, _, _, h⟩ := hstands hr
    exact h.rule_start_lt_stop
  · obtain ⟨_, _, _, h⟩ := hstands hr
    obtain ⟨_, _, _, h'⟩ := hstands hr'
    exact h.stopOffset_le h' hlt

/-- **What looking for the rule at an offset comes to.** -/
structure FindsAt (g : Grammar) (offset : Nat) : Prop where
  isSome_iff : (g.ruleAtOffset? offset).isSome = true ↔
    ∃ r ∈ g.rules, r.startOffset g.stream ≤ offset ∧ offset ≤ r.stopOffset g.stream
  /-- What is found is a rule that takes in the offset. -/
  found : ∀ r, g.ruleAtOffset? offset = some r →
    r ∈ g.rules ∧ r.startOffset g.stream ≤ offset ∧ offset ≤ r.stopOffset g.stream
  atMostTwo : g.rules.countP (·.containsOffset g.stream offset) ≤ 2
  /-- Of two rules that take in the offset, the one ends and the next one starts there, and the
  former is found. -/
  shared : ∀ i j r r', i < j → g.rules[i]? = some r → g.rules[j]? = some r' →
    r.containsOffset g.stream offset = true → r'.containsOffset g.stream offset = true →
    j = i + 1 ∧ r.stopOffset g.stream = offset ∧ r'.startOffset g.stream = offset ∧
      g.ruleAtOffset? offset = some r

/-- **Looking for the rule at an offset** of a source finds one just when there is one that the
offset lies in.  It lies in two only where one ends and the next one starts, and then the former
is found. -/
theorem finds_at_offset (source : Text) (offset : Nat) : (parse source).1.FindsAt offset := by
  have horder := inOrder_rules source
  rw [← stream_parse source] at horder
  refine ⟨?_, fun r hr => ?_, horder.countP_le offset, fun i j r r' hij hr hr' ho ho' => ?_⟩
  · rw [ruleAtOffset?, List.find?_isSome]
    simp only [Rule.containsOffset_iff]
  · rw [ruleAtOffset?] at hr
    have hoffset := List.find?_some hr
    exact ⟨List.mem_of_find?_eq_some hr, Rule.containsOffset_iff.mp hoffset⟩
  · obtain ⟨hnext, hstop, hstart⟩ := horder.of_shared hr hr' hij ho ho'
    exact ⟨hnext, hstop, hstart, horder.find?_of_shared hr hr' hij ho ho'⟩

/-- Two rules meet in the offset 4, and the text ends with the second. -/
example : let g := (parse "a:b;c:d;".toList).1
    (g.ruleAtOffset? 4).map (·.name) = some ['a'] ∧
      (g.ruleAtOffset? 5).map (·.name) = some ['c'] ∧
      (g.ruleAtOffset? 8).map (·.name) = some ['c'] ∧ g.ruleAtOffset? 9 = none := by
  decide +kernel

end Grammar
end GrammarAtlas
