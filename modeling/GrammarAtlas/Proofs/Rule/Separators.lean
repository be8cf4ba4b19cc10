import GrammarAtlas.Proofs.Rule.Body
import Mathlib.Algebra.Order.Ring.Int

/-!
# Alternatives are what stands between separators

The alternatives of a rule are found in one pass over its body, which carries the number of
parentheses that are open and what the current alternative has so far.  Here they are told
without a pass: the depth of a token is counted in front of it (`depth`), a separator is a pipe
of depth zero (`IsSeparator`), and the alternatives are the groups of tokens between the
separators, without an empty one at the end (`alternatives_between_separators`).

Blocks are no part of this: they stand in no group, and are not counted.
-/

namespace GrammarAtlas

namespace TokenStream

variable {s : TokenStream} {c i stop : Nat} {t : Token}

/-- The tokens of a range that are no blocks, with their indices. -/
def plain (s : TokenStream) (i stop : Nat) : List (Nat × Token) :=
  (s.indexed i stop).filter (·.2.kind ≠ .block)

/-- How often a character stands by itself among the tokens of a range that are no blocks. -/
def countMark (s : TokenStream) (mark : Char) (i stop : Nat) : Nat :=
  (s.plain i stop).countP fun p => s.text p.2 = .ok [mark]

/-- The depth in front of a token: how many more parentheses are opened than closed between a
colon and the token. -/
def depth (s : TokenStream) (colon i : Nat) : Int :=
  s.countMark '(' (colon + 1) i - s.countMark ')' (colon + 1) i

/-- The token is a pipe of depth zero. -/
def IsSeparator (s : TokenStream) (colon i : Nat) : Prop :=
  (s.get? i).any (fun t => t.kind ≠ .block ∧ s.text t = .ok ['|']) ∧ s.depth colon i = 0

instance (s : TokenStream) (colon i : Nat) : Decidable (s.IsSeparator colon i) :=
  inferInstanceAs (Decidable (_ ∧ _))

/-- The groups of tokens between the separators of a body, blocks left out. -/
def groups (s : TokenStream) (colon stop : Nat) : List (List Nat) :=
  ((s.plain (colon + 1) stop).map (·.1)).splitOnP (s.IsSeparator colon ·)

/-- Groups without the last one if that is empty. -/
def dropLastEmpty (groups : List (List Nat)) : List (List Nat) :=
  if groups.getLast? = some [] then groups.dropLast else groups

theorem plain_of_block (ht : s.get? i = some t) (hi : i < stop) (hblock : t.kind = .block) :
    s.plain i stop = s.plain (i + 1) stop := by
  rw [plain, indexed_of_get? ht hi, List.filter_cons_of_neg (by simpa using hblock), plain]

theorem plain_of_ne (ht : s.get? i = some t) (hi : i < stop) (hblock : t.kind ≠ .block) :
    s.plain i stop = (i, t) :: s.plain (i + 1) stop := by
  rw [plain, indexed_of_get? ht hi, List.filter_cons_of_pos (by simpa using hblock), plain]

theorem plain_append {j : Nat} (hij : i ≤ j) (hj : j ≤ stop) :
    s.plain i stop = s.plain i j ++ s.plain j stop := by
  rw [plain, indexed_append hij hj, List.filter_append, plain, plain]

theorem plain_self (s : TokenStream) (i : Nat) : s.plain i i = [] := by
  rw [plain, indexed_of_le (Nat.le_refl i), List.filter_nil]

theorem pairwise_plain (s : TokenStream) (i stop : Nat) :
    (s.plain i stop).Pairwise fun p q => p.1 < q.1 :=
  (s.pairwise_indexed i stop).filter _

theorem countMark_append {mark : Char} {j : Nat} (hij : i ≤ j) (hj : j ≤ stop) :
    s.countMark mark i stop = s.countMark mark i j + s.countMark mark j stop := by
  rw [countMark, plain_append hij hj, List.countP_append, countMark, countMark]

theorem countMark_of_block {mark : Char} (ht : s.get? i = some t) (hblock : t.kind = .block) :
    s.countMark mark i (i + 1) = 0 := by
  rw [countMark, plain_of_block ht (Nat.lt_succ_self i) hblock, plain_self, List.countP_nil]

theorem countMark_of_ne {mark : Char} (ht : s.get? i = some t) (hblock : t.kind ≠ .block) :
    s.countMark mark i (i + 1) = if s.text t = .ok [mark] then 1 else 0 := by
  rw [countMark, plain_of_ne ht (Nat.lt_succ_self i) hblock, plain_self, List.countP_singleton]
  simp only [decide_eq_true_eq]

theorem depth_colon (s : TokenStream) (c : Nat) : s.depth c (c + 1) = 0 := by
  rw [depth, countMark, countMark, plain_self, List.countP_nil, List.countP_nil, Int.sub_self]

/-- A block does not count. -/
theorem depth_succ_of_block (ht : s.get? i = some t) (hc : c < i) (hblock : t.kind = .block) :
    s.depth c (i + 1) = s.depth c i := by
  rw [depth, countMark_append hc (Nat.le_succ i), countMark_append hc (Nat.le_succ i),
    countMark_of_block ht hblock, countMark_of_block ht hblock, Nat.add_zero, Nat.add_zero, depth]

/-- A block is no separator. -/
theorem isSeparator_iff (ht : s.get? i = some t) (hblock : t.kind ≠ .block) :
    s.IsSeparator c i ↔ s.text t = .ok ['|'] ∧ s.depth c i = 0 := by
  rw [IsSeparator, ht, Option.any_some, decide_eq_true_iff, and_iff_right hblock]

theorem dropLastEmpty_singleton (group : List Nat) :
    dropLastEmpty [group] = if group = [] then [] else [group] := by
  rw [dropLastEmpty, List.getLast?_singleton, List.dropLast_singleton]
  simp only [Option.some.injEq]

theorem dropLastEmpty_cons {group : List Nat} {groups : List (List Nat)} (h : groups ≠ []) :
    dropLastEmpty (group :: groups) = group :: dropLastEmpty groups := by
  rw [dropLastEmpty, dropLastEmpty, List.getLast?_cons_of_ne_nil h, List.dropLast_cons_of_ne_nil h]
  split
  · rfl
  · rfl

theorem modifyHead_nil_append (groups : List (List Nat)) :
    groups.modifyHead ([] ++ ·) = groups := by
  cases groups with
  | nil => rfl
  | cons group groups => rfl

/-- The group that is dropped has no tokens. -/
theorem flatten_dropLastEmpty (groups : List (List Nat)) :
    (dropLastEmpty groups).flatten = groups.flatten := by
  rw [dropLastEmpty]
  split
  · rename_i hlast
    conv_rhs => rw [← List.dropLast_append_getLast? [] hlast]
    rw [List.flatten_append, List.flatten_singleton, List.append_nil]
  · rfl

/-- What stands between the separators is what is no separator. -/
theorem flatten_splitOnP (p : Nat → Bool) (is : List Nat) :
    (is.splitOnP p).flatten = is.filter (!p ·) := by
  induction is with
  | nil => rfl
  | cons i is ih =>
    rw [List.splitOnP_cons_eq_if_modifyHead]
    by_cases hi : p i
    · rw [if_pos hi, List.flatten_cons, List.nil_append, ih, List.filter_cons_of_neg (by simp [hi])]
    · obtain ⟨group, groups, hgroups⟩ := List.exists_cons_of_ne_nil (List.splitOnP_ne_nil p is)
      rw [if_neg hi, List.filter_cons_of_pos (by simp [hi]), ← ih, hgroups]
      rfl

end TokenStream

namespace Branches

variable {depth : Int} {branch ls : List IndexedLexeme} {l : IndexedLexeme}

/-- What a lexeme adds to the depth. -/
def weight (l : Lexeme) : Int :=
  if l.text = ['('] then 1 else if l.text = [')'] then -1 else 0

theorem isMark_iff {mark : Char} : isMark mark l = true ↔ l.2.text = [mark] := decide_eq_true_iff

/-- A lexeme is one mark only. -/
theorem not_isMark {mark other : Char} (h : isMark mark l) (hne : mark ≠ other) :
    ¬ isMark other l := by
  rw [isMark_iff] at h ⊢
  rw [h]
  exact fun heq => hne (List.cons.inj heq).1

theorem split_cons_pipe (hpipe : isMark '|' l) :
    split 0 branch (l :: ls) = branch :: split 0 [] ls := by
  rw [split, if_neg (not_isMark hpipe (by decide)), if_neg (not_isMark hpipe (by decide)),
    if_pos ⟨hpipe, rfl⟩]

theorem split_cons_of_not (h : ¬ (isMark '|' l ∧ depth = 0)) :
    split depth branch (l :: ls) = split (depth + weight l.2) (branch ++ [l]) ls := by
  rw [split, weight, if_neg h]
  simp only [isMark_iff]
  split
  · rfl
  split
  · rfl
  · rw [Int.add_zero]

theorem weight_pipe {l : Lexeme} (h : l.text = ['|']) : weight l = 0 := by
  rw [weight, h, if_neg (by decide), if_neg (by decide)]

end Branches

namespace Rule

open TokenStream Branches

variable {s : TokenStream} {c i stop : Nat} {t : Token} {l : IndexedLexeme}

theorem Lexed.text_iff {mark : Char} (h : Lexed s (i, t) l) :
    l.2.text = [mark] ↔ s.text t = .ok [mark] := by
  rw [h.2.2, Except.ok.injEq]

/-- The depth goes up and down with the lexemes. -/
theorem Lexed.depth_succ (h : Lexed s (i, t) l) (ht : s.get? i = some t) (hc : c < i)
    (hblock : t.kind ≠ .block) : s.depth c (i + 1) = s.depth c i + weight l.2 := by
  rw [depth, countMark_append hc (Nat.le_succ i), countMark_append hc (Nat.le_succ i),
    countMark_of_ne ht hblock, countMark_of_ne ht hblock, depth, weight]
  simp only [← h.text_iff]
  by_cases hopen : l.2.text = ['(']
  · simp [hopen]
    omega
  · by_cases hclose : l.2.text = [')']
    · simp [hclose]
      omega
    · simp [hopen, hclose]

theorem Lexed.isSeparator_iff (h : Lexed s (i, t) l) (ht : s.get? i = some t)
    (hblock : t.kind ≠ .block) : s.IsSeparator c i ↔ isMark '|' l ∧ s.depth c i = 0 := by
  rw [TokenStream.isSeparator_iff ht hblock, isMark_iff, h.text_iff]

/-- The alternatives are the branches of the lexemes behind the first colon. -/
theorem exists_lexed_body (hr : s.Readable) {r : Rule} (hfirst : s.FirstText [':'] r.span.start c)
    (hc : c < r.span.stop) : ∃ ls, List.Forall₂ (Lexed s) (s.plain (c + 1) r.span.stop) ls ∧
      r.alternatives s = .ok ((split 0 [] ls).map fun branch => ⟨branch.map (·.1)⟩) := by
  obtain ⟨ls, hls⟩ := exists_lexed hr (s.plain (c + 1) r.span.stop)
    fun p hp => mem_of_mem_indexed (List.mem_of_mem_filter hp)
  exact ⟨ls, hls, alternatives_eq (colonAndBody_eq hr hfirst hc) hls⟩

/-- **The branches of what is left of a body** are the groups between its separators, and what
the current branch has so far stands in the first. -/
theorem map_split_plain (i : Nat) (branch : List IndexedLexeme) {ls : List IndexedLexeme}
    (hc : c < i) (hls : List.Forall₂ (Lexed s) (s.plain i stop) ls) :
    (split (s.depth c i) branch ls).map (List.map (·.1)) =
      dropLastEmpty ((((s.plain i stop).map (·.1)).splitOnP (s.IsSeparator c ·)).modifyHead
        (branch.map (·.1) ++ ·)) := by
  obtain hnil | ⟨t, hi, ht, -⟩ := s.indexed_cases i stop
  · have hplain : s.plain i stop = [] := by rw [plain, hnil, List.filter_nil]
    rw [hplain] at hls ⊢
    cases hls
    rw [List.map_nil, List.splitOnP_nil, List.modifyHead_cons, List.append_nil,
      dropLastEmpty_singleton, split]
    cases branch with
    | nil => rfl
    | cons l branch => rfl
  by_cases hblock : t.kind = .block
  · rw [plain_of_block ht hi hblock] at hls ⊢
    rw [← depth_succ_of_block ht hc hblock]
    exact map_split_plain (i + 1) branch (Nat.lt_succ_of_lt hc) hls
  · rw [plain_of_ne ht hi hblock] at hls ⊢
    obtain ⟨l, ls, hl, htail, rfl⟩ := List.forall₂_cons_left_iff.mp hls
    have hindex : l.1 = i := hl.1
    rw [List.map_cons, List.splitOnP_cons_eq_if_modifyHead]
    by_cases hsep : s.IsSeparator c i
    · obtain ⟨hpipe, hdepth⟩ := (hl.isSeparator_iff ht hblock).mp hsep
      have hnext : s.depth c (i + 1) = 0 := by
        rw [hl.depth_succ ht hc hblock, hdepth, weight_pipe (isMark_iff.mp hpipe), Int.add_zero]
      have hrest := map_split_plain (i + 1) [] (Nat.lt_succ_of_lt hc) htail
      rw [hnext] at hrest
      rw [hdepth, split_cons_pipe hpipe, if_pos (decide_eq_true hsep), List.modifyHead_cons,
        List.append_nil, dropLastEmpty_cons (List.splitOnP_ne_nil _ _), List.map_cons, hrest,
        List.map_nil, modifyHead_nil_append]
    · have hnot := mt (hl.isSeparator_iff ht hblock).mpr hsep
      rw [split_cons_of_not hnot, ← hl.depth_succ ht hc hblock,
        map_split_plain (i + 1) (branch ++ [l]) (Nat.lt_succ_of_lt hc) htail,
        if_neg (by simpa using hsep), List.modifyHead_modifyHead, List.map_append, ← hindex]
      simp [Function.comp_def]
termination_by stop - i

/-- **The alternatives of a rule are its body split at the separators**: the groups of tokens
between them, without an empty one at the end.  So each token of the body that is neither a
block nor a separator is in one alternative, once, and no other token is in any. -/
structure SplitAtSeparators (r : Rule) (s : TokenStream) (c : Nat) (as : List Alternative) :
    Prop where
  groups : as.map (·.indices) = dropLastEmpty (s.groups c r.span.stop)
  tokens : as.flatMap (·.indices) =
    ((s.plain (c + 1) r.span.stop).map (·.1)).filter (¬ s.IsSeparator c ·)
  increasing : (as.flatMap (·.indices)).Pairwise (· < ·)

theorem splitAtSeparators {r : Rule} {as : List Alternative}
    (has : as.map (·.indices) = dropLastEmpty (s.groups c r.span.stop)) :
    r.SplitAtSeparators s c as := by
  have htokens : as.flatMap (·.indices) =
      ((s.plain (c + 1) r.span.stop).map (·.1)).filter (¬ s.IsSeparator c ·) := by
    rw [List.flatMap_def, has, flatten_dropLastEmpty, TokenStream.groups, flatten_splitOnP]
    simp only [decide_not]
  refine ⟨has, htokens, ?_⟩
  rw [htokens]
  exact (List.pairwise_map.mpr (s.pairwise_plain _ _)).filter _

/-- **The alternatives of a rule stand between the separators of its body**, and without a colon
there are none. -/
theorem alternatives_between_separators (hr : s.Readable) (r : Rule) :
    (∀ c, s.FirstText [':'] r.span.start c → c < r.span.stop →
      ∃ as, r.alternatives s = .ok as ∧ r.SplitAtSeparators s c as) ∧
    ((∀ j, r.span.start ≤ j → j < r.span.stop → s.textAt j ≠ .ok [':']) →
      r.alternatives s = .ok []) := by
  constructor
  · intro c hfirst hc
    obtain ⟨ls, hls, has⟩ := exists_lexed_body hr hfirst hc
    refine ⟨_, has, splitAtSeparators ?_⟩
    have hsplit := map_split_plain (c + 1) [] (Nat.lt_succ_self c) hls
    rw [depth_colon, List.map_nil, modifyHead_nil_append] at hsplit
    rw [List.map_map]
    exact hsplit
  · intro hnone
    obtain ⟨found, hfound, hin⟩ := seekColon_indexed_yields hr r.span.start r.span.stop
    rw [alternatives, colonAndBody, hfound]
    cases found with
    | none => rfl
    | some found =>
      obtain ⟨hfirst, hc, -⟩ := hin.first found.1 found.2 rfl
      exact absurd hfirst.text_at (hnone found.1 hfirst.le hc)

/-- A body with an empty alternative in front, a pipe in parentheses, a block, and an empty end. -/
theorem alternatives_between_two_separators :
    let s : TokenStream := ⟨"a:|(|)\x7b\x7d|;".toList,
      [⟨.id, ⟨0, 1⟩, 0, 0⟩, ⟨.colon, ⟨1, 2⟩, 0, 0⟩, ⟨.pipe, ⟨2, 3⟩, 0, 0⟩,
        ⟨.parenOpen, ⟨3, 4⟩, 0, 0⟩, ⟨.pipe, ⟨4, 5⟩, 0, 0⟩, ⟨.parenClose, ⟨5, 6⟩, 0, 0⟩,
        ⟨.block, ⟨6, 8⟩, 0, 0⟩, ⟨.pipe, ⟨8, 9⟩, 0, 0⟩, ⟨.semi, ⟨9, 10⟩, 0, 0⟩]⟩
    let r : Rule := ⟨['a'], ⟨0, 1, 8⟩, true, false, false, [], ⟨0, 0⟩⟩
    make ['a'] ⟨0, 1, 8⟩ s = .ok r ∧ r.alternatives s = .ok [⟨[]⟩, ⟨[3, 4, 5]⟩] ∧
      ∃ as, r.alternatives s = .ok as ∧ r.SplitAtSeparators s 1 as := by
  refine ⟨by decide, by decide, (alternatives_between_separators (by decide) _).1 1 ?_ (by decide)⟩
  exact (firstText_self (by decide) (by decide)).of_succ (by decide)

end Rule
end GrammarAtlas
