import GrammarAtlas.Proofs.Rule.Nesting
import GrammarAtlas.Proofs.Rule.Passages

/-!
# A body without left recursion

The rewritten body is put together from texts that are cut out of the source, with parentheses,
pipes and spaces in between.  Its lexemes are those of the texts with those of the marks in
between, since no lexeme reaches over a seam (`significant_rewritten`).  The texts are the
alternatives that do not call the rule first, and what stands behind the call in the others
(`exists_regroup`).

So without its blocks the body is `regrouped` from the alternatives, and where these are nested,
it has no separator (`whole_regrouped`): all its pipes stand in the parentheses around them.
-/

namespace GrammarAtlas

namespace Rule

/-- **A body without left recursion**: heads in parentheses, then tails in parentheses, which may
be repeated, with pipes in between. -/
def regrouped {α : Type} (mark : Char → α) (heads tails : List (List α)) : List α :=
  mark '(' :: [mark '|'].intercalate heads ++
    mark ')' :: mark '(' :: [mark '|'].intercalate tails ++ [mark ')', mark '*']

/-- The texts of an alternative that does not call the rule first. -/
def IsHead (r : Rule) (texts : List Text) : Prop := texts ≠ [] ∧ texts.head? ≠ some r.name

/-- The texts of an alternative that calls the rule first, and goes on. -/
def IsTail (r : Rule) (texts : List Text) : Prop :=
  texts.head? = some r.name ∧ 2 ≤ texts.length

instance (r : Rule) (texts : List Text) : Decidable (r.IsHead texts) :=
  inferInstanceAs (Decidable (_ ∧ _))

instance (r : Rule) (texts : List Text) : Decidable (r.IsTail texts) :=
  inferInstanceAs (Decidable (_ ∧ _))

/-- The alternatives that do not call the rule first, by their texts. -/
def heads (r : Rule) (tss : List (List Text)) : List (List Text) := tss.filter (r.IsHead ·)

/-- What stands behind the call in the other alternatives, where that is something. -/
def tails (r : Rule) (tss : List (List Text)) : List (List Text) :=
  (tss.filter (r.IsTail ·)).map List.tail

/-- The lexemes of the heads. -/
def headLexemes (r : Rule) (lss : List (List Lexeme)) : List (List Lexeme) :=
  lss.filter fun ls => r.IsHead (ls.map Lexeme.text)

/-- The lexemes of the tails. -/
def tailLexemes (r : Rule) (lss : List (List Lexeme)) : List (List Lexeme) :=
  (lss.filter fun ls => r.IsTail (ls.map Lexeme.text)).map List.tail

/-- The text of a rewritten body. -/
def rewritten (heads tails : List Text) : Text :=
  '(' :: Text.join " | ".toList heads ++ ") (".toList ++ Text.join " | ".toList tails ++
    ")*".toList

section Regrouped

variable {α β : Type} {mark : Char → α} {image : Char → β} {f : α → Option β} {a x : α} {y : β}
  {heads tails lss : List (List α)}

theorem filterMap_intercalate (hx : f x = some y) (lss : List (List α)) :
    ([x].intercalate lss).filterMap f = [y].intercalate (lss.map (List.filterMap f)) := by
  induction lss with
  | nil => rfl
  | cons ls lss ih =>
    cases lss with
    | nil => simp only [List.map_cons, List.map_nil, List.intercalate_singleton]
    | cons ms lss =>
      rw [List.intercalate_cons_cons, List.filterMap_append, List.filterMap_append, ih,
        List.filterMap_cons_some hx]
      simp only [List.map_cons, List.intercalate_cons_cons, List.filterMap_nil]

/-- What is read off a regrouped body is regrouped from what is read off its parts. -/
theorem filterMap_regrouped (h : ∀ c ∈ "(|)*".toList, f (mark c) = some (image c))
    (heads tails : List (List α)) : (regrouped mark heads tails).filterMap f =
      regrouped image (heads.map (List.filterMap f)) (tails.map (List.filterMap f)) := by
  have hopen := h '(' (by decide)
  have hpipe := h '|' (by decide)
  have hclose := h ')' (by decide)
  have hstar := h '*' (by decide)
  simp only [regrouped, List.filterMap_append, List.filterMap_cons_some hopen,
    List.filterMap_cons_some hclose, List.filterMap_cons_some hstar,
    filterMap_intercalate hpipe, List.filterMap_nil]

theorem map_regrouped (f : α → β) (mark : Char → α) (heads tails : List (List α)) :
    (regrouped mark heads tails).map f =
      regrouped (f ∘ mark) (heads.map (List.map f)) (tails.map (List.map f)) := by
  have hmark : ∀ c ∈ "(|)*".toList, (some ∘ f) (mark c) = some ((f ∘ mark) c) := fun c _ => rfl
  have hread := filterMap_regrouped hmark heads tails
  rwa [List.filterMap_eq_map] at hread

theorem filter_regrouped {p : α → Bool} (h : ∀ c ∈ "(|)*".toList, p (mark c) = true)
    (heads tails : List (List α)) : (regrouped mark heads tails).filter p =
      regrouped mark (heads.map (List.filter p)) (tails.map (List.filter p)) := by
  rw [← List.filterMap_eq_filter]
  exact filterMap_regrouped (fun c hc => if_pos (h c hc)) heads tails

theorem mem_intercalate (ha : a ∈ [x].intercalate lss) : a = x ∨ ∃ ls ∈ lss, a ∈ ls := by
  induction lss with
  | nil => exact absurd ha List.not_mem_nil
  | cons ls lss ih =>
    cases lss with
    | nil =>
      rw [List.intercalate_singleton] at ha
      exact .inr ⟨ls, List.mem_cons_self, ha⟩
    | cons ms lss =>
      rw [List.intercalate_cons_cons, List.append_assoc] at ha
      rcases List.mem_append.mp ha with ha | ha
      · exact .inr ⟨ls, List.mem_cons_self, ha⟩
      rcases List.mem_cons.mp ha with rfl | ha
      · exact .inl rfl
      · exact (ih ha).imp_right fun ⟨ks, hks, hmem⟩ => ⟨ks, List.mem_cons_of_mem ls hks, hmem⟩

/-- What stands in a regrouped body is a mark or stands in one of its parts. -/
theorem mem_regrouped (ha : a ∈ regrouped mark heads tails) :
    (∃ c ∈ "(|)*".toList, a = mark c) ∨ ∃ ls ∈ heads ++ tails, a ∈ ls := by
  have hparts {lss : List (List α)} (hlss : lss ⊆ heads ++ tails)
      (ha : a ∈ [mark '|'].intercalate lss) :
      (∃ c ∈ "(|)*".toList, a = mark c) ∨ ∃ ls ∈ heads ++ tails, a ∈ ls := by
    obtain rfl | ⟨ls, hls, hmem⟩ := mem_intercalate ha
    · exact .inl ⟨'|', by decide, rfl⟩
    · exact .inr ⟨ls, hlss hls, hmem⟩
  simp only [regrouped, List.mem_append, List.mem_cons, List.not_mem_nil, or_false] at ha
  obtain ((rfl | ha) | rfl | rfl | ha) | rfl | rfl := ha
  · exact .inl ⟨'(', by decide, rfl⟩
  · exact hparts (List.subset_append_left heads tails) ha
  · exact .inl ⟨')', by decide, rfl⟩
  · exact .inl ⟨'(', by decide, rfl⟩
  · exact hparts (List.subset_append_right heads tails) ha
  · exact .inl ⟨')', by decide, rfl⟩
  · exact .inl ⟨'*', by decide, rfl⟩

end Regrouped
end Rule

namespace Lexeme

open Rule

/-- A mark that stands by itself. -/
def mark (c : Char) : Lexeme := ⟨(single? c).getD .garbage, [c]⟩

variable {P : Text → Prop} {us heads tails : List Text} {v : Text} {hs ts : List (List Lexeme)}

/-! ## The lexemes of the rewritten body -/

/-- **Texts with pipes in between** have the lexemes of each, with pipes in between. -/
theorem significant_join (h : ∀ u ∈ us, Spliceable u) (hv : ∀ d ∈ v.head?, Ends d) :
    significant (Text.join " | ".toList us ++ v) =
      [mark '|'].intercalate (us.map significant) ++ significant v := by
  induction us with
  | nil => rfl
  | cons u us ih =>
    obtain ⟨hu, hus⟩ := List.forall_mem_cons.mp h
    cases us with
    | nil =>
      rw [Text.join_singleton, List.map_singleton, List.intercalate_singleton,
        hu.significant_append hv]
    | cons w us =>
      have hbar (t : Text) : significant (" | ".toList ++ t) = mark '|' :: significant t := by
        show significant (' ' :: '|' :: ' ' :: t) = _
        rw [significant_space, significant_mark (by decide) rfl (by simp [pair?]) (by decide),
          significant_space]
        rfl
      rw [Text.join_cons_cons, List.append_assoc, List.append_assoc,
        hu.significant_append (by simp [ends_space]), hbar, ih hus]
      simp only [List.map_cons, List.intercalate_cons_cons, List.append_assoc, List.cons_append,
        List.nil_append]

/-- **The lexemes of a rewritten body**, whatever stands behind it. -/
theorem significant_rewritten (hheads : ∀ u ∈ heads, Spliceable u)
    (htails : ∀ u ∈ tails, Spliceable u) (v : Text) : significant (rewritten heads tails ++ v) =
      regrouped mark (heads.map significant) (tails.map significant) ++ significant v := by
  have hmark {c : Char} (hc : c ∈ "()*".toList) (t : Text) :
      significant (c :: t) = mark c :: significant t := by
    have hall : ∀ c ∈ "()*".toList, c ∈ punctuationMarks ∧ (∀ d, pair? c d = none) ∧
        ∃ k, single? c = some k ∧ k ≠ .garbage ∧ k.isTrivia = false := by
      simp [pair?]
      decide
    obtain ⟨hmarks, hpair, k, hkind, hk⟩ := hall c hc
    rw [significant_mark hmarks hkind (fun d _ => hpair d) hk, mark, hkind]
    rfl
  have htext : rewritten heads tails ++ v = '(' :: (Text.join " | ".toList heads ++
      ')' :: ' ' :: '(' :: (Text.join " | ".toList tails ++ ')' :: '*' :: v)) := by
    simp [rewritten]
  have hclose (t : Text) : ∀ d ∈ (')' :: t).head?, Ends d := by simp [ends_parenClose]
  rw [htext, hmark (by decide), significant_join hheads (hclose _), hmark (by decide),
    significant_space, hmark (by decide), significant_join htails (hclose _), hmark (by decide),
    hmark (by decide)]
  simp [regrouped]

theorem forall_of_reads {lss : List (List Lexeme)} (h : List.Forall₂ (Reads P) us lss) :
    ∀ u ∈ us, P u := by
  intro u hu
  obtain ⟨ls, -, hread⟩ := exists_of_mem_right h.flip hu
  exact hread.of_kind

theorem map_plain_of_reads {lss : List (List Lexeme)} (h : List.Forall₂ (Reads P) us lss) :
    us.map plain = lss :=
  (map_eq_map_of_forall₂ (h.imp fun _ _ hread => hread.plain_eq)).trans (List.map_id lss)

/-- **Without its blocks** a rewritten body is regrouped from what its parts read as. -/
theorem plain_rewritten (hheads : List.Forall₂ (Reads Spliceable) heads hs)
    (htails : List.Forall₂ (Reads Spliceable) tails ts) :
    plain (rewritten heads tails) = regrouped mark hs ts := by
  have hlexemes := significant_rewritten (forall_of_reads hheads)
    (forall_of_reads htails) []
  have hmarks : ∀ c ∈ "(|)*".toList, decide ((mark c).kind ≠ .block) = true :=
    List.all_eq_true.mp rfl
  rw [significant_nil, List.append_nil, List.append_nil] at hlexemes
  rw [← map_plain_of_reads hheads, ← map_plain_of_reads htails, plain, hlexemes,
    filter_regrouped hmarks, List.map_map, List.map_map]
  rfl

end Lexeme

namespace Branches

open Rule Lexeme

variable {hs ts : List (List Lexeme)}

/-- **A body that is regrouped from nested parts has no separator**, and is nested. -/
theorem whole_regrouped (hhs : ∀ ls ∈ hs, Nested ls) (hts : ∀ ls ∈ ts, Nested ls) :
    Whole 0 (regrouped mark hs ts) := by
  have hpipe : weight (mark '|') = 0 := rfl
  have hpair {ls ms : List Lexeme} (hls : Nested ls) (hms : Whole 0 ms) :
      Whole 0 (mark '(' :: ls ++ mark ')' :: ms) := by
    have hopen : height (mark '(' :: ls) = 1 := by
      rw [height_cons, hls.height_eq]
      rfl
    rw [whole_append, hopen]
    exact ⟨⟨fun h => absurd h.1 (by decide), hls.whole⟩, fun h => absurd h.1 (by decide), hms⟩
  have hstar : Whole 0 [mark '*'] := ⟨fun h => absurd h.1 (by decide), trivial⟩
  have htails := hpair (nested_intercalate hpipe hts) hstar
  have hboth := hpair (nested_intercalate hpipe hhs) htails
  rw [regrouped, List.append_assoc]
  exact hboth

end Branches

namespace Rule

open Lexeme Branches

variable {P : Text → Prop} {s : TokenStream} {r : Rule} {as : List Alternative}
  {lss : List (List Lexeme)} {ls : List Lexeme} {l : Lexeme} {heads tails : List Text}

/-! ## The parts of the rewritten body -/

theorem headLexemes_cons (r : Rule) (ls : List Lexeme) (lss : List (List Lexeme)) :
    r.headLexemes (ls :: lss) =
      if r.IsHead (ls.map Lexeme.text) then ls :: r.headLexemes lss else r.headLexemes lss := by
  rw [headLexemes, List.filter_cons]
  simp only [decide_eq_true_eq, headLexemes]

theorem tailLexemes_cons (r : Rule) (ls : List Lexeme) (lss : List (List Lexeme)) :
    r.tailLexemes (ls :: lss) =
      if r.IsTail (ls.map Lexeme.text) then ls.tail :: r.tailLexemes lss
      else r.tailLexemes lss := by
  rw [tailLexemes, List.filter_cons]
  simp only [decide_eq_true_eq, tailLexemes]
  split <;> rfl

theorem map_text_headLexemes (r : Rule) (lss : List (List Lexeme)) :
    (r.headLexemes lss).map (List.map Lexeme.text) =
      r.heads (lss.map (List.map Lexeme.text)) := by
  rw [Rule.heads, List.filter_map]
  rfl

theorem map_text_tailLexemes (r : Rule) (lss : List (List Lexeme)) :
    (r.tailLexemes lss).map (List.map Lexeme.text) =
      r.tails (lss.map (List.map Lexeme.text)) := by
  rw [tailLexemes, Rule.tails, List.filter_map, List.map_map, List.map_map]
  refine List.map_congr_left fun ls _ => ?_
  exact List.map_tail

/-- What stands in a part stands in an alternative. -/
theorem exists_of_mem_parts (hls : ls ∈ r.headLexemes lss ++ r.tailLexemes lss) (hl : l ∈ ls) :
    ∃ ms ∈ lss, l ∈ ms := by
  rcases List.mem_append.mp hls with hls | hls
  · exact ⟨ls, List.mem_of_mem_filter hls, hl⟩
  · obtain ⟨ms, hms, rfl⟩ := List.mem_map.mp hls
    exact ⟨ms, List.mem_of_mem_filter hms, List.mem_of_mem_tail hl⟩

theorem nested_of_mem_headLexemes (h : ∀ ls ∈ lss, Nested ls) :
    ∀ ls ∈ r.headLexemes lss, Nested ls :=
  fun ls hls => h ls (List.mem_of_mem_filter hls)

/-- A name is no parenthesis, so without it an alternative is nested as before. -/
theorem nested_of_mem_tailLexemes (h : ∀ ls ∈ lss, Nested ls)
    (hname : r.name ≠ ['('] ∧ r.name ≠ [')']) : ∀ ls ∈ r.tailLexemes lss, Nested ls := by
  intro ls hls
  obtain ⟨ms, hms, rfl⟩ := List.mem_map.mp hls
  obtain ⟨hmem, htail⟩ := List.mem_filter.mp hms
  have hnested := h ms hmem
  cases ms with
  | nil => exact nested_nil
  | cons l ms =>
    have hl : l.text = r.name := Option.some.inj (of_decide_eq_true htail).1
    refine (nested_cons_iff ?_).mp hnested
    rw [weight, hl, if_neg hname.1, if_neg hname.2]

/-! ## Regrouping -/

variable {a : Alternative}

theorem not_isTail_of_isHead {texts : List Text} (h : r.IsHead texts) : ¬ r.IsTail texts :=
  fun htail => h.2 htail.1

theorem exists_regroup_cons_of_isHead (ha : a.Says P s ls) (hls : r.IsHead (ls.map Lexeme.text))
    (hrest : r.regroup s as = .ok (heads, tails)) :
    ∃ u, Reads P u ls ∧ r.regroup s (a :: as) = .ok (u :: heads, tails) := by
  obtain ⟨hne, hname⟩ := hls
  rw [Ne, List.map_eq_nil_iff] at hne
  rw [List.head?_map] at hname
  obtain ⟨u, hu, hreads⟩ := ha.text hne
  refine ⟨u, hreads, ?_⟩
  simp [regroup, ha.empty, hne, ha.starts, hname, hu, hrest, bind, Except.bind, pure, Except.pure]

theorem exists_regroup_cons_of_isTail (ha : a.Says P s ls) (hls : r.IsTail (ls.map Lexeme.text))
    (hrest : r.regroup s as = .ok (heads, tails)) :
    ∃ u, Reads P u ls.tail ∧ r.regroup s (a :: as) = .ok (heads, u :: tails) := by
  obtain ⟨hname, hlength⟩ := hls
  rw [List.head?_map] at hname
  rw [List.length_map] at hlength
  have hne : ls ≠ [] := List.ne_nil_of_length_pos (Nat.lt_of_succ_lt hlength)
  have htail : ls.tail ≠ [] := List.ne_nil_of_length_pos (by rw [List.length_tail]; omega)
  obtain ⟨u, hu, hreads⟩ := ha.suffix htail
  refine ⟨u, hreads, ?_⟩
  simp [regroup, ha.empty, hne, ha.starts, hname, hu, hrest, bind, Except.bind, pure, Except.pure]

/-- An alternative that is empty, or nothing but a call of the rule, is left out. -/
theorem regroup_cons_of_not (ha : a.Says P s ls) (hhead : ¬ r.IsHead (ls.map Lexeme.text))
    (htail : ¬ r.IsTail (ls.map Lexeme.text)) (hrest : r.regroup s as = .ok (heads, tails)) :
    r.regroup s (a :: as) = .ok (heads, tails) := by
  match ls with
  | [] => simp [regroup, ha.empty, hrest]
  | [l] =>
    have hname : l.text = r.name := by simpa [IsHead] using hhead
    simp [regroup, ha.empty, ha.starts, hname, ha.no_suffix rfl, hrest, bind, Except.bind, pure,
      Except.pure]
  | l :: m :: ls =>
    have hname : l.text = r.name := by simpa [IsHead] using hhead
    exact absurd ⟨congrArg some hname, Nat.le_add_left 2 _⟩ htail

/-- **Alternatives are sorted** into those that do not call the rule first, and what stands behind
the call in the others, if that is something. -/
theorem exists_regroup (r : Rule) (h : List.Forall₂ (Alternative.Says P s) as lss) :
    ∃ heads tails, r.regroup s as = .ok (heads, tails) ∧
      List.Forall₂ (Reads P) heads (r.headLexemes lss) ∧
      List.Forall₂ (Reads P) tails (r.tailLexemes lss) := by
  induction h with
  | nil => exact ⟨[], [], rfl, .nil, .nil⟩
  | @cons a ls as lss ha _ ih =>
    obtain ⟨heads, tails, hrest, hheads, htails⟩ := ih
    rw [headLexemes_cons, tailLexemes_cons]
    by_cases hhead : r.IsHead (ls.map Lexeme.text)
    · obtain ⟨u, hreads, hregroup⟩ := exists_regroup_cons_of_isHead ha hhead hrest
      rw [if_pos hhead, if_neg (not_isTail_of_isHead hhead)]
      exact ⟨u :: heads, tails, hregroup, .cons hreads hheads, htails⟩
    by_cases htail : r.IsTail (ls.map Lexeme.text)
    · obtain ⟨u, hreads, hregroup⟩ := exists_regroup_cons_of_isTail ha htail hrest
      rw [if_neg hhead, if_pos htail]
      exact ⟨heads, u :: tails, hregroup, hheads, .cons hreads htails⟩
    · rw [if_neg hhead, if_neg htail]
      exact ⟨heads, tails, regroup_cons_of_not ha hhead htail hrest, hheads, htails⟩

theorem leftRecursionRemoved_eq (has : r.alternatives s = .ok as)
    (hregroup : r.regroup s as = .ok (heads, tails)) :
    r.leftRecursionRemoved s = .ok (rewritten heads tails) := by
  simp only [leftRecursionRemoved, has, hregroup, bind, Except.bind]
  rfl

end Rule
end GrammarAtlas
