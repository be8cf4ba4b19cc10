import GrammarAtlas.Proofs.Lexeme.Splice
import GrammarAtlas.Proofs.Rule.Separators
import GrammarAtlas.Proofs.Rule.Texts
import GrammarAtlas.Proofs.Token.Append

/-!
# Passages of a body

An alternative is a passage of the body of its rule: its tokens stand next to each other but for
blocks (`plain_of_infix`).  So the text from its first token to its last reads as these tokens,
blocks left out (`exists_reads`).  Whatever else is known of all that is cut out of the body
(`Cuts`) is known of this text: it may go on reading so in front of other text, if nothing is wrong
in the source and no comment is opened in it (`cuts_spliceable`).

`Alternative.Says` puts together what is read off an alternative: which lexemes it consists of,
its text, and the text behind its first token.
-/

namespace GrammarAtlas

/-- What lies in the middle is told from both sides. -/
theorem filter_middle {α : Type} {p : α → Bool} {as ms bs : List α} (has : ∀ a ∈ as, p a = false)
    (hms : ∀ m ∈ ms, p m = true) (hbs : ∀ b ∈ bs, p b = false) :
    (as ++ ms ++ bs).filter p = ms := by
  rw [List.filter_append, List.filter_append,
    List.filter_eq_nil_iff.mpr fun a ha => by rw [has a ha]; decide, List.filter_eq_self.mpr hms,
    List.filter_eq_nil_iff.mpr fun b hb => by rw [hbs b hb]; decide, List.nil_append,
    List.append_nil]

/-- What is related to a part of a list is a part of the related list. -/
theorem exists_infix_of_forall₂ {α β : Type} {R : α → β → Prop} {xs : List α} {ys zs : List β}
    (h : List.Forall₂ R xs ys) (hzs : zs <:+: ys) : ∃ ws, ws <:+: xs ∧ List.Forall₂ R ws zs := by
  obtain ⟨front, back, rfl⟩ := hzs
  rw [List.append_assoc] at h
  refine ⟨(xs.drop front.length).take zs.length, ?_, ?_⟩
  · exact (List.take_prefix _ _).isInfix.trans (List.drop_suffix _ _).isInfix
  · exact List.forall₂_take_append _ _ _ (List.forall₂_drop_append _ _ _ h)

namespace Lexeme

/-- The lexemes of a text that are no blocks. -/
def plain (t : Text) : List Lexeme := (significant t).filter (·.kind ≠ .block)

/-- **A text reads as some lexemes**, blocks left out, and is of a kind. -/
structure Reads (P : Text → Prop) (t : Text) (ls : List Lexeme) : Prop where
  of_kind : P t
  plain_eq : plain t = ls

end Lexeme

namespace TokenStream

open Lexeme PlacedLexeme

variable {source : Text} {s : TokenStream} {i j start stop : Nat} {t : Token}
  {as bs cs : List Lexeme} {p : Nat × Token} {ps : List (Nat × Token)}

/-! ## Plain tokens -/

theorem get?_of_mem_plain (hp : p ∈ s.plain i stop) :
    s.get? p.1 = some p.2 ∧ i ≤ p.1 ∧ p.1 < stop :=
  get?_of_mem_indexed (List.mem_of_mem_filter hp)

theorem map_snd_plain (s : TokenStream) (i stop : Nat) :
    (s.plain i stop).map (·.2) = (s.slice i stop).filter (·.kind ≠ .block) := by
  rw [plain, ← map_snd_indexed, List.filter_map]
  rfl

/-- Tokens read as lexemes without the blocks, too. -/
theorem forall₂_filter_block {ts : List Token} {ls : List Lexeme}
    (h : List.Forall₂ (fun t l => t.kind = l.kind ∧ s.text t = .ok l.text) ts ls) :
    List.Forall₂ (fun t l => t.kind = l.kind ∧ s.text t = .ok l.text)
      (ts.filter (·.kind ≠ .block)) (ls.filter (·.kind ≠ .block)) := by
  refine List.rel_filter (fun t l htl => ?_) h
  show decide (t.kind ≠ .block) = true ↔ decide (l.kind ≠ .block) = true
  rw [htl.1]

/-- The plain tokens of a range read as the plain lexemes of the range. -/
theorem ReadsAs.forall₂_plain {ls : List Lexeme} (h : s.ReadsAs ls) (i stop : Nat) :
    List.Forall₂ (fun t l => t.kind = l.kind ∧ s.text t = .ok l.text)
      ((s.plain i stop).map (·.2)) (((ls.take stop).drop i).filter (·.kind ≠ .block)) := by
  rw [map_snd_plain]
  exact forall₂_filter_block (List.forall₂_drop i (List.forall₂_take stop h))

/-- **Tokens next to each other but for blocks** are those from the first of them to the last. -/
theorem plain_of_infix (h : ps <:+: s.plain start stop) (hne : ps ≠ []) :
    s.plain (ps.head hne).1 ((ps.getLast hne).1 + 1) = ps := by
  have hsorted := s.pairwise_plain start stop
  obtain ⟨front, back, hparts⟩ := h
  rw [← hparts, List.pairwise_append, List.pairwise_append] at hsorted
  obtain ⟨⟨-, hps, hfront⟩, -, hback⟩ := hsorted
  have hps : ps.Pairwise fun p q => p.1 ≤ q.1 := hps.imp Nat.le_of_lt
  have : Std.Refl fun p q : Nat × Token => p.1 ≤ q.1 := ⟨fun p => Nat.le_refl p.1⟩
  have hmem {p : Nat × Token} (hp : p ∈ ps) : p ∈ s.plain start stop :=
    hparts ▸ List.mem_append_left _ (List.mem_append_right _ hp)
  obtain ⟨-, hstart, -⟩ := get?_of_mem_plain (hmem (List.head_mem hne))
  obtain ⟨-, -, hstop⟩ := get?_of_mem_plain (hmem (List.getLast_mem hne))
  have hle : (ps.head hne).1 ≤ (ps.getLast hne).1 := hps.rel_head (List.getLast_mem hne)
  -- Both are the tokens that are neither in front of the first nor behind the last.
  let between (p : Nat × Token) : Bool := (ps.head hne).1 ≤ p.1 ∧ p.1 ≤ (ps.getLast hne).1
  calc s.plain (ps.head hne).1 ((ps.getLast hne).1 + 1)
    _ = (s.plain start stop).filter between := by
        rw [plain_append hstart (Nat.le_trans hle (Nat.le_of_lt hstop)),
          plain_append (Nat.le_succ_of_le hle) hstop, ← List.append_assoc]
        refine (filter_middle (fun p hp => ?_) (fun p hp => ?_) fun p hp => ?_).symm
        · obtain ⟨-, -, hlt⟩ := get?_of_mem_plain hp
          exact decide_eq_false fun hboth => by omega
        · obtain ⟨-, hle, hlt⟩ := get?_of_mem_plain hp
          exact decide_eq_true ⟨hle, Nat.le_of_lt_succ hlt⟩
        · obtain ⟨-, hlt, -⟩ := get?_of_mem_plain hp
          exact decide_eq_false fun hboth => by omega
    _ = ps := by
        rw [← hparts]
        refine filter_middle (fun p hp => ?_) (fun p hp => ?_) fun p hp => ?_
        · have hlt := hfront p hp _ (List.head_mem hne)
          exact decide_eq_false fun hboth => by omega
        · exact decide_eq_true ⟨hps.rel_head hp, hps.rel_getLast hp⟩
        · have hlt := hback _ (List.mem_append_right _ (List.getLast_mem hne)) p hp
          exact decide_eq_false fun hboth => by omega

/-! ## The text of a part -/

/-- The lexemes of a part of a source are those that the source has there. -/
theorem Part.significant_slice (h : Part source i j as bs cs) :
    ((significant source).take (j + 1)).drop i = significant (bs.flatMap Lexeme.text) := by
  have hfront := h.length_front
  have hthrough := h.length_through
  rw [length_tokensOf] at hfront hthrough
  rw [significant, h.scan_eq, List.filter_append, ← hthrough, List.take_left, List.filter_append,
    ← hfront, List.drop_left, significant, scan_part h.scan_eq]

/-- The plain tokens of a part read as the plain lexemes of its text. -/
theorem Part.forall₂_plain (h : Part source i j as bs cs) :
    List.Forall₂ (fun t l => t.kind = l.kind ∧ (lex source).text t = .ok l.text)
      (((lex source).plain i (j + 1)).map (·.2)) (Lexeme.plain (bs.flatMap Lexeme.text)) := by
  rw [Lexeme.plain, ← h.significant_slice]
  exact (readsAs_lex source).forall₂_plain i (j + 1)

/-- The text of a part that ends with a token can be put in front of others. -/
theorem Part.spliceable (h : Part source i j as bs cs) (hsound : ∀ l ∈ scan source, l.Sound)
    (hcomment : bs.IsChain fun l m => ¬ (l.text = ['/'] ∧ m.text = ['*']))
    (hlast : ∀ l ∈ bs.getLast?, l.kind.isTrivia = false) : Spliceable (bs.flatMap Lexeme.text) := by
  have hscan := scan_part h.scan_eq
  have hpart : bs <:+: scan source := ⟨as, cs, h.scan_eq.symm⟩
  refine ⟨?_, ?_, ?_⟩
  · rw [hscan]
    exact fun l hl => hsound l (hpart.subset hl)
  · rwa [hscan]
  · rwa [hscan]

/-- **What is cut out of a source** between some of its tokens, from one token to another, is of a
kind. -/
def Cuts (P : Text → Prop) (source : Text) (start stop : Nat) : Prop :=
  ∀ i j as bs cs, start ≤ i → j < stop → Part source i j as bs cs →
    (∀ l ∈ bs.getLast?, l.kind.isTrivia = false) → P (bs.flatMap Lexeme.text)

theorem cuts_spliceable (hsound : ∀ l ∈ scan source, l.Sound)
    (hcomment : (lex source).NoOpenComment) (start stop : Nat) :
    Cuts Spliceable source start stop := by
  intro i j as bs cs _ _ hpart hlast
  have hchain := isChain_scan_of_noOpenComment hcomment
  rw [hpart.scan_eq] at hchain
  exact hpart.spliceable hsound hchain.left_of_append.right_of_append hlast

theorem textBetween_self (hr : s.Readable) (ht : s.get? i = some t) :
    s.textBetween i i = s.textAt i := by
  rw [textBetween, textAt, ht]
  exact if_pos (hr.start_le_stop (mem_of_get? ht))

end TokenStream

namespace Rule

open TokenStream Lexeme

variable {P : Text → Prop} {source : Text} {s : TokenStream} {start stop : Nat}
  {ps : List (Nat × Token)} {ks ls : List IndexedLexeme} {k : IndexedLexeme}

/-- What tokens are read as is determined. -/
theorem map_snd_eq_of_lexed {ls : List Lexeme} (hks : List.Forall₂ (Lexed s) ps ks)
    (hls : List.Forall₂ (fun t l => t.kind = l.kind ∧ s.text t = .ok l.text) (ps.map (·.2)) ls) :
    ks.map (·.2) = ls := by
  induction hks generalizing ls with
  | nil =>
    cases hls
    rfl
  | cons hk _ ih =>
    obtain ⟨⟨kind, text⟩, ls, hl, htail, rfl⟩ := List.forall₂_cons_left_iff.mp hls
    obtain ⟨-, hkind, htext⟩ := hk
    obtain rfl : _ = kind := hkind.trans hl.1
    obtain rfl : _ = text := Except.ok.inj (htext.symm.trans hl.2)
    rw [List.map_cons, ih htail]

theorem textAt_of_lexed (hls : List.Forall₂ (Lexed s) (s.plain start stop) ls) (hk : k ∈ ls) :
    s.textAt k.1 = .ok k.2.text := by
  obtain ⟨p, hp, hindex, -, htext⟩ := exists_of_mem_right hls hk
  rw [hindex, textAt_of_get? (get?_of_mem_plain hp).1, htext]

/-- **The text of a passage reads as the passage.** -/
theorem exists_reads (hcuts : Cuts P source start stop)
    (hls : List.Forall₂ (Lexed (lex source)) ((lex source).plain start stop) ls)
    (hks : ks <:+: ls) (hne : ks ≠ []) :
    ∃ u, (lex source).textBetween (ks.head hne).1 (ks.getLast hne).1 = .ok u ∧
      Reads P u (ks.map (·.2)) := by
  obtain ⟨ps, hps, hlexed⟩ := exists_infix_of_forall₂ hls hks
  have hne' : ps ≠ [] := by
    rintro rfl
    exact hne (List.forall₂_nil_left_iff.mp hlexed)
  have hindices : ps.map (·.1) = ks.map (·.1) :=
    map_eq_map_of_forall₂ (hlexed.imp fun _ _ hk => hk.1.symm)
  have hfirst : (ps.map (·.1)).head (by simpa using hne') =
      (ks.map (·.1)).head (by simpa using hne) := by simp only [hindices]
  have hlast := List.getLast_congr (by simpa using hne') (by simpa using hne) hindices
  rw [List.head_map, List.head_map] at hfirst
  rw [List.getLast_map, List.getLast_map] at hlast
  have hplain := plain_of_infix hps hne'
  rw [hfirst, hlast] at hplain
  have hmem : ps.getLast hne' ∈ (lex source).plain (ks.head hne).1 ((ks.getLast hne).1 + 1) := by
    rw [hplain]
    exact List.getLast_mem hne'
  obtain ⟨-, hle, -⟩ := get?_of_mem_plain hmem
  obtain ⟨-, hstart, -⟩ := get?_of_mem_plain (hps.subset (List.head_mem hne'))
  obtain ⟨hget, -, hstop⟩ := get?_of_mem_plain (hps.subset (List.getLast_mem hne'))
  have hsize := lt_of_get? hget
  rw [hfirst] at hstart
  rw [hlast] at hle hstop hsize
  obtain ⟨as, bs, cs, hpart, hend⟩ := exists_part_of_token hle hsize
  refine ⟨_, hpart.textBetween_eq, hcuts _ _ _ _ _ hstart hstop hpart hend, ?_⟩
  have hread := hpart.forall₂_plain
  rw [hplain] at hread
  exact (map_snd_eq_of_lexed hlexed hread).symm

end Rule

namespace Alternative

open TokenStream Lexeme

variable {P : Text → Prop} {source : Text} {s : TokenStream} {start stop i j : Nat}
  {ls ks : List IndexedLexeme}

/-- The text behind the first token reaches from the second to the last, if there is a second. -/
theorem suffixText?_eq (hr : s.Readable) (hj : j < s.size) (i : Nat) (is : List Nat) :
    suffixText? ⟨i :: j :: is⟩ s =
      some <$> s.textBetween j ((j :: is).getLast (List.cons_ne_nil j is)) := by
  cases is with
  | nil =>
    obtain ⟨t, ht⟩ := exists_get? hj
    rw [List.getLast_singleton, textBetween_self hr ht]
    rfl
  | cons l is => exact suffixText?_cons i j l is s

/-- An alternative starts with the text of its first lexeme. -/
theorem startsWith_of_lexed (hls : List.Forall₂ (Rule.Lexed s) (s.plain start stop) ls)
    (hks : ks <:+: ls) (name : Text) : startsWith ⟨ks.map (·.1)⟩ s name =
      .ok (decide ((ks.map (·.2)).head?.map Lexeme.text = some name)) := by
  cases ks with
  | nil => rfl
  | cons k ks =>
    have htext := Rule.textAt_of_lexed hls (hks.subset List.mem_cons_self)
    simp [startsWith, first?, htext, bind, Except.bind, pure, Except.pure]

/-- **What is read off an alternative** that consists of some lexemes. -/
structure Says (P : Text → Prop) (s : TokenStream) (a : Alternative) (ls : List Lexeme) :
    Prop where
  texts : a.texts s = .ok (ls.map Lexeme.text)
  empty : a.isEmpty = ls.isEmpty
  starts : ∀ name, a.startsWith s name = .ok (decide (ls.head?.map Lexeme.text = some name))
  text : ls ≠ [] → ∃ u, a.text s = .ok u ∧ Reads P u ls
  suffix : ls.tail ≠ [] → ∃ u, a.suffixText? s = .ok (some u) ∧ Reads P u ls.tail
  no_suffix : ls.tail = [] → a.suffixText? s = .ok none

/-- **An alternative says what its passage of the body is.** -/
theorem says_of_infix (hcuts : Cuts P source start stop)
    (hls : List.Forall₂ (Rule.Lexed (lex source)) ((lex source).plain start stop) ls)
    (hks : ks <:+: ls) : Says P (lex source) ⟨ks.map (·.1)⟩ (ks.map (·.2)) where
  texts := by
    refine mapM_eq_ok ?_
    rw [List.forall₂_map_left_iff, List.forall₂_map_right_iff, List.forall₂_map_right_iff]
    exact List.forall₂_same.mpr fun k hk => Rule.textAt_of_lexed hls (hks.subset hk)
  empty := by cases ks <;> rfl
  starts := startsWith_of_lexed hls hks
  text := by
    intro hne
    cases ks with
    | nil => exact absurd rfl hne
    | cons k ks =>
      obtain ⟨u, hu, hreads⟩ := Rule.exists_reads hcuts hls hks (List.cons_ne_nil k ks)
      refine ⟨u, ?_, hreads⟩
      rw [List.map_cons, text_cons]
      simp only [← List.map_cons, List.getLast_map]
      exact hu
  suffix := by
    intro hne
    match ks with
    | [] => exact absurd rfl hne
    | [_] => exact absurd rfl hne
    | i :: j :: ks =>
      have htail : j :: ks <:+: ls := (List.suffix_cons i _).isInfix.trans hks
      obtain ⟨u, hu, hreads⟩ := Rule.exists_reads hcuts hls htail (List.cons_ne_nil j ks)
      obtain ⟨p, hp, hindex, -⟩ := exists_of_mem_right hls (htail.subset List.mem_cons_self)
      have hsize : j.1 < (lex source).size := hindex ▸ lt_of_get? (get?_of_mem_plain hp).1
      refine ⟨u, ?_, hreads⟩
      rw [List.map_cons, List.map_cons, suffixText?_eq (readable_lex source) hsize]
      simp only [← List.map_cons, List.getLast_map]
      rw [List.head_cons] at hu
      rw [hu]
      rfl
  no_suffix := by
    intro hnil
    match ks with
    | [] => rfl
    | [_] => rfl

/-- The alternatives of a body say what its branches are. -/
theorem says_split (hcuts : Cuts P source start stop)
    (hls : List.Forall₂ (Rule.Lexed (lex source)) ((lex source).plain start stop) ls) :
    List.Forall₂ (Says P (lex source))
      ((Branches.split 0 [] ls).map fun branch => ⟨branch.map (·.1)⟩)
      ((Branches.split 0 [] ls).map (List.map (·.2))) := by
  rw [List.forall₂_map_left_iff, List.forall₂_map_right_iff]
  exact List.forall₂_same.mpr fun b hb =>
    says_of_infix hcuts hls (Branches.infix_of_mem_split hb)

end Alternative
end GrammarAtlas
