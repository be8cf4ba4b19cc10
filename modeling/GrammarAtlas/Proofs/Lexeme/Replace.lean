import GrammarAtlas.Proofs.Lexeme.Pieces

/-!
# What stands behind a piece

Where a piece ends may depend on the text behind it: an identifier goes on while
there are letters, a colon pairs with another one, a slash and a star make a comment
if the comment closes far away.  This module says when another text may stand there
instead, so that the piece stays the same (`piece_replace`).

Two texts may always take the place of what stands there:

* a shorter part of it, whatever the piece is (`replaces_of_front`);
* the same text with a line feed and anything else behind it, as long as the piece is
  sound and is no slash in front of a star (`replaces_append_newline`).

A delimited piece that closes does not look behind its closing delimiter
(`Literal.cut_closed`, `Comment.cut_closed`, `Block.cut_closed`).  One that does not
close is the only kind of piece that may be changed by a text added at the very end.
-/

namespace GrammarAtlas

namespace Literal

variable {q c : Char} {r s : Text}

theorem taken_ne_nil (q c : Char) (t : Text) : (cut q (c :: t)).taken ≠ [] := by
  cases t with
  | nil => exact List.cons_ne_nil c []
  | cons d t =>
    rw [cut]
    split_ifs <;> exact List.cons_ne_nil _ _

/-- What stands behind a literal does not change it. -/
theorem cut_closed {u : Text} (hq : q ≠ '\\') (h : cut q (u ++ r) = ⟨true, u, r⟩) (s : Text) :
    cut q (u ++ s) = ⟨true, u, s⟩ := by
  obtain ⟨body, hbody, htaken⟩ := exists_of_closed (congrArg Cut.closed h)
  obtain rfl : u = body ++ [q] := (congrArg Cut.taken h).symm.trans htaken
  rw [List.append_assoc]
  exact cut_append hq hbody

/-- A literal that cannot close stays so when the text is cut behind it. -/
theorem cut_open : ∀ {u : Text}, cut q (u ++ r) = ⟨false, u, r⟩ → s <+: r →
    cut q (u ++ s) = ⟨false, u, s⟩
  | [], h, hs => by
    cases r with
    | nil =>
      rw [List.prefix_nil.mp hs]
      exact h
    | cons d r => exact absurd (congrArg Cut.taken h) (taken_ne_nil q d r)
  | [c], h, hs => by
    cases r with
    | nil =>
      rw [List.prefix_nil.mp hs]
      exact h
    | cons d r =>
      rw [List.singleton_append, cut] at h
      split_ifs at h with hc hd hq
      · -- a backslash in front of a line feed
        subst hc hd
        cases s with
        | nil => simp [cut]
        | cons e s =>
          obtain rfl : e = '\n' := (List.cons_prefix_cons.mp hs).1
          rfl
      · exact absurd (congrArg Cut.taken h) (by simp)
      · exact absurd (congrArg Cut.closed h) (by simp)
      · exact absurd (congrArg Cut.taken (Cut.cons_eq_iff.mp h)) (taken_ne_nil q d r)
  | c :: d :: u, h, hs => by
    rw [List.cons_append, List.cons_append, cut] at h ⊢
    split_ifs at h ⊢ with hc hd hq
    · exact absurd (congrArg Cut.taken h) (by simp)
    · rw [cut_open (Cut.cons_eq_iff.mp (Cut.cons_eq_iff.mp h)) hs]
      rfl
    · exact absurd (congrArg Cut.closed h) (by simp)
    · rw [← List.cons_append, cut_open (Cut.cons_eq_iff.mp h) hs]
      rfl

end Literal

namespace Comment

variable {r s u : Text}

/-- What stands behind a comment does not change it. -/
theorem cut_closed (h : cut (u ++ r) = ⟨true, u, r⟩) (s : Text) : cut (u ++ s) = ⟨true, u, s⟩ := by
  obtain ⟨body, hbody, htaken⟩ := exists_of_closed (congrArg Cut.closed h)
  obtain rfl : u = body ++ ['/'] := (congrArg Cut.taken h).symm.trans htaken
  rw [List.append_assoc]
  exact cut_append hbody

/-- A comment that closes in a text closes in every longer one. -/
theorem closed_append (h : (cut s).closed = true) (r : Text) : (cut (s ++ r)).closed = true := by
  obtain ⟨body, hbody, htaken⟩ := exists_of_closed h
  have htext := taken_append_rest s
  rw [← htext, htaken, List.append_assoc, List.append_assoc]
  exact congrArg Cut.closed (cut_append hbody)

end Comment

namespace Block

/-- What stands behind a block does not change it. -/
theorem cut_closed {depth : Nat} {quote : Option Char} {u r : Text}
    (h : cut depth quote (u ++ r) = ⟨true, u, r⟩) (s : Text) :
    cut depth quote (u ++ s) = ⟨true, u, s⟩ := by
  have hs := cut_taken_append (congrArg Cut.closed h) s
  rwa [h] at hs

end Block

namespace Lexeme

variable {kind : TokenKind} {p : Char → Bool} {c q : Char} {r s u w : Text} {l : Lexeme}

/-- Nothing is wrong with the piece: it is no garbage, and a block has its closing
brace. -/
def Sound (l : Lexeme) : Prop :=
  l.kind ≠ .garbage ∧ (l.kind = .block → (Block.cut 0 none l.text.tail).closed = true)

/-- **One text instead of another one behind a piece.**  `s` may take the place of `r`:
it begins like `r` or with a line feed, a slash in front of it does not open a
comment unless it did before, and if something is wrong with the piece, then `s` is only
a shorter part of `r`. -/
structure Replaces (s r : Text) (l : Lexeme) : Prop where
  head : ∀ d ∈ s.head?, d ∈ r.head? ∨ d = '\n'
  comment : l.text = ['/'] → ∀ t, s = '*' :: t → (Comment.cut t).closed = true →
    ∃ t', r = '*' :: t' ∧ (Comment.cut t').closed = true
  unsound : ¬ l.Sound → s <+: r

theorem run_eq (hu : ∀ d ∈ u, p d = true) (hs : ∀ d ∈ s.head?, p d = false) :
    run kind p c (u ++ s) = (⟨kind, c :: u⟩, s) := by
  have htake : s.takeWhile p = [] := by
    cases s with
    | nil => rfl
    | cons d s => exact List.takeWhile_cons_of_neg (Bool.eq_false_iff.mp (hs d rfl))
  have hdrop : s.dropWhile p = s := by
    cases s with
    | nil => rfl
    | cons d s => exact List.dropWhile_cons_of_neg (Bool.eq_false_iff.mp (hs d rfl))
  rw [run, List.takeWhile_append_of_pos hu, List.dropWhile_append_of_pos hu, htake, hdrop,
    List.append_nil]

/-- A run ends where it ended, unless what stands there goes on with it. -/
theorem run_replace {k : TokenKind} (h : run kind p c (u ++ r) = (⟨k, c :: u⟩, r))
    (hnewline : p '\n' = false) (hs : ∀ d ∈ s.head?, d ∈ r.head? ∨ d = '\n') :
    run kind p c (u ++ s) = (⟨k, c :: u⟩, s) := by
  have hlexeme := congrArg Prod.fst h
  have hrest : (u ++ r).dropWhile p = r := congrArg Prod.snd h
  have htaken : (u ++ r).takeWhile p = u := (List.cons.inj (congrArg text hlexeme)).2
  obtain rfl : kind = k := congrArg Lexeme.kind hlexeme
  refine run_eq (fun d hd => ?_) (fun d hd => ?_)
  · rw [← htaken] at hd
    exact List.mem_takeWhile_imp hd
  · rcases hs d hd with hd | rfl
    · rw [← hrest] at hd
      exact head_dropWhile d hd
    · exact hnewline

theorem punctuation_eq (hs : ∀ d ∈ s.head?, pair? c d = none) :
    punctuation c s = (⟨(single? c).getD .garbage, [c]⟩, s) := by
  cases s with
  | nil => rfl
  | cons d s => rw [punctuation, hs d rfl]

theorem pair?_newline (c : Char) : pair? c '\n' = none := by
  simp [pair?]

/-- Punctuation is the same pair, or the same character with no other to pair with. -/
theorem punctuation_replace {k : TokenKind} (h : punctuation c (u ++ r) = (⟨k, c :: u⟩, r))
    (hs : ∀ d ∈ s.head?, d ∈ r.head? ∨ d = '\n') :
    punctuation c (u ++ s) = (⟨k, c :: u⟩, s) := by
  cases u with
  | nil =>
    have hr : ∀ d ∈ r.head?, pair? c d = none := by
      intro d hd
      obtain ⟨t, rfl⟩ : ∃ t, r = d :: t := ⟨_, (List.cons_head?_tail hd).symm⟩
      cases hpair : pair? c d with
      | none => rfl
      | some kind =>
        rw [List.nil_append, punctuation, hpair] at h
        exact absurd (congrArg Prod.snd h) (by simp)
    have hone := punctuation_eq hr
    rw [List.nil_append] at h ⊢
    rw [punctuation_eq, (Prod.mk.inj (hone.symm.trans h)).1]
    intro d hd
    rcases hs d hd with hd | rfl
    · exact hr d hd
    · exact pair?_newline c
  | cons d u =>
    rw [List.cons_append, punctuation] at h ⊢
    cases hpair : pair? c d with
    | none =>
      rw [hpair] at h
      exact absurd (congrArg (·.1.text) h) (by simp)
    | some kind =>
      rw [hpair] at h
      obtain rfl : [] = u := by simpa using congrArg (·.1.text) h
      obtain rfl : kind = k := congrArg (·.1.kind) h
      rfl

theorem slash_eq (hslash : s.head? ≠ some '/')
    (hstar : ∀ t, s = '*' :: t → (Comment.cut t).closed = false) :
    slash s = (⟨.op, ['/']⟩, s) := by
  fun_cases slash s with
  | case1 t => exact absurd rfl hslash
  | case2 t h => exact absurd h (Bool.eq_false_iff.mp (hstar t rfl))
  | case3 t h => rfl
  | case4 => rfl

/-- A slash by itself stays so if neither a slash nor the rest of a comment comes to stand
behind it. -/
theorem slash_single_replace {k : TokenKind} (h : slash r = (⟨k, ['/']⟩, r))
    (hs : Replaces s r ⟨k, ['/']⟩) : slash s = (⟨k, ['/']⟩, s) := by
  have hslash : r.head? ≠ some '/' := by
    intro hr
    obtain ⟨t, rfl⟩ : ∃ t, r = '/' :: t := ⟨_, (List.cons_head?_tail hr).symm⟩
    exact absurd (congrArg (·.1.text) h) (by simp [slash, run])
  have hstar : ∀ t, r = '*' :: t → (Comment.cut t).closed = false := by
    rintro t rfl
    refine Bool.eq_false_iff.mpr fun hclosed => ?_
    rw [slash, if_pos hclosed] at h
    exact absurd (congrArg (·.1.text) h) (by simp [delimited])
  rw [slash_eq, (Prod.mk.inj ((slash_eq hslash hstar).symm.trans h)).1]
  · intro hs'
    rcases hs.head _ hs' with hr | hnewline
    · exact hslash hr
    · exact absurd hnewline (by decide)
  · intro t ht
    refine Bool.eq_false_iff.mpr fun hclosed => ?_
    obtain ⟨t', hr, hclosed'⟩ := hs.comment rfl t ht hclosed
    exact absurd hclosed' (Bool.eq_false_iff.mp (hstar t' hr))

theorem slash_replace {k : TokenKind} (h : slash (u ++ r) = (⟨k, '/' :: u⟩, r))
    (hs : Replaces s r ⟨k, '/' :: u⟩) : slash (u ++ s) = (⟨k, '/' :: u⟩, s) := by
  cases u with
  | nil => exact slash_single_replace h hs
  | cons d u =>
    rw [List.cons_append] at h ⊢
    by_cases hslash : d = '/'
    · subst hslash
      exact run_replace (u := '/' :: u) h (by decide) hs.head
    by_cases hstar : d = '*'
    · subst hstar
      by_cases hclosed : (Comment.cut (u ++ r)).closed = true
      · rw [slash, if_pos hclosed] at h
        have htaken : (Comment.cut (u ++ r)).taken = u := by
          simpa [delimited] using congrArg (·.1.text) h
        have hcut : Comment.cut (u ++ r) = ⟨true, u, r⟩ := by
          rw [Cut.mk.injEq]
          exact ⟨hclosed, htaken, congrArg Prod.snd h⟩
        obtain rfl : TokenKind.blockComment = k := congrArg (·.1.kind) h
        rw [slash, Comment.cut_closed hcut]
        rfl
      · rw [slash, if_neg hclosed] at h
        exact absurd (congrArg (·.1.text) h) (by simp)
    · have hone : slash (d :: (u ++ r)) = (⟨.op, ['/']⟩, d :: (u ++ r)) :=
        slash_eq (fun hd => hslash (Option.some.inj hd)) fun t ht =>
          absurd (List.cons.inj ht).1 hstar
      rw [hone] at h
      exact absurd (congrArg (·.1.text) h) (by simp)

theorem literal_replace {k : TokenKind} (hq : q ≠ '\\')
    (h : literal kind q (u ++ r) = (⟨k, q :: u⟩, r)) (hs : k = .garbage → s <+: r) :
    literal kind q (u ++ s) = (⟨k, q :: u⟩, s) := by
  have htaken : (Literal.cut q (u ++ r)).taken = u := (List.cons.inj (congrArg (·.1.text) h)).2
  have hrest : (Literal.cut q (u ++ r)).rest = r := congrArg Prod.snd h
  have hkind : (if (Literal.cut q (u ++ r)).closed then kind else .garbage) = k :=
    congrArg (·.1.kind) h
  have hcut : Literal.cut q (u ++ r) = ⟨(Literal.cut q (u ++ r)).closed, u, r⟩ := by
    rw [Cut.mk.injEq]
    exact ⟨rfl, htaken, hrest⟩
  cases hclosed : (Literal.cut q (u ++ r)).closed with
  | true =>
    rw [hclosed] at hcut hkind
    rw [literal, Literal.cut_closed hq hcut, ← hkind]
    rfl
  | false =>
    rw [hclosed] at hcut hkind
    rw [literal, Literal.cut_open hcut (hs hkind.symm), ← hkind]
    rfl

theorem carriageReturn_eq (hs : s.head? ≠ some '\n') :
    carriageReturn s = (⟨.garbage, ['\r']⟩, s) := by
  fun_cases carriageReturn s with
  | case1 t => exact absurd rfl hs
  | case2 => rfl

theorem carriageReturn_replace {k : TokenKind}
    (h : carriageReturn (u ++ r) = (⟨k, '\r' :: u⟩, r)) (hs : k = .garbage → s <+: r) :
    carriageReturn (u ++ s) = (⟨k, '\r' :: u⟩, s) := by
  cases u with
  | nil =>
    have hr : r.head? ≠ some '\n' := by
      intro hr
      obtain ⟨t, rfl⟩ : ∃ t, r = '\n' :: t := ⟨_, (List.cons_head?_tail hr).symm⟩
      exact absurd (congrArg (·.1.text) h) (by simp [carriageReturn])
    obtain rfl : TokenKind.garbage = k :=
      congrArg (·.1.kind) ((carriageReturn_eq hr).symm.trans h)
    refine carriageReturn_eq fun hnewline => hr ?_
    obtain ⟨w, rfl⟩ := hs rfl
    rw [List.nil_append] at hnewline
    rw [List.head?_append, hnewline, Option.some_or]
  | cons d u =>
    rw [List.cons_append] at h ⊢
    by_cases hd : d = '\n'
    · subst hd
      obtain rfl : [] = u := by simpa [carriageReturn] using congrArg (·.1.text) h
      obtain rfl : TokenKind.newline = k := congrArg (·.1.kind) h
      rfl
    · have hone : carriageReturn (d :: (u ++ r)) = (⟨.garbage, ['\r']⟩, d :: (u ++ r)) :=
        carriageReturn_eq fun hnewline => hd (Option.some.inj hnewline)
      rw [hone] at h
      exact absurd (congrArg (·.1.text) h) (by simp)

/-- **The longest match stays the same** if another text takes the place of the one behind
it. -/
theorem next_replace {k : TokenKind} (h : next c (u ++ r) = (⟨k, c :: u⟩, r))
    (hs : Replaces s r ⟨k, c :: u⟩) : next c (u ++ s) = (⟨k, c :: u⟩, s) := by
  have hgarbage : k = .garbage → s <+: r := fun hk => hs.unsound fun hsound => hsound.1 hk
  rw [next] at h ⊢
  by_cases hid : startsId c = true
  · rw [if_pos hid] at h ⊢
    exact run_replace h (by decide) hs.head
  rw [if_neg hid] at h ⊢
  by_cases hint : c.isDigit = true
  · rw [if_pos hint] at h ⊢
    exact run_replace h (by decide) hs.head
  rw [if_neg hint] at h ⊢
  by_cases hblank : isBlank c = true
  · rw [if_pos hblank] at h ⊢
    exact run_replace h (by decide) hs.head
  rw [if_neg hblank] at h ⊢
  by_cases hnewline : c = '\n'
  · rw [if_pos hnewline] at h ⊢
    obtain rfl : [] = u := by simpa using congrArg (·.1.text) h
    obtain rfl : TokenKind.newline = k := congrArg (·.1.kind) h
    rfl
  rw [if_neg hnewline] at h ⊢
  by_cases hreturn : c = '\r'
  · rw [if_pos hreturn] at h ⊢
    subst hreturn
    exact carriageReturn_replace h hgarbage
  rw [if_neg hreturn] at h ⊢
  by_cases hbrace : c = '\x7b'
  · rw [if_pos hbrace] at h ⊢
    obtain rfl : [] = u := by simpa using congrArg (·.1.text) h
    obtain rfl : TokenKind.braceOpen = k := congrArg (·.1.kind) h
    rfl
  rw [if_neg hbrace] at h ⊢
  by_cases hchar : c = '\''
  · rw [if_pos hchar] at h ⊢
    exact literal_replace (hchar ▸ by decide) h hgarbage
  rw [if_neg hchar] at h ⊢
  by_cases hstring : c = '"'
  · rw [if_pos hstring] at h ⊢
    exact literal_replace (hstring ▸ by decide) h hgarbage
  rw [if_neg hstring] at h ⊢
  by_cases hslash : c = '/'
  · rw [if_pos hslash] at h ⊢
    subst hslash
    exact slash_replace h hs
  · rw [if_neg hslash] at h ⊢
    exact punctuation_replace h hs.head

theorem piece_eq_next (hc : c ≠ '\x7b') : piece c r = next c r := by
  refine if_neg fun hbrace => hc ?_
  have hmatch := matches_next c r
  rw [Matches, hbrace] at hmatch
  have htext : (next c r).1.text = ['\x7b'] := hmatch.resolve_left (by decide)
  have happend := next_append c r
  rw [htext] at happend
  exact (List.cons.inj happend).1.symm

theorem piece_brace (t : Text) :
    piece '\x7b' t = delimited .block ['\x7b'] (Block.cut 0 none t) := rfl

/-- A block that does not close by itself does not close in the text. -/
theorem block_replace {k : TokenKind} (h : piece '\x7b' (u ++ r) = (⟨k, '\x7b' :: u⟩, r))
    (hs : ¬ Sound ⟨k, '\x7b' :: u⟩ → s <+: r) : piece '\x7b' (u ++ s) = (⟨k, '\x7b' :: u⟩, s) := by
  rw [piece_brace] at h ⊢
  obtain rfl : TokenKind.block = k := congrArg (·.1.kind) h
  have htaken : (Block.cut 0 none (u ++ r)).taken = u :=
    (List.cons.inj (congrArg (·.1.text) h)).2
  have hrest : (Block.cut 0 none (u ++ r)).rest = r := congrArg Prod.snd h
  have hself := Block.cut_taken 0 none (u ++ r)
  rw [htaken] at hself
  cases hclosed : (Block.cut 0 none (u ++ r)).closed with
  | true =>
    have hcut : Block.cut 0 none (u ++ r) = ⟨true, u, r⟩ := by
      rw [Cut.mk.injEq]
      exact ⟨hclosed, htaken, hrest⟩
    rw [Block.cut_closed hcut]
    rfl
  | false =>
    obtain rfl : r = [] := hrest.symm.trans (Block.rest_eq_nil_of_not_closed hclosed)
    have hunsound : ¬ Sound ⟨.block, '\x7b' :: u⟩ := by
      intro hsound
      have hone := hsound.2 rfl
      rw [List.tail_cons, hself] at hone
      exact absurd hone (Bool.eq_false_iff.mp hclosed)
    rw [List.prefix_nil.mp (hs hunsound)]
    exact h

/-- **A piece stays the same** if another text takes the place of the one behind it. -/
theorem piece_replace {k : TokenKind} (h : piece c (u ++ r) = (⟨k, c :: u⟩, r))
    (hs : Replaces s r ⟨k, c :: u⟩) : piece c (u ++ s) = (⟨k, c :: u⟩, s) := by
  by_cases hc : c = '\x7b'
  · subst hc
    exact block_replace h hs.unsound
  · rw [piece_eq_next hc] at h ⊢
    exact next_replace h hs

/-- A shorter part of the text may take its place. -/
theorem replaces_of_front (hs : s <+: r) (l : Lexeme) : Replaces s r l where
  head := by
    intro d hd
    obtain ⟨w, rfl⟩ := hs
    exact .inl (by rw [List.head?_append, Option.mem_def.mp hd, Option.some_or]; rfl)
  comment := by
    rintro - t rfl hclosed
    obtain ⟨w, rfl⟩ := hs
    exact ⟨t ++ w, rfl, Comment.closed_append hclosed w⟩
  unsound := fun _ => hs

/-- A line feed and any text may be put behind, as long as the piece is sound and no comment
is opened. -/
theorem replaces_append_newline (hsound : l.Sound)
    (hcomment : l.text = ['/'] → r.head? ≠ some '*') (w : Text) :
    Replaces (r ++ '\n' :: w) r l where
  head := by
    intro d hd
    cases r with
    | nil => exact .inr (Option.some.inj hd).symm
    | cons e r => exact .inl hd
  comment := by
    intro hslash t ht
    refine absurd ?_ (hcomment hslash)
    cases r with
    | nil => exact absurd (List.cons.inj ht).1 (by decide)
    | cons e r => exact congrArg some (List.cons.inj ht).1
  unsound := fun hunsound => absurd hsound hunsound

end Lexeme
end GrammarAtlas
