import GrammarAtlas.Proofs.Lexeme.Parts
import GrammarAtlas.Proofs.Token.Significant

/-!
# Texts put together

A text that is cut out of a source may be put in front of another text, and no line feed need
stand in between: it keeps its pieces, and those of the other text come behind (`scan_append`).
That takes a text that ends with a token, since trivia might go on, and another text that begins
with a character that no token goes on with (`Ends`), such as a space or a parenthesis.

The single marks and the spaces that stand between such texts are no problem of their own
(`significant_mark`, `significant_space`).
-/

namespace GrammarAtlas
namespace Lexeme

variable {kind k : TokenKind} {p : Char → Bool} {c d q : Char} {r t u v w : Text} {l : Lexeme}

/-! ## The piece at the seam -/

/-- **A character that no token goes on with.** -/
structure Ends (d : Char) : Prop where
  no_word : continuesId d = false
  no_pair : ∀ c, pair? c d = none
  no_slash : d ≠ '/'
  no_star : d ≠ '*'

theorem ends_space : Ends ' ' := ⟨by decide, fun c => by simp [pair?], by decide, by decide⟩

theorem ends_parenClose : Ends ')' := ⟨by decide, fun c => by simp [pair?], by decide, by decide⟩

theorem Ends.no_digit (h : Ends d) : d.isDigit = false := by
  have hword := h.no_word
  simp only [continuesId, Char.isAlphanum, Bool.or_eq_false_iff] at hword
  exact hword.1.2

theorem run_ends (h : run kind p c u = (⟨k, c :: u⟩, [])) (hd : p d = false) :
    run kind p c (u ++ d :: w) = (⟨k, c :: u⟩, d :: w) := by
  have htaken : u.takeWhile p = u := (List.cons.inj (congrArg (·.1.text) h)).2
  obtain rfl : kind = k := congrArg (·.1.kind) h
  refine run_eq (fun e he => ?_) fun e he => Option.some.inj he ▸ hd
  rw [← htaken] at he
  exact List.mem_takeWhile_imp he

theorem slash_ends (h : slash u = (⟨k, '/' :: u⟩, [])) (htrivia : k.isTrivia = false)
    (hd : Ends d) : slash (u ++ d :: w) = (⟨k, '/' :: u⟩, d :: w) := by
  fun_cases slash u with
  | case1 t =>
    obtain rfl : TokenKind.lineComment = k := congrArg (·.1.kind) h
    exact absurd htrivia (by decide)
  | case2 t hclosed =>
    rw [slash, if_pos hclosed] at h
    obtain rfl : TokenKind.blockComment = k := congrArg (·.1.kind) h
    exact absurd htrivia (by decide)
  | case3 t hopen =>
    rw [slash, if_neg hopen] at h
    exact absurd (congrArg Prod.snd h) (List.cons_ne_nil _ _)
  | case4 u hslash hstar =>
    have hone : slash u = (⟨.op, ['/']⟩, u) := by
      refine slash_eq (fun hu => ?_) fun t ht => absurd ht (hstar t)
      exact hslash u.tail (List.cons_head?_tail hu).symm
    obtain rfl : u = [] := congrArg Prod.snd (hone.symm.trans h)
    obtain rfl : TokenKind.op = k := congrArg (·.1.kind) (hone.symm.trans h)
    refine slash_eq (fun hslash => hd.no_slash (Option.some.inj hslash)) fun t ht => ?_
    exact absurd (List.cons.inj ht).1 hd.no_star

theorem punctuation_ends (h : punctuation c u = (⟨k, c :: u⟩, [])) (hd : Ends d) :
    punctuation c (u ++ d :: w) = (⟨k, c :: u⟩, d :: w) := by
  fun_cases punctuation c u with
  | case1 =>
    obtain rfl : (single? c).getD .garbage = k := congrArg (·.1.kind) h
    exact punctuation_eq fun e he => Option.some.inj he ▸ hd.no_pair c
  | case2 e u kind hpair =>
    rw [punctuation, hpair] at h
    obtain rfl : kind = k := congrArg (·.1.kind) h
    obtain rfl : u = [] := congrArg Prod.snd h
    rw [List.cons_append, punctuation, hpair]
    rfl
  | case3 e u hpair =>
    rw [punctuation, hpair] at h
    exact absurd (congrArg Prod.snd h) (List.cons_ne_nil _ _)

/-- **A token at the end of a text** stays the longest match in front of a character that it does
not go on with. -/
theorem next_ends (h : next c u = (⟨k, c :: u⟩, [])) (hk : k ≠ .garbage)
    (htrivia : k.isTrivia = false) (hd : Ends d) (w : Text) :
    next c (u ++ d :: w) = (⟨k, c :: u⟩, d :: w) := by
  rw [next] at h ⊢
  by_cases hid : startsId c = true
  · rw [if_pos hid] at h ⊢
    exact run_ends h hd.no_word
  rw [if_neg hid] at h ⊢
  by_cases hint : c.isDigit = true
  · rw [if_pos hint] at h ⊢
    exact run_ends h hd.no_digit
  rw [if_neg hint] at h ⊢
  by_cases hblank : isBlank c = true
  · rw [if_pos hblank] at h
    obtain rfl : TokenKind.whitespace = k := congrArg (·.1.kind) h
    exact absurd htrivia (by decide)
  rw [if_neg hblank] at h ⊢
  by_cases hnewline : c = '\n'
  · rw [if_pos hnewline] at h
    obtain rfl : TokenKind.newline = k := congrArg (·.1.kind) h
    exact absurd htrivia (by decide)
  rw [if_neg hnewline] at h ⊢
  by_cases hreturn : c = '\r'
  · rw [if_pos hreturn] at h
    fun_cases carriageReturn u with
    | case1 t =>
      obtain rfl : TokenKind.newline = k := congrArg (·.1.kind) h
      exact absurd htrivia (by decide)
    | case2 u hother =>
      rw [carriageReturn_eq fun hu => hother u.tail (List.cons_head?_tail hu).symm] at h
      exact absurd (congrArg (·.1.kind) h).symm hk
  rw [if_neg hreturn] at h ⊢
  by_cases hbrace : c = '\x7b'
  · rw [if_pos hbrace] at h ⊢
    obtain rfl : TokenKind.braceOpen = k := congrArg (·.1.kind) h
    obtain rfl : u = [] := congrArg Prod.snd h
    rfl
  rw [if_neg hbrace] at h ⊢
  have hgarbage : k = .garbage → d :: w <+: [] := fun hg => absurd hg hk
  by_cases hchar : c = '\''
  · rw [if_pos hchar] at h ⊢
    exact literal_replace (hchar ▸ by decide) (by rwa [List.append_nil]) hgarbage
  rw [if_neg hchar] at h ⊢
  by_cases hstring : c = '"'
  · rw [if_pos hstring] at h ⊢
    exact literal_replace (hstring ▸ by decide) (by rwa [List.append_nil]) hgarbage
  rw [if_neg hstring] at h ⊢
  by_cases hslash : c = '/'
  · rw [if_pos hslash] at h ⊢
    subst hslash
    exact slash_ends h htrivia hd
  · rw [if_neg hslash] at h ⊢
    exact punctuation_ends h hd

theorem piece_ends (h : piece c u = (⟨k, c :: u⟩, [])) (hsound : Sound ⟨k, c :: u⟩)
    (htrivia : k.isTrivia = false) (hd : Ends d) (w : Text) :
    piece c (u ++ d :: w) = (⟨k, c :: u⟩, d :: w) := by
  by_cases hc : c = '\x7b'
  · subst hc
    exact block_replace (by rwa [List.append_nil]) fun hunsound => absurd hsound hunsound
  · rw [piece_eq_next hc] at h ⊢
    exact next_ends h hsound.1 htrivia hd w

/-- Any text may be put behind what stands behind a sound piece, if that is something. -/
theorem replaces_append (hsound : l.Sound) (hcomment : l.text = ['/'] → r.head? ≠ some '*')
    (hr : r ≠ []) (w : Text) : Replaces (r ++ w) r l where
  head := by
    intro d hd
    rw [List.head?_append_of_ne_nil r hr] at hd
    exact .inl hd
  comment := by
    intro hslash t ht
    refine absurd ?_ (hcomment hslash)
    rw [← List.head?_append_of_ne_nil r hr, ht]
    rfl
  unsound := fun hunsound => absurd hsound hunsound

/-! ## Whole texts -/

/-- **A text that can be put in front of others**: nothing is wrong with it, no comment is opened
in it, and it does not end with trivia. -/
structure Spliceable (t : Text) : Prop where
  sound : ∀ l ∈ scan t, Sound l
  no_comment : (scan t).IsChain fun l m => ¬ (l.text = ['/'] ∧ m.text = ['*'])
  last : ∀ l ∈ (scan t).getLast?, l.kind.isTrivia = false

theorem Spliceable.behind (h : Spliceable t) (hscan : scan t = l :: scan r) : Spliceable r where
  sound := fun m hm => h.sound m (hscan ▸ List.mem_cons_of_mem l hm)
  no_comment := by
    have hchain := h.no_comment
    rw [hscan] at hchain
    exact hchain.tail
  last := by
    intro m hm
    refine h.last m ?_
    rw [hscan, List.getLast?_cons_of_ne_nil fun hnil => by simp [hnil] at hm]
    exact hm

/-- The first piece of such a text stays in front of another text. -/
theorem Spliceable.piece_append (h : Spliceable (c :: (u ++ r)))
    (hpiece : piece c (u ++ r) = (⟨k, c :: u⟩, r)) (hk : k ≠ .garbage)
    (hv : ∀ d ∈ v.head?, Ends d) : piece c (u ++ (r ++ v)) = (⟨k, c :: u⟩, r ++ v) := by
  have hscan := scan_cons_of_piece hpiece hk
  have hsound : Sound ⟨k, c :: u⟩ := h.sound _ (hscan ▸ List.mem_cons_self)
  cases r with
  | cons e r =>
    refine piece_replace hpiece (replaces_append hsound (fun hslash hhead => ?_)
      (List.cons_ne_nil e r) v)
    obtain rfl : e = '*' := Option.some.inj hhead
    have hchain := h.no_comment
    rw [hscan, scan_star] at hchain
    exact (List.isChain_cons_cons.mp hchain).1 ⟨hslash, rfl⟩
  | nil =>
    rw [List.append_nil] at hpiece
    cases v with
    | nil =>
      rw [List.append_nil, List.append_nil]
      exact hpiece
    | cons d w =>
      refine piece_ends hpiece hsound (h.last ⟨k, c :: u⟩ ?_) (hv d rfl) w
      rw [hscan, scan]
      rfl

/-- **A text keeps its pieces** in front of a character that no token goes on with. -/
theorem Spliceable.scan_append (h : Spliceable t) (hv : ∀ d ∈ v.head?, Ends d) :
    scan (t ++ v) = scan t ++ scan v := by
  fun_induction scan t with
  | case1 => rfl
  | case2 c t ih =>
    rw [← scan_cons]
    obtain ⟨k, u, r, hpiece, rfl⟩ := exists_piece c t
    rw [hpiece] at ih
    have hk : k ≠ .garbage := by
      intro hk
      obtain ⟨l, ls, hscan, hl⟩ := exists_scan_cons_garbage (by rw [hpiece]; exact hk)
      exact (h.sound l (hscan ▸ List.mem_cons_self)).1 hl
    have hscan := scan_cons_of_piece hpiece hk
    rw [List.cons_append, List.append_assoc, scan_cons_of_piece (h.piece_append hpiece hk hv) hk,
      hscan, ih (h.behind hscan)]
    rfl

theorem Spliceable.significant_append (h : Spliceable t) (hv : ∀ d ∈ v.head?, Ends d) :
    significant (t ++ v) = significant t ++ significant v := by
  rw [significant, h.scan_append hv, List.filter_append]
  rfl

/-! ## Marks and spaces -/

theorem significant_nil : significant [] = [] := by rw [significant, scan, List.filter_nil]

/-- A mark that pairs with nothing behind it is a piece. -/
theorem scan_mark (hc : c ∈ punctuationMarks) (hkind : single? c = some kind)
    (hpair : ∀ d ∈ t.head?, pair? c d = none) (hk : kind ≠ .garbage) :
    scan (c :: t) = ⟨kind, [c]⟩ :: scan t := by
  have hbrace : c ≠ '\x7b' := by
    rintro rfl
    exact absurd hc (by decide)
  have hpiece : piece c ([] ++ t) = (⟨kind, [c]⟩, t) := by
    rw [List.nil_append, piece_eq_next hbrace, next_eq_punctuation hc, punctuation_eq hpair, hkind]
    rfl
  exact scan_cons_of_piece hpiece hk

theorem significant_mark (hc : c ∈ punctuationMarks) (hkind : single? c = some kind)
    (hpair : ∀ d ∈ t.head?, pair? c d = none) (hk : kind ≠ .garbage ∧ kind.isTrivia = false) :
    significant (c :: t) = ⟨kind, [c]⟩ :: significant t := by
  rw [significant, scan_mark hc hkind hpair hk.1, List.filter_cons_of_pos (by simp [hk.2])]
  rfl

theorem significant_blank (hc : isBlank c = true) (t : Text) :
    significant (c :: t) = significant (t.dropWhile isBlank) := by
  have hpiece : piece c t = run .whitespace isBlank c t := by
    obtain rfl | rfl : c = ' ' ∨ c = '\t' := by simpa [isBlank] using hc
    · rfl
    · rfl
  have hscan : scan (c :: t) =
      ⟨.whitespace, c :: t.takeWhile isBlank⟩ :: scan (t.dropWhile isBlank) := by
    have hk : TokenKind.whitespace ≠ .garbage := by decide
    rw [scan_cons, hpiece]
    exact glue_of_ne_garbage hk _
  rw [significant, hscan, List.filter_cons_of_neg (by simp [TokenKind.isTrivia])]
  rfl

/-- A space in front adds no token. -/
theorem significant_space (t : Text) : significant (' ' :: t) = significant t := by
  rw [significant_blank (by decide)]
  cases t with
  | nil => rfl
  | cons d t =>
    by_cases hd : isBlank d = true
    · rw [List.dropWhile_cons_of_pos hd, significant_blank hd]
    · rw [List.dropWhile_cons_of_neg hd]

end Lexeme
end GrammarAtlas
