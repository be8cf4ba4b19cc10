import Mathlib.Data.List.Chain
import Mathlib.Data.List.TakeWhile
import Mathlib.Tactic.IntervalCases
import GrammarAtlas.Lexeme.Next
import GrammarAtlas.Proofs.Regular

/-!
# Patterns of tokens, and the longest match

Each kind of lexeme is declared by a regular expression, `TokenKind.pattern`.
`Lexeme.next` has no regular expressions; it looks at the first character and
goes on from there.  Both are the same: what it takes matches the pattern of its
kind, and no longer piece of the text matches any pattern
(`Lexeme.longestMatch_next`).

Literals and comments are where the two differ most, since the patterns say what
stands between the delimiters and the cuts say where the closing delimiter is.
-/

namespace GrammarAtlas

open scoped Computability

/-- The texts that match a pattern. -/
abbrev Pattern := Language Char

namespace Pattern

/-- What may stand between two quote marks, piece by piece. -/
def quoted (q : Char) : Pattern :=
  one (fun c => c ≠ q && c ≠ '\\') + {['\\']} * one (· ≠ '\n')

/-- A literal between quote marks. -/
def literal (q : Char) : Pattern := {[q]} * ((quoted q)∗ * {[q]})

/-- A run of stars. -/
def stars : Pattern := one (· = '*') * (one (· = '*'))∗

/-- Anything but stars, and then stars. -/
def untilStars : Pattern := (one (· ≠ '*'))∗ * stars

/-- What stands between the opening of a comment and its last slash. -/
def commentBody : Pattern :=
  untilStars * (one (fun c => c ≠ '/' && c ≠ '*') * untilStars)∗

end Pattern

open Pattern in
/-- **The declared pattern of a kind.**  Blocks and garbage have none. -/
def TokenKind.pattern : TokenKind → Pattern
  | .parenOpen => {['(']}
  | .parenClose => {[')']}
  | .braceOpen => {['\x7b']}
  | .doubleColon => {[':', ':']}
  | .colon => {[':']}
  | .semi => {[';']}
  | .pipe => {['|']}
  | .atSign => {['@']}
  | .arrow => {['-', '>']}
  | .op => {['.', '.']} + {['=', '>']} + {['+', '=']} + {['\x7d']} +
      one (· ∈ "*+?~.=!^<>,$&#%/[]-".toList)
  | .char => literal '\''
  | .string => literal '"'
  | .id => one Lexeme.startsId * (one Lexeme.continuesId)∗
  | .int => one Char.isDigit * (one Char.isDigit)∗
  | .whitespace => one Lexeme.isBlank * (one Lexeme.isBlank)∗
  | .newline => {['\n']} + {['\r', '\n']}
  | .lineComment => {['/', '/']} * (one (· ≠ '\n'))∗
  | .blockComment => {['/', '*']} * (commentBody * {['/']})
  | .block => 0
  | .garbage => 0

/-! ## Literals -/

namespace Literal

variable {q c d : Char} {s t body : Text}

theorem cut_quote (hq : q ≠ '\\') : cut q (q :: s) = ⟨true, [q], s⟩ := by
  cases s with
  | nil => simp [cut, hq]
  | cons d s => simp [cut, hq]

theorem cut_cons (hc : c ≠ '\\') (hcq : c ≠ q) : cut q (c :: t) = (cut q t).cons c := by
  cases t with
  | nil => simp [cut, Cut.cons, hcq]
  | cons d t => simp [cut, hc, hcq]

theorem cut_escape (hd : d ≠ '\n') : cut q ('\\' :: d :: t) = ((cut q t).cons d).cons '\\' := by
  simp [cut, hd]

/-- A literal is cut behind its closing quote mark. -/
theorem cut_append (hq : q ≠ '\\') (hbody : body ∈ (Pattern.quoted q)∗) :
    cut q (body ++ q :: s) = ⟨true, body ++ [q], s⟩ := by
  refine kstar_induction (P := fun b => cut q (b ++ q :: s) = ⟨true, b ++ [q], s⟩) ?_ ?_ hbody
  · exact cut_quote hq
  · rintro _ (⟨c, hc, rfl⟩ | ⟨_, rfl, _, ⟨d, hd, rfl⟩, rfl⟩) w - ih
    · obtain ⟨hcq, hc⟩ : c ≠ q ∧ c ≠ '\\' := by simpa using hc
      show cut q (c :: (w ++ q :: s)) = _
      rw [cut_cons hc hcq, ih]
      rfl
    · show cut q ('\\' :: d :: (w ++ q :: s)) = _
      rw [cut_escape (by simpa using hd), ih]
      rfl

/-- What is cut as closed is a literal. -/
theorem exists_of_closed (h : (cut q t).closed = true) :
    ∃ body ∈ (Pattern.quoted q)∗, (cut q t).taken = body ++ [q] := by
  fun_induction cut q t with
  | case1 => cases h
  | case2 c =>
    obtain ⟨rfl, -⟩ : c = q ∧ c ≠ '\\' := by simpa using h
    exact ⟨[], Language.nil_mem_kstar _, rfl⟩
  | case3 t => cases h
  | case4 d t hd ih =>
    obtain ⟨body, hbody, htaken⟩ := ih h
    have hpair : ['\\', d] ∈ Pattern.quoted q :=
      Or.inr ⟨['\\'], rfl, [d], ⟨d, by simpa using hd, rfl⟩, rfl⟩
    refine ⟨['\\', d] ++ body, append_mem_kstar hpair hbody, ?_⟩
    rw [Cut.taken_cons, Cut.taken_cons, htaken]
    rfl
  | case5 d t hq => exact ⟨[], Language.nil_mem_kstar _, rfl⟩
  | case6 c d t hc hcq ih =>
    obtain ⟨body, hbody, htaken⟩ := ih h
    have hone : [c] ∈ Pattern.quoted q := Or.inl ⟨c, by simp [hc, hcq], rfl⟩
    refine ⟨[c] ++ body, append_mem_kstar hone hbody, ?_⟩
    rw [Cut.taken_cons, htaken]
    rfl

/-- What is not cut as closed runs to the end of the text or of a line. -/
theorem head_rest_of_not_closed (h : (cut q t).closed = false) :
    ∀ d ∈ (cut q t).rest.head?, d = '\n' := by
  fun_induction cut q t <;> simp_all

end Literal

/-! ## Comments -/

namespace Comment

open Pattern

variable {c d : Char} {s t u w : Text}

/-- No comment closes between the two characters. -/
def Open (c d : Char) : Prop := ¬ (c = '*' ∧ d = '/')

theorem mem_stars : w ∈ stars ↔ w ≠ [] ∧ ∀ c ∈ w, c = '*' := by
  rw [stars, mem_run]
  constructor
  · rintro ⟨c, v, rfl, hc, hv⟩
    refine ⟨List.cons_ne_nil c v, fun d hd => ?_⟩
    rcases List.mem_cons.mp hd with rfl | hd
    · exact of_decide_eq_true hc
    · exact of_decide_eq_true (hv d hd)
  · rintro ⟨hne, hw⟩
    cases w with
    | nil => exact absurd rfl hne
    | cons c v =>
      refine ⟨c, v, rfl, decide_eq_true (hw c (List.mem_cons_self ..)), fun d hd => ?_⟩
      exact decide_eq_true (hw d (List.mem_cons_of_mem _ hd))

theorem mem_untilStars : w ∈ untilStars ↔
    ∃ u v, w = u ++ v ∧ (∀ c ∈ u, c ≠ '*') ∧ v ≠ [] ∧ ∀ c ∈ v, c = '*' := by
  constructor
  · rintro ⟨u, hu, v, hv, rfl⟩
    obtain ⟨hne, hv⟩ := mem_stars.mp hv
    exact ⟨u, v, rfl, fun c hc => of_decide_eq_true (mem_kstar_one.mp hu c hc), hne, hv⟩
  · rintro ⟨u, v, rfl, hu, hne, hv⟩
    refine Language.append_mem_mul (mem_kstar_one.mpr fun c hc => ?_) (mem_stars.mpr ⟨hne, hv⟩)
    exact decide_eq_true (hu c hc)

/-- What ends in a star and is open throughout.  This is what may stand in front
of a comment's last slash. -/
structure Body (w : Text) : Prop where
  last : w.getLast? = some '*'
  chain : w.IsChain Open

theorem Body.ne_nil (h : Body w) : w ≠ [] := by
  rintro rfl
  cases h.last

/-- Two bodies, the second not beginning with a slash, make one. -/
theorem Body.append (hu : Body u) (hw : Body w) (hhead : w.head? ≠ some '/') : Body (u ++ w) := by
  refine ⟨?_, List.isChain_append.mpr ⟨hu.chain, hw.chain, fun c _ d hd hcd => ?_⟩⟩
  · rw [List.getLast?_append_of_ne_nil u hw.ne_nil]
    exact hw.last
  · exact hhead (hcd.2 ▸ Option.mem_def.mp hd)

theorem Body.cons (hw : Body w) (hc : ∀ d ∈ w.head?, Open c d) : Body (c :: w) := by
  refine ⟨?_, List.isChain_cons.mpr ⟨hc, hw.chain⟩⟩
  rw [List.getLast?_cons_of_ne_nil hw.ne_nil]
  exact hw.last

theorem body_of_mem_untilStars (hw : w ∈ untilStars) : Body w := by
  obtain ⟨u, v, rfl, hu, hne, hv⟩ := mem_untilStars.mp hw
  have hlast : v.getLast hne = '*' := hv _ (List.getLast_mem hne)
  have hfront : u.Pairwise Open := List.pairwise_of_forall_mem_list fun c hc _ _ h => hu c hc h.1
  have hback : v.Pairwise Open := List.pairwise_of_forall_mem_list fun _ _ d hd h =>
    absurd (h.2.symm.trans (hv d hd)) (by decide)
  refine ⟨?_, List.isChain_append.mpr ⟨hfront.isChain, hback.isChain, fun c hc d _ h => ?_⟩⟩
  · rw [List.getLast?_append_of_ne_nil u hne, List.getLast?_eq_getLast_of_ne_nil hne, hlast]
  · exact hu c (List.mem_of_getLast? hc) h.1

theorem body_of_mem_commentBody (hw : w ∈ commentBody) : Body w := by
  obtain ⟨a, ha, b, hb, rfl⟩ := hw
  have ha := body_of_mem_untilStars ha
  refine kstar_induction (P := fun b => ∀ a, Body a → Body (a ++ b)) ?_ ?_ hb a ha
  · intro a ha
    rwa [List.append_nil]
  · rintro _ ⟨_, ⟨d, hd, rfl⟩, z, hz, rfl⟩ b - ih a ha
    obtain ⟨hslash, hstar⟩ : d ≠ '/' ∧ d ≠ '*' := by simpa using hd
    have hround : Body (d :: z) :=
      (body_of_mem_untilStars hz).cons fun _ _ hclose => hstar hclose.1
    rw [← List.append_assoc]
    exact ih _ (ha.append hround fun hhead => hslash (Option.some.inj hhead))

theorem star_mem_untilStars : ['*'] ∈ untilStars := mem_untilStars.mpr ⟨[], ['*'], rfl, by simp⟩

theorem cons_mem_untilStars (hc : c ≠ '*') (hw : w ∈ untilStars) : c :: w ∈ untilStars := by
  obtain ⟨x, y, rfl, hx, hne, hy⟩ := mem_untilStars.mp hw
  refine mem_untilStars.mpr ⟨c :: x, y, rfl, ?_, hne, hy⟩
  intro e he
  rcases List.mem_cons.mp he with rfl | he
  · exact hc
  · exact hx e he

/-- A character in front goes to the first run up to stars; a star in front of
something else makes a run of its own. -/
theorem cons_mem_commentBody (hw : w ∈ commentBody) (hopen : ∀ d ∈ w.head?, Open c d) :
    c :: w ∈ commentBody := by
  obtain ⟨a, ha, b, hb, rfl⟩ := hw
  by_cases hc : c = '*'
  · subst hc
    obtain ⟨x, y, rfl, hx, hne, hy⟩ := mem_untilStars.mp ha
    cases x with
    | nil =>
      have hrun : '*' :: y ∈ untilStars :=
        mem_untilStars.mpr ⟨[], '*' :: y, rfl, by simp, List.cons_ne_nil _ _, by simpa using hy⟩
      exact ⟨'*' :: y, hrun, b, hb, rfl⟩
    | cons d x =>
      -- the run of stars ends here, and a new round begins
      have hdslash : d ≠ '/' := fun h => hopen d rfl ⟨rfl, h⟩
      have hdstar : d ≠ '*' := hx d (List.mem_cons_self ..)
      have hrest : x ++ y ∈ untilStars :=
        mem_untilStars.mpr ⟨x, y, rfl, fun e he => hx e (List.mem_cons_of_mem _ he), hne, hy⟩
      have hround : [d] ++ (x ++ y) ∈ one (fun c => c ≠ '/' && c ≠ '*') * untilStars :=
        Language.append_mem_mul ⟨d, by simp [hdslash, hdstar], rfl⟩ hrest
      exact ⟨['*'], star_mem_untilStars, _, append_mem_kstar hround hb, rfl⟩
  · exact ⟨c :: a, cons_mem_untilStars hc ha, b, hb, rfl⟩

/-- **The pattern of what stands in a comment says no more than that it ends in a
star and does not close before.** -/
theorem mem_commentBody : w ∈ commentBody ↔ Body w := by
  refine ⟨body_of_mem_commentBody, ?_⟩
  intro hw
  induction w with
  | nil => exact absurd rfl hw.ne_nil
  | cons c v ih =>
    cases v with
    | nil =>
      obtain rfl : c = '*' := Option.some.inj hw.last
      exact ⟨['*'], star_mem_untilStars, [], Language.nil_mem_kstar _, rfl⟩
    | cons e v =>
      obtain ⟨hopen, hchain⟩ := List.isChain_cons_cons.mp hw.chain
      refine cons_mem_commentBody (ih ⟨hw.last, hchain⟩) ?_
      rintro _ ⟨⟩
      exact hopen

/-- A comment is cut behind its last slash. -/
theorem cut_append (hw : Body w) : cut (w ++ '/' :: s) = ⟨true, w ++ ['/'], s⟩ := by
  induction w with
  | nil => exact absurd rfl hw.ne_nil
  | cons c v ih =>
    cases v with
    | nil =>
      obtain rfl : c = '*' := Option.some.inj hw.last
      simp [cut]
    | cons d v =>
      obtain ⟨hopen, hchain⟩ := List.isChain_cons_cons.mp hw.chain
      have ih := ih ⟨hw.last, hchain⟩
      rw [List.cons_append] at ih
      rw [List.cons_append, List.cons_append, cut, if_neg hopen, ih]
      rfl

/-- What is cut as closed is a comment. -/
theorem exists_of_closed (h : (cut t).closed = true) :
    ∃ w, Body w ∧ (cut t).taken = w ++ ['/'] := by
  fun_induction cut t with
  | case1 => cases h
  | case2 => cases h
  | case3 c d t hclose =>
    obtain ⟨rfl, rfl⟩ := hclose
    exact ⟨['*'], ⟨rfl, .singleton _⟩, rfl⟩
  | case4 c d t hopen ih =>
    obtain ⟨w, hw, htaken⟩ := ih h
    refine ⟨c :: w, hw.cons fun e he => ?_, by rw [Cut.taken_cons, htaken]; rfl⟩
    have hhead := congrArg List.head? (taken_append_rest (d :: t))
    rw [htaken, List.append_assoc, List.head?_append_of_ne_nil _ hw.ne_nil,
      Option.mem_def.mp he] at hhead
    exact Option.some.inj hhead ▸ hopen

end Comment

/-! ## The longest match -/

namespace Lexeme

variable {kind : TokenKind} {q : Char → Bool} {c d : Char} {t p s v : Text}

/-- Nothing matched, or the text matches the pattern of the kind. -/
def Matches (l : Lexeme) : Prop := l.kind = .garbage ∨ l.text ∈ l.kind.pattern

theorem single_mem_pattern (h : single? c = some kind) : [c] ∈ kind.pattern := by
  unfold single? at h
  split_ifs at h with h1 h2 h3 h4 h5 h6 h7 <;> cases h
  all_goals try (subst c; rfl)
  rcases List.mem_append.mp (show c ∈ "*+?~.=!^<>,$&#%/[]-".toList ++ ['\x7d'] from h7) with h | h
  · exact Or.inr ⟨c, decide_eq_true h, rfl⟩
  · obtain rfl := List.mem_singleton.mp h
    exact Or.inl (Or.inr rfl)

theorem pair_mem_pattern (h : pair? c d = some kind) : [c, d] ∈ kind.pattern := by
  unfold pair? at h
  split_ifs at h with h1 h2 h3 <;> cases h
  · obtain ⟨rfl, rfl⟩ := h1
    rfl
  · obtain ⟨rfl, rfl⟩ := h2
    rfl
  · rcases h3 with ⟨rfl, rfl⟩ | ⟨rfl, rfl⟩ | ⟨rfl, rfl⟩
    · exact Or.inl (Or.inl (Or.inl (Or.inl rfl)))
    · exact Or.inl (Or.inl (Or.inl (Or.inr rfl)))
    · exact Or.inl (Or.inl (Or.inr rfl))

theorem matches_single (c : Char) : Matches ⟨(single? c).getD .garbage, [c]⟩ := by
  cases h : single? c with
  | none => exact Or.inl rfl
  | some kind => exact Or.inr (single_mem_pattern h)

theorem matches_punctuation (c : Char) (t : Text) : Matches (punctuation c t).1 := by
  cases t with
  | nil => exact matches_single c
  | cons d t =>
    rw [punctuation]
    cases h : pair? c d with
    | none => exact matches_single c
    | some kind => exact Or.inr (pair_mem_pattern h)

theorem mem_takeWhile_run (hc : q c = true) (t : Text) :
    c :: t.takeWhile q ∈ one q * (one q)∗ :=
  mem_run.mpr ⟨c, t.takeWhile q, rfl, hc, fun _ hd => List.mem_takeWhile_imp hd⟩

theorem matches_literal (q : Char) (t : Text) (hkind : kind.pattern = Pattern.literal q) :
    Matches (literal kind q t).1 := by
  by_cases h : (Literal.cut q t).closed = true
  · obtain ⟨body, hbody, htaken⟩ := Literal.exists_of_closed h
    have hlexeme : (literal kind q t).1 = ⟨kind, q :: (body ++ [q])⟩ := by
      simp [literal, delimited, h, htaken]
    rw [hlexeme, Matches, hkind]
    exact Or.inr ⟨[q], rfl, body ++ [q], Language.append_mem_mul hbody rfl, rfl⟩
  · have hgarbage : (literal kind q t).1.kind = .garbage := by
      simp [literal, delimited, h]
    exact Or.inl hgarbage

theorem matches_slash (t : Text) : Matches (slash t).1 := by
  have hop : Matches ⟨.op, ['/']⟩ := Or.inr (Or.inr ⟨'/', by decide, rfl⟩)
  fun_cases slash t with
  | case1 t =>
    refine Or.inr (mem_singleton_mul.mpr ⟨t.takeWhile (· ≠ '\n'), ?_, mem_kstar_one.mpr ?_⟩)
    · simp [run]
    · exact fun c hc => List.mem_takeWhile_imp (p := (· ≠ '\n')) hc
  | case2 t h =>
    obtain ⟨w, hw, htaken⟩ := Comment.exists_of_closed h
    refine Or.inr (mem_singleton_mul.mpr ⟨w ++ ['/'], ?_, ?_⟩)
    · rw [← htaken]
      rfl
    · exact Language.append_mem_mul (Comment.mem_commentBody.mpr hw) rfl
  | case3 t h => exact hop
  | case4 t h1 h2 => exact hop

/-- **What `next` takes matches the pattern of its kind.** -/
theorem matches_next (c : Char) (t : Text) : Matches (next c t).1 := by
  fun_cases next c t with
  | case1 hc => exact Or.inr (mem_run.mpr ⟨c, _, rfl, hc, fun _ hd => List.mem_takeWhile_imp hd⟩)
  | case2 _ hc => exact Or.inr (mem_takeWhile_run hc t)
  | case3 _ _ hc => exact Or.inr (mem_takeWhile_run hc t)
  | case4 _ _ _ hc => exact Or.inr (hc ▸ Or.inl rfl)
  | case5 =>
    fun_cases carriageReturn t with
    | case1 t => exact Or.inr (Or.inr rfl)
    | case2 => exact Or.inl rfl
  | case6 _ _ _ _ _ hc => exact Or.inr (hc ▸ rfl)
  | case7 _ _ _ _ _ _ hc => exact matches_literal c t (hc ▸ rfl)
  | case8 _ _ _ _ _ _ _ hc => exact matches_literal c t (hc ▸ rfl)
  | case9 => exact matches_slash t
  | case10 => exact matches_punctuation c t

/-- The lexeme is the piece, or is longer than the piece. -/
def Covers (l : Lexeme) (kind : TokenKind) (p : Text) : Prop :=
  l = ⟨kind, p⟩ ∨ (l.kind ≠ .garbage ∧ p.length < l.text.length)

/-- A run takes all that matches. -/
theorem covers_run (hkind : kind ≠ .garbage) (hv : ∀ d ∈ v, q d = true) :
    Covers (run kind q c (v ++ s)).1 kind (c :: v) := by
  have htext : (run kind q c (v ++ s)).1 = ⟨kind, c :: (v ++ s.takeWhile q)⟩ := by
    rw [run, List.takeWhile_append_of_pos hv]
  rw [htext]
  cases hs : s.takeWhile q with
  | nil => exact Or.inl (by rw [List.append_nil])
  | cons d r =>
    refine Or.inr ⟨hkind, ?_⟩
    simp only [List.length_cons, List.length_append]
    omega

/-- The characters that punctuation starts with, the slash apart. -/
def punctuationMarks : Text := "():;|@*+?~.=!^<>,$&#%[]-\x7d".toList

theorem next_eq_punctuation (hc : c ∈ punctuationMarks) (t : Text) :
    next c t = punctuation c t := by
  have hother : punctuationMarks.all fun c => !startsId c && !c.isDigit && !isBlank c &&
      c != '\n' && c != '\r' && c != '\x7b' && c != '\'' && c != '"' && c != '/' := rfl
  have hc := List.all_eq_true.mp hother c hc
  simp only [Bool.and_eq_true, Bool.not_eq_true', bne_iff_ne] at hc
  simp [next, hc]

/-- One mark is taken, or the pair that it starts. -/
theorem covers_single (hc : c ∈ punctuationMarks) (hkind : single? c = some kind) (t : Text) :
    Covers (next c t).1 kind [c] := by
  rw [next_eq_punctuation hc]
  cases t with
  | nil => exact Or.inl (by simp [punctuation, hkind])
  | cons d t =>
    cases hpair : pair? c d with
    | none => exact Or.inl (by simp [punctuation, hpair, hkind])
    | some k =>
      have hk : k ≠ .garbage := by
        rintro rfl
        exact Language.notMem_zero _ (pair_mem_pattern hpair)
      have htwo : (punctuation c (d :: t)).1 = ⟨k, [c, d]⟩ := by simp [punctuation, hpair]
      rw [htwo]
      exact Or.inr ⟨hk, Nat.lt_succ_self 1⟩

theorem covers_pair (hc : c ∈ punctuationMarks) (hkind : pair? c d = some kind) (t : Text) :
    Covers (next c (d :: t)).1 kind [c, d] := by
  rw [next_eq_punctuation hc]
  exact Or.inl (by simp [punctuation, hkind])

theorem covers_op (hp : p ∈ TokenKind.op.pattern) (h : p ++ s = c :: t) :
    Covers (next c t).1 .op p := by
  rcases hp with (((rfl | rfl) | rfl) | rfl) | ⟨e, he, rfl⟩ <;>
    obtain ⟨rfl, rfl⟩ := List.cons_eq_cons.mp h
  · exact covers_pair (by decide) rfl s
  · exact covers_pair (by decide) rfl s
  · exact covers_pair (by decide) rfl s
  · exact covers_single (by decide) rfl s
  · have hmarks : "*+?~.=!^<>,$&#%/[]-".toList.all fun c =>
        c == '/' || punctuationMarks.contains c && single? c == some .op := rfl
    have he := List.all_eq_true.mp hmarks e (of_decide_eq_true he)
    simp only [Bool.or_eq_true, Bool.and_eq_true, beq_iff_eq, List.contains_iff_mem] at he
    rcases he with rfl | ⟨hmem, hsingle⟩
    · show Covers (slash s).1 .op ['/']
      fun_cases slash s with
      | case1 t => exact Or.inr ⟨by simp [run], by simp [run]⟩
      | case2 t hclosed => exact Or.inr ⟨by simp [delimited], by simp [delimited]⟩
      | case3 t hopen => exact Or.inl rfl
      | case4 t h1 h2 => exact Or.inl rfl
    · exact covers_single hmem hsingle s

theorem covers_literal {q : Char} (hq : q ≠ '\\') (hp : p ∈ Pattern.literal q)
    (h : p ++ s = c :: t) : c = q ∧ Covers (literal kind q t).1 kind p := by
  obtain ⟨_, rfl, _, ⟨body, hbody, _, rfl, rfl⟩, rfl⟩ := hp
  obtain ⟨rfl, rfl⟩ := List.cons_eq_cons.mp h
  refine ⟨rfl, Or.inl ?_⟩
  have hcut : Literal.cut q (body ++ [q] ++ s) = ⟨true, body ++ [q], s⟩ := by
    rw [List.append_assoc]
    exact Literal.cut_append hq hbody
  show (literal kind q (body ++ [q] ++ s)).1 = _
  simp only [literal, hcut]
  rfl

theorem not_startsId_of_isDigit (h : c.isDigit = true) : startsId c = false := by
  obtain ⟨hlow, hhigh⟩ := Char.isDigit_iff_toNat.mp h
  rw [← Char.ofNat_toNat c]
  generalize c.toNat = n at hlow hhigh
  have hlow : 48 ≤ n := hlow
  have hhigh : n ≤ 57 := hhigh
  interval_cases n <;> rfl

theorem covers_lineComment (hp : p ∈ TokenKind.lineComment.pattern) (h : p ++ s = c :: t) :
    Covers (next c t).1 .lineComment p := by
  obtain ⟨v, rfl, hv⟩ := mem_singleton_mul.mp hp
  obtain ⟨rfl, rfl⟩ := List.cons_eq_cons.mp h
  refine covers_run (v := '/' :: v) (by decide) ?_
  intro d hd
  rcases List.mem_cons.mp hd with rfl | hd
  · decide
  · exact mem_kstar_one.mp hv d hd

theorem covers_blockComment (hp : p ∈ TokenKind.blockComment.pattern) (h : p ++ s = c :: t) :
    Covers (next c t).1 .blockComment p := by
  obtain ⟨_, rfl, _, ⟨w, hw, _, rfl, rfl⟩, rfl⟩ := hp
  obtain ⟨rfl, rfl⟩ := List.cons_eq_cons.mp h
  have hcut : Comment.cut (w ++ ['/'] ++ s) = ⟨true, w ++ ['/'], s⟩ := by
    rw [List.append_assoc]
    exact Comment.cut_append (Comment.mem_commentBody.mp hw)
  refine Or.inl ?_
  show (slash ('*' :: (w ++ ['/'] ++ s))).1 = _
  rw [slash, hcut]
  rfl

/-- **No pattern matches a longer piece.**  A piece in front that matches the
pattern of a kind is what `next` takes, with this kind, or it is shorter. -/
theorem covers_next (hp : p ∈ kind.pattern) (h : p ++ s = c :: t) :
    Covers (next c t).1 kind p := by
  have hmark {e : Char} (hp : p = [e]) (he : e ∈ punctuationMarks)
      (hsingle : single? e = some kind) : Covers (next c t).1 kind p := by
    subst hp
    obtain ⟨rfl, rfl⟩ := List.cons_eq_cons.mp h
    exact covers_single he hsingle s
  cases kind with
  | parenOpen => exact hmark hp (by decide) rfl
  | parenClose => exact hmark hp (by decide) rfl
  | colon => exact hmark hp (by decide) rfl
  | semi => exact hmark hp (by decide) rfl
  | pipe => exact hmark hp (by decide) rfl
  | atSign => exact hmark hp (by decide) rfl
  | doubleColon =>
    obtain rfl : p = [':', ':'] := hp
    obtain ⟨rfl, rfl⟩ := List.cons_eq_cons.mp h
    exact covers_pair (by decide) rfl s
  | arrow =>
    obtain rfl : p = ['-', '>'] := hp
    obtain ⟨rfl, rfl⟩ := List.cons_eq_cons.mp h
    exact covers_pair (by decide) rfl s
  | braceOpen =>
    obtain rfl : p = ['\x7b'] := hp
    obtain ⟨rfl, rfl⟩ := List.cons_eq_cons.mp h
    exact Or.inl rfl
  | op => exact covers_op hp h
  | char =>
    obtain ⟨rfl, hcovers⟩ := covers_literal (by decide) hp h
    exact hcovers
  | string =>
    obtain ⟨rfl, hcovers⟩ := covers_literal (by decide) hp h
    exact hcovers
  | id =>
    obtain ⟨_, v, rfl, hc, hv⟩ := mem_run.mp hp
    obtain ⟨rfl, rfl⟩ := List.cons_eq_cons.mp h
    rw [next, if_pos hc]
    exact covers_run (by decide) hv
  | int =>
    obtain ⟨_, v, rfl, hc, hv⟩ := mem_run.mp hp
    obtain ⟨rfl, rfl⟩ := List.cons_eq_cons.mp h
    rw [next, if_neg (by rw [not_startsId_of_isDigit hc]; decide), if_pos hc]
    exact covers_run (by decide) hv
  | whitespace =>
    obtain ⟨e, v, rfl, hc, hv⟩ := mem_run.mp hp
    obtain ⟨rfl, rfl⟩ := List.cons_eq_cons.mp h
    obtain rfl | rfl : e = ' ' ∨ e = '\t' := by simpa [isBlank] using hc
    · exact covers_run (by decide) hv
    · exact covers_run (by decide) hv
  | newline =>
    rcases hp with rfl | rfl <;> obtain ⟨rfl, rfl⟩ := List.cons_eq_cons.mp h
    · exact Or.inl rfl
    · exact Or.inl rfl
  | lineComment => exact covers_lineComment hp h
  | blockComment => exact covers_blockComment hp h
  | block => exact absurd hp (Language.notMem_zero p)
  | garbage => exact absurd hp (Language.notMem_zero p)

/-- **A longest match** at the front of a text: what matches the pattern of its
kind while no longer piece matches any pattern, or garbage where nothing matches. -/
structure LongestMatch (t : Text) (l : Lexeme) : Prop where
  found : Matches l
  longest : ∀ kind p s, p ∈ TokenKind.pattern kind → p ++ s = t → Covers l kind p

theorem longestMatch_next (c : Char) (t : Text) : LongestMatch (c :: t) (next c t).1 :=
  ⟨matches_next c t, fun _ _ _ hp h => covers_next hp h⟩

end Lexeme
end GrammarAtlas
