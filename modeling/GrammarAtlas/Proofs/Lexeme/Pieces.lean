import GrammarAtlas.Proofs.Lexeme.Block
import GrammarAtlas.Proofs.Lexeme.Pattern

/-!
# The pieces of a source

A source is cut into pieces: the longest matches one after the other, where an
opening brace takes its block with it and neighbouring garbage is one piece.
`Lexeme.scan` is this list.  The texts of the pieces, one after the other, are
the source (`flatMap_text_scan`).

Trivia has to be *complete*: a run of blanks has no blank next to it on either
side, and a line comment goes on to the end of the line.  `Laid before ls` says
this of pieces that stand behind a text, and also that no piece is empty and no
two neighbours are garbage.  The pieces of a source are laid out so
(`laid_scan`).
-/

namespace GrammarAtlas
namespace Lexeme

variable {c : Char} {t before : Text} {l m : Lexeme} {ls ms : List Lexeme}

/-- The piece at the front of the text `c :: t`, and what follows it. -/
def piece (c : Char) (t : Text) : Lexeme × Text :=
  if (next c t).1.kind = .braceOpen then
    delimited .block (next c t).1.text (Block.cut 0 none (next c t).2)
  else next c t

theorem piece_append (c : Char) (t : Text) : (piece c t).1.text ++ (piece c t).2 = c :: t := by
  unfold piece
  split
  · rw [delimited, List.append_assoc, Block.taken_append_rest, next_append]
  · exact next_append c t

theorem piece_text_ne_nil (c : Char) (t : Text) : (piece c t).1.text ≠ [] := by
  unfold piece
  split
  · exact fun h => next_text_ne_nil c t (List.append_eq_nil_iff.mp h).1
  · exact next_text_ne_nil c t

theorem length_piece_lt (c : Char) (t : Text) : (piece c t).2.length < (c :: t).length := by
  have whole := congrArg List.length (piece_append c t)
  have hpos := List.length_pos_iff.mpr (piece_text_ne_nil c t)
  rw [List.length_append] at whole
  omega

/-- Puts a piece in front of others, joined with the first if both are garbage. -/
def glue (l : Lexeme) : List Lexeme → List Lexeme
  | [] => [l]
  | m :: ms =>
    if l.kind = .garbage ∧ m.kind = .garbage then ⟨.garbage, l.text ++ m.text⟩ :: ms
    else l :: m :: ms

/-- **The pieces of a text**, from its start to its end. -/
def scan : Text → List Lexeme
  | [] => []
  | c :: t => glue (piece c t).1 (scan (piece c t).2)
termination_by t => t.length
decreasing_by exact length_piece_lt c t

@[simp] theorem flatMap_text_glue (l : Lexeme) (ms : List Lexeme) :
    (glue l ms).flatMap text = l.text ++ ms.flatMap text := by
  cases ms with
  | nil => simp [glue]
  | cons m ms => by_cases h : l.kind = .garbage ∧ m.kind = .garbage <;> simp [glue, h]

/-- The texts of the pieces, one after the other, are the text. -/
theorem flatMap_text_scan (t : Text) : (scan t).flatMap text = t := by
  fun_induction scan t with
  | case1 => rfl
  | case2 c t ih => rw [flatMap_text_glue, ih, piece_append]

theorem glue_of_ne_garbage (h : l.kind ≠ .garbage) (ms : List Lexeme) : glue l ms = l :: ms := by
  cases ms with
  | nil => rfl
  | cons m ms => rw [glue, if_neg fun hboth => h hboth.1]

/-- Garbage in front of garbage: it does not matter which two are joined first. -/
theorem glue_glue (g u : Text) (ms : List Lexeme) :
    glue ⟨.garbage, g⟩ (glue ⟨.garbage, u⟩ ms) = glue ⟨.garbage, g ++ u⟩ ms := by
  cases ms with
  | nil => simp [glue]
  | cons m ms => by_cases h : m.kind = .garbage <;> simp [glue, h]

/-! ## Between neighbours -/

/-- Blanks do not meet: the front does not end in one, or the back does not begin
with one. -/
def Seam (front back : Text) : Prop :=
  (∀ c ∈ front.getLast?, isBlank c = false) ∨ ∀ c ∈ back.head?, isBlank c = false

theorem Seam.of_forall {front back : Text} (h : ∀ c ∈ front, isBlank c = false) : Seam front back :=
  Or.inl fun c hc => h c (List.mem_of_getLast? hc)

theorem Seam.of_getLast {front back : Text} (h : front.getLast? = some c) (hc : isBlank c = false) :
    Seam front back :=
  Or.inl fun _ hd => Option.some.inj (h.symm.trans hd) ▸ hc

theorem head_dropWhile {p : Char → Bool} : ∀ d ∈ (t.dropWhile p).head?, p d = false := by
  intro d hd
  have h := List.head?_dropWhile_not p t
  rw [Option.mem_def.mp hd] at h
  simpa using h

theorem seam_run {kind : TokenKind} {p : Char → Bool} (hc : isBlank c = false)
    (hp : ∀ d, p d = true → isBlank d = false) :
    Seam (run kind p c t).1.text (run kind p c t).2 := by
  refine Seam.of_forall ?_
  intro d hd
  rcases List.mem_cons.mp hd with rfl | hd
  · exact hc
  · exact hp d (List.mem_takeWhile_imp hd)

theorem not_isBlank_of_continuesId {d : Char} (h : continuesId d = true) : isBlank d = false := by
  refine Bool.eq_false_iff.mpr ?_
  intro hblank
  obtain rfl | rfl : d = ' ' ∨ d = '\t' := by simpa [isBlank] using hblank
  · exact absurd h (by decide)
  · exact absurd h (by decide)

theorem continuesId_of_startsId {d : Char} (h : startsId d = true) : continuesId d = true := by
  simp only [startsId, Bool.or_eq_true] at h
  simp only [continuesId, Char.isAlphanum, Bool.or_eq_true]
  rcases h with h | h
  · exact Or.inl (Or.inl h)
  · exact Or.inr h

theorem seam_literal (kind : TokenKind) {q : Char} (hq : isBlank q = false) (t : Text) :
    Seam (literal kind q t).1.text (literal kind q t).2 := by
  show Seam (q :: (Literal.cut q t).taken) (Literal.cut q t).rest
  cases h : (Literal.cut q t).closed with
  | true =>
    obtain ⟨body, -, htaken⟩ := Literal.exists_of_closed h
    refine Seam.of_getLast (c := q) ?_ hq
    rw [htaken, ← List.cons_append, List.getLast?_concat]
  | false => exact Or.inr fun d hd => Literal.head_rest_of_not_closed h d hd ▸ rfl

theorem seam_slash (t : Text) : Seam (slash t).1.text (slash t).2 := by
  fun_cases slash t with
  | case1 t =>
    refine Or.inr ?_
    intro d hd
    obtain rfl : d = '\n' := by simpa using head_dropWhile d hd
    rfl
  | case2 t h =>
    obtain ⟨w, -, htaken⟩ := Comment.exists_of_closed h
    refine Seam.of_getLast (c := '/') ?_ rfl
    show (['/', '*'] ++ (Comment.cut t).taken).getLast? = some '/'
    rw [htaken, ← List.append_assoc, List.getLast?_concat]
  | case3 t h => exact Seam.of_getLast (c := '/') rfl rfl
  | case4 t h1 h2 => exact Seam.of_getLast (c := '/') rfl rfl

theorem seam_punctuation (hc : isBlank c = false) (t : Text) :
    Seam (punctuation c t).1.text (punctuation c t).2 := by
  fun_cases punctuation c t with
  | case1 => exact Seam.of_getLast (c := c) rfl hc
  | case2 d t kind hpair =>
    refine Seam.of_getLast (c := d) rfl (Bool.eq_false_iff.mpr fun hd => ?_)
    obtain rfl | rfl : d = ' ' ∨ d = '\t' := by simpa [isBlank] using hd
    · simp [pair?] at hpair
    · simp [pair?] at hpair
  | case3 d t hpair => exact Seam.of_getLast (c := c) rfl hc

theorem seam_next (c : Char) (t : Text) : Seam (next c t).1.text (next c t).2 := by
  fun_cases next c t with
  | case1 hc =>
    have hblank {d : Char} (hd : continuesId d = true) := not_isBlank_of_continuesId hd
    exact seam_run (hblank (continuesId_of_startsId hc)) fun d hd => hblank hd
  | case2 _ hc =>
    have hblank {d : Char} (hd : d.isDigit = true) : isBlank d = false :=
      not_isBlank_of_continuesId (by simp [continuesId, Char.isAlphanum, hd])
    exact seam_run (hblank hc) fun d hd => hblank hd
  | case3 => exact Or.inr head_dropWhile
  | case4 _ _ hc => exact Seam.of_getLast rfl (Bool.eq_false_iff.mpr hc)
  | case5 =>
    fun_cases carriageReturn t with
    | case1 t => exact Seam.of_getLast (c := '\n') rfl rfl
    | case2 => exact Seam.of_getLast (c := '\r') rfl rfl
  | case6 _ _ hc => exact Seam.of_getLast rfl (Bool.eq_false_iff.mpr hc)
  | case7 _ _ hc => exact seam_literal _ (Bool.eq_false_iff.mpr hc) t
  | case8 _ _ hc => exact seam_literal _ (Bool.eq_false_iff.mpr hc) t
  | case9 => exact seam_slash t
  | case10 _ _ hc => exact seam_punctuation (Bool.eq_false_iff.mpr hc) t

/-- **Blanks do not meet between two pieces.** -/
theorem seam_piece (c : Char) (t : Text) : Seam (piece c t).1.text (piece c t).2 := by
  unfold piece
  split
  · cases h : (Block.cut 0 none (next c t).2).closed with
    | true =>
      refine Seam.of_getLast (c := '\x7d') ?_ rfl
      have hlast := Block.getLast?_taken_of_closed h
      have hne : (Block.cut 0 none (next c t).2).taken ≠ [] := by
        intro hnil
        rw [hnil] at hlast
        cases hlast
      rw [delimited, List.getLast?_append_of_ne_nil _ hne, hlast]
    | false =>
      have hrest := Block.rest_eq_nil_of_not_closed h
      refine Or.inr ?_
      intro d hd
      rw [delimited, hrest] at hd
      cases hd
  · exact seam_next c t

/-- **Trivia that is complete** between the text in front of it and the text
behind it.  A line end or a block comment always is. -/
inductive Complete (before : Text) : Text → Text → Prop
  | blanks {piece after : Text} : piece ∈ TokenKind.whitespace.pattern →
      (∀ c ∈ before.getLast?, isBlank c = false) → (∀ c ∈ after.head?, isBlank c = false) →
      Complete before piece after
  | newline {piece after : Text} : piece ∈ TokenKind.newline.pattern →
      Complete before piece after
  | lineComment {piece after : Text} : piece ∈ TokenKind.lineComment.pattern →
      (∀ c ∈ after.head?, c = '\n') → Complete before piece after
  | blockComment {piece after : Text} : piece ∈ TokenKind.blockComment.pattern →
      Complete before piece after

theorem complete_next (hseam : Seam before (c :: t)) (h : (next c t).1.kind.isTrivia = true) :
    Complete before (next c t).1.text (next c t).2 := by
  have happend := next_append c t
  have hmatch := matches_next c t
  unfold Matches at hmatch
  generalize hkind : (next c t).1.kind = kind at h hmatch
  rcases hmatch with rfl | hmatch
  · cases h
  cases kind with
  | whitespace =>
    obtain ⟨e, v, hv, he, -⟩ := mem_run.mp hmatch
    rw [hv] at happend
    obtain ⟨rfl, -⟩ := List.cons_eq_cons.mp happend
    have hfront : ∀ d ∈ before.getLast?, isBlank d = false := by
      rcases hseam with hfront | hback
      · exact hfront
      · exact absurd he (Bool.eq_false_iff.mp (hback e rfl))
    refine .blanks hmatch hfront ?_
    obtain rfl | rfl : e = ' ' ∨ e = '\t' := by simpa [isBlank] using he
    · exact head_dropWhile
    · exact head_dropWhile
  | newline => exact .newline hmatch
  | lineComment =>
    obtain ⟨v, hv, -⟩ := mem_singleton_mul.mp hmatch
    rw [hv] at happend
    obtain ⟨rfl, ht⟩ := List.cons_eq_cons.mp happend
    obtain ⟨u, rfl⟩ : ∃ u, t = '/' :: u := ⟨_, ht.symm⟩
    refine .lineComment hmatch ?_
    intro d hd
    simpa using head_dropWhile d hd
  | blockComment => exact .blockComment hmatch
  | _ => cases h

/-- **Pieces laid out behind a text.** -/
inductive Laid : Text → List Lexeme → Prop
  | nil (before : Text) : Laid before []
  | cons {before : Text} {l : Lexeme} {ls : List Lexeme} :
      l.text ≠ [] → l.kind ≠ .braceOpen →
      (l.kind.isTrivia = true → Complete before l.text (ls.flatMap text)) →
      (l.kind = .garbage → ∀ m ∈ ls.head?, m.kind ≠ .garbage) →
      Laid (before ++ l.text) ls → Laid before (l :: ls)

theorem kind_piece_ne_braceOpen (c : Char) (t : Text) : (piece c t).1.kind ≠ .braceOpen := by
  unfold piece
  split
  · exact fun h => by cases h
  · assumption

theorem complete_piece (hseam : Seam before (c :: t)) (h : (piece c t).1.kind.isTrivia = true) :
    Complete before (piece c t).1.text (piece c t).2 := by
  unfold piece at h ⊢
  split at h
  · cases h
  · rename_i hbrace
    rw [if_neg hbrace]
    exact complete_next hseam h

/-- A piece may be put in front of pieces that are laid out behind it. -/
theorem Laid.glue (htext : l.text ≠ []) (hkind : l.kind ≠ .braceOpen)
    (htrivia : l.kind.isTrivia = true → Complete before l.text (ls.flatMap text))
    (h : Laid (before ++ l.text) ls) : Laid before (glue l ls) := by
  cases h with
  | nil => exact .cons htext hkind htrivia (fun _ _ hm => by cases hm) (.nil _)
  | @cons _ m ls hmtext hmkind hmtrivia hmgarbage hrest =>
    by_cases hboth : l.kind = .garbage ∧ m.kind = .garbage
    · rw [Lexeme.glue, if_pos hboth]
      rw [List.append_assoc] at hrest
      refine .cons ?_ ?_ ?_ (fun _ => hmgarbage hboth.2) hrest
      · exact fun hnil => htext (List.append_eq_nil_iff.mp hnil).1
      · exact fun h => by cases h
      · exact fun h => by cases h
    · rw [Lexeme.glue, if_neg hboth]
      refine .cons htext hkind htrivia (fun hl m' hm' => ?_)
        (.cons hmtext hmkind hmtrivia hmgarbage hrest)
      exact Option.some.inj hm' ▸ fun hm => hboth ⟨hl, hm⟩

/-- **The pieces of a text are laid out behind whatever it follows**, as long as
blanks do not meet there. -/
theorem laid_scan (hseam : Seam before t) : Laid before (scan t) := by
  fun_induction scan t generalizing before with
  | case1 => exact .nil before
  | case2 c t ih =>
    refine Laid.glue (piece_text_ne_nil c t) (kind_piece_ne_braceOpen c t) (fun h => ?_) (ih ?_)
    · rw [flatMap_text_scan]
      exact complete_piece hseam h
    · rcases seam_piece c t with hlast | hhead
      · refine Or.inl ?_
        rwa [List.getLast?_append_of_ne_nil _ (piece_text_ne_nil c t)]
      · exact Or.inr hhead

end Lexeme
end GrammarAtlas
