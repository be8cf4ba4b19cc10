import GrammarAtlas.Proofs.Lexeme.Parts

/-!
# Line feeds in garbage

What no lexeme starts with is garbage: a character by itself, or a literal that nothing closes.
A line feed is a lexeme, so garbage has one only in such a literal, and that literal is its end
(`openLiteral_of_mem_scan`).
-/

namespace GrammarAtlas

namespace Literal

/-- What is cut off as open is open by itself. -/
theorem not_closed_cut_taken {q : Char} {t : Text} (h : (cut q t).closed = false) :
    (cut q (cut q t).taken).closed = false := by
  fun_induction cut q t with
  | case1 => rfl
  | case2 c => exact h
  | case3 => simp [cut]
  | case4 d t hd ih =>
    rw [Cut.taken_cons, Cut.taken_cons, cut_escape hd]
    exact ih h
  | case5 => cases h
  | case6 c d t hc hcq ih =>
    rw [Cut.taken_cons, cut_cons hc hcq]
    exact ih h

end Literal

namespace Lexeme

variable {c : Char} {t : Text} {l : Lexeme}

/-- The text ends in a literal that nothing closes and that has a line feed in it; there is none
in front of the literal. -/
def OpenLiteral (t : Text) : Prop :=
  ∃ front q inside, t = front ++ q :: inside ∧ (q = '\'' ∨ q = '"') ∧ '\n' ∉ front ∧
    '\n' ∈ inside ∧ (Literal.cut q inside).closed = false

theorem OpenLiteral.append {front : Text} (hfront : '\n' ∉ front) (h : OpenLiteral t) :
    OpenLiteral (front ++ t) := by
  obtain ⟨front', q, inside, rfl, hq, hfront', hinside, hopen⟩ := h
  refine ⟨front ++ front', q, inside, (List.append_assoc ..).symm, hq, ?_, hinside, hopen⟩
  exact List.not_mem_append hfront hfront'

theorem punctuation_of_garbage (h : (punctuation c t).1.kind = .garbage) :
    (punctuation c t).1.text = [c] := by
  fun_cases punctuation c t with
  | case1 => rfl
  | case2 d t kind hpair =>
    simp only [punctuation, hpair] at h
    rw [h, pair?] at hpair
    split_ifs at hpair <;> cases hpair
  | case3 d t hpair => rfl

theorem kind_slash_ne_garbage (t : Text) : (slash t).1.kind ≠ .garbage := by
  fun_cases slash t <;> simp [run, delimited, *]

/-- Garbage at the front of a text is a character by itself or an open literal. -/
theorem piece_of_garbage (h : (piece c t).1.kind = .garbage) :
    ((piece c t).1.text = [c] ∧ c ≠ '\n') ∨
      (c = '\'' ∨ c = '"') ∧ (Literal.cut c t).closed = false ∧
        (piece c t).1.text = c :: (Literal.cut c t).taken ∧
        (piece c t).2 = (Literal.cut c t).rest := by
  have hliteral {kind : TokenKind} (hkind : kind ≠ .garbage)
      (hgarbage : (literal kind c t).1.kind = .garbage) : (Literal.cut c t).closed = false := by
    by_contra hclosed
    refine hkind (Eq.trans ?_ hgarbage)
    exact (if_pos (Bool.eq_true_of_not_eq_false hclosed)).symm
  have hbrace : c ≠ '\x7b' := by
    rintro rfl
    cases h
  rw [piece_eq_next hbrace] at h ⊢
  rw [next.eq_def] at h ⊢
  split_ifs at h ⊢ with hid hdigit hblank hfeed hreturn hquote hdouble hslash
  · cases h
  · cases h
  · cases h
  · refine .inl ⟨?_, hfeed⟩
    subst hreturn
    fun_cases carriageReturn t with
    | case1 => cases h
    | case2 => rfl
  · subst hquote
    exact .inr ⟨.inl rfl, hliteral (by decide) h, rfl, rfl⟩
  · subst hdouble
    exact .inr ⟨.inr rfl, hliteral (by decide) h, rfl, rfl⟩
  · exact absurd h (kind_slash_ne_garbage t)
  · exact .inl ⟨punctuation_of_garbage h, hfeed⟩

/-- Garbage with a line feed at the front of a text is an open literal, and nothing is behind it,
or a line feed. -/
theorem openLiteral_piece (h : (piece c t).1.kind = .garbage)
    (hfeed : '\n' ∈ (piece c t).1.text) :
    OpenLiteral (piece c t).1.text ∧ ∀ d ∈ (piece c t).2.head?, d = '\n' := by
  rcases piece_of_garbage h with ⟨htext, hc⟩ | ⟨hq, hopen, htext, hrest⟩
  · rw [htext] at hfeed
    exact absurd (List.mem_singleton.mp hfeed).symm hc
  rw [htext] at hfeed ⊢
  rw [hrest]
  refine ⟨⟨[], c, _, rfl, hq, List.not_mem_nil, ?_, Literal.not_closed_cut_taken hopen⟩,
    Literal.head_rest_of_not_closed hopen⟩
  refine (List.mem_cons.mp hfeed).resolve_left ?_
  rcases hq with rfl | rfl <;> decide

/-- In front of a line feed or of nothing, no garbage is joined to another piece. -/
theorem kind_head?_scan_ne_garbage (ht : ∀ d ∈ t.head?, d = '\n') :
    ∀ l ∈ (scan t).head?, l.kind ≠ .garbage := by
  intro l hl
  cases t with
  | nil =>
    rw [scan] at hl
    cases hl
  | cons d t =>
    obtain rfl := ht d rfl
    rw [scan_newline] at hl
    obtain rfl := Option.some.inj hl
    decide

/-- **Garbage with a line feed ends in a literal that nothing closes.** -/
theorem openLiteral_of_mem_scan (hl : l ∈ scan t) (hgarbage : l.kind = .garbage)
    (hfeed : '\n' ∈ l.text) : OpenLiteral l.text := by
  fun_induction scan t generalizing l with
  | case1 => exact absurd hl List.not_mem_nil
  | case2 c t ih =>
    rcases eq_of_mem_glue hl with rfl | hl | ⟨m, hm, hfirst, hkind, rfl⟩
    · exact (openLiteral_piece hgarbage hfeed).1
    · exact ih hl hgarbage hfeed
    · have hnone : '\n' ∉ (piece c t).1.text := fun hin =>
        kind_head?_scan_ne_garbage (openLiteral_piece hfirst hin).2 m hm hkind
      have hin := (List.mem_append.mp hfeed).resolve_left hnone
      exact (ih (List.mem_of_mem_head? hm) hkind hin).append hnone

end Lexeme
end GrammarAtlas
