import GrammarAtlas.Proofs.Lexeme.Parts
import GrammarAtlas.Proofs.Token.Reports
import GrammarAtlas.Proofs.Token.Significant

/-!
# Another layout

The lexemes of a source may be laid out on lines of their own, without the trivia that
stood between them.  If there is no garbage among them, they are lexed again to the same
lexemes (`significant_joined`).  A line feed keeps two lexemes apart whatever they are, as
long as the first of them is sound; and the only lexeme that may be unsound, a block
without its closing brace, is the last one (`pairwise_sound_scan`).
-/

namespace GrammarAtlas
namespace Lexeme

variable {c : Char} {t : Text} {l : Lexeme} {ls : List Lexeme}

/-- Only a brace starts a block. -/
theorem eq_brace_of_kind_piece (h : (piece c t).1.kind = .block) : c = '\x7b' := by
  by_contra hc
  have hmatch := matches_next c t
  rw [piece_eq_next hc] at h
  rw [Matches, h] at hmatch
  rcases hmatch with hgarbage | hpattern
  · exact absurd hgarbage (by decide)
  · exact absurd hpattern (Language.notMem_zero _)

/-- A piece with something behind it is sound unless it is garbage. -/
theorem sound_piece (hkind : (piece c t).1.kind ≠ .garbage) (hrest : (piece c t).2 ≠ []) :
    Sound (piece c t).1 := by
  refine ⟨hkind, fun hblock => ?_⟩
  obtain rfl := eq_brace_of_kind_piece hblock
  have hclosed : (Block.cut 0 none t).closed = true := by
    by_contra hopen
    exact hrest (Block.rest_eq_nil_of_not_closed (Bool.eq_false_iff.mpr hopen))
  show (Block.cut 0 none (Block.cut 0 none t).taken).closed = true
  rw [Block.cut_taken, hclosed]

/-- A block begins with its brace. -/
theorem exists_text_of_block (hl : l ∈ scan t) (hblock : l.kind = .block) :
    ∃ u, l.text = '\x7b' :: u := by
  obtain ⟨c, u, htext, rfl⟩ := exists_piece_of_mem_scan hl (by rw [hblock]; decide)
  exact ⟨u, eq_brace_of_kind_piece hblock ▸ htext⟩

/-- A piece that is neither a block nor garbage matches the pattern of its kind. -/
theorem text_mem_pattern_of_mem_scan (hl : l ∈ scan t) (hblock : l.kind ≠ .block)
    (hgarbage : l.kind ≠ .garbage) : l.text ∈ l.kind.pattern := by
  obtain ⟨c, u, -, rfl⟩ := exists_piece_of_mem_scan hl hgarbage
  have hbrace : c ≠ '\x7b' := by
    rintro rfl
    exact hblock rfl
  rw [piece_eq_next hbrace] at hgarbage ⊢
  exact (matches_next c u).resolve_left hgarbage

/-- **Only the last piece of a text may be unsound**, except for garbage. -/
theorem pairwise_sound_scan (t : Text) :
    (scan t).Pairwise fun l _ => l.kind ≠ .garbage → Sound l := by
  fun_induction scan t with
  | case1 => exact .nil
  | case2 c t ih =>
    by_cases hgarbage : (piece c t).1.kind = .garbage
    · cases hrest : scan (piece c t).2 with
      | nil => exact List.pairwise_singleton _ _
      | cons m ms =>
        rw [hrest] at ih
        rw [glue]
        split
        · exact List.pairwise_cons.mpr ⟨fun _ _ hne => absurd rfl hne, ih.tail⟩
        · exact List.pairwise_cons.mpr ⟨fun _ _ hne => absurd hgarbage hne, ih⟩
    · rw [glue_of_ne_garbage hgarbage]
      refine List.pairwise_cons.mpr ⟨fun m hm _ => sound_piece hgarbage ?_, ih⟩
      intro hrest
      rw [hrest, scan] at hm
      exact absurd hm List.not_mem_nil

/-- Lexemes on lines of their own are the pieces of the text, with the line feeds. -/
theorem scan_join (hself : ∀ l ∈ ls, scan l.text = [l]) (hsound : ls.Pairwise fun l _ => Sound l) :
    scan (Text.join ['\n'] (ls.map text)) = ls.intersperse ⟨.newline, ['\n']⟩ := by
  induction ls with
  | nil => rw [List.map_nil, Text.join_nil, scan]; rfl
  | cons l ls ih =>
    have hl := hself l List.mem_cons_self
    have ih := ih (fun m hm => hself m (List.mem_cons_of_mem l hm)) hsound.tail
    cases ls with
    | nil => exact hl
    | cons m ls =>
      have hfirst : Sound l := (List.pairwise_cons.mp hsound).1 m List.mem_cons_self
      rw [List.map_cons] at ih
      rw [List.map_cons, List.map_cons, Text.join_cons_cons, List.append_assoc,
        List.singleton_append, scan_append_newline, hl, ih]
      · rfl
      · rw [hl]
        exact List.forall_mem_singleton.mpr hfirst
      · rw [hl]
        exact List.isChain_singleton _

/-- Line feeds are trivia. -/
theorem filter_intersperse_newline (ls : List Lexeme) :
    (ls.intersperse ⟨.newline, ['\n']⟩).filter (fun l => !l.kind.isTrivia) =
      ls.filter fun l => !l.kind.isTrivia := by
  induction ls with
  | nil => rfl
  | cons l ls ih =>
    cases ls with
    | nil => rfl
    | cons m ls =>
      rw [List.intersperse_cons_cons, List.filter_cons (x := l),
        List.filter_cons_of_neg (by decide), ih, List.filter_cons (x := l)]

/-- **A source without garbage may be laid out anew**: with each of its lexemes on a line of
its own it has the same lexemes. -/
theorem significant_joined (h : ∀ l ∈ scan t, l.kind ≠ .garbage) :
    significant (Text.join ['\n'] ((significant t).map text)) = significant t := by
  have hmem : ∀ l ∈ significant t, l ∈ scan t := fun l hl => List.mem_of_mem_filter hl
  have hsound : (significant t).Pairwise fun l _ => Sound l := by
    refine ((pairwise_sound_scan t).filter _).imp_of_mem ?_
    intro l m hl _ hlm
    exact hlm (h l (hmem l hl))
  have hscan := scan_join (fun l hl => scan_text_of_mem (hmem l hl)) hsound
  rw [significant, hscan, filter_intersperse_newline, significant, List.filter_filter]
  simp

end Lexeme

/-- The text of a token matches the pattern of its kind, unless it is a block or garbage. -/
theorem TokenStream.exists_text_mem_pattern {source : Text} {t : Token} {i : Nat}
    (ht : (lex source).get? i = some t) (hblock : t.kind ≠ .block) (hgarbage : t.kind ≠ .garbage) :
    ∃ text ∈ t.kind.pattern, (lex source).text t = .ok text := by
  obtain ⟨l, hl, hkind, htext⟩ := (readsAs_lex source).exists_getElem? ht
  rw [hkind] at hblock hgarbage ⊢
  have hmem := List.mem_of_mem_filter (List.mem_of_getElem? hl)
  exact ⟨l.text, Lexeme.text_mem_pattern_of_mem_scan hmem hblock hgarbage, htext⟩

end GrammarAtlas
