import GrammarAtlas.Proofs.Lexeme.Parts
import GrammarAtlas.Proofs.Token.Placed
import GrammarAtlas.Proofs.Token.Reading
import Mathlib.Data.List.Forall2

/-!
# What a stream reads as

Everything that is asked about a stream is asked about the kinds and the texts of its
tokens, or about their spans.  `ReadsAs` keeps the kinds and texts: it says which list of
lexemes a stream is, wherever in the source they stand.

The stream of a source reads as the pieces of the source that are not trivia
(`readsAs_lex`).  What a token is can be told by its text alone (`scan_text_token`).
-/

namespace GrammarAtlas

namespace Lexeme

/-- The pieces of a text that are not trivia. -/
def significant (t : Text) : List Lexeme := (scan t).filter fun l => !l.kind.isTrivia

end Lexeme

namespace TokenStream

open Lexeme PlacedLexeme

/-- **The stream reads as a list of lexemes**: these are the kinds and texts of its tokens. -/
def ReadsAs (s : TokenStream) (ls : List Lexeme) : Prop :=
  List.Forall₂ (fun t l => t.kind = l.kind ∧ s.text t = .ok l.text) s.tokens ls

variable {s : TokenStream} {ls : List Lexeme} {source before after : Text} {l : Lexeme} {t : Token}
  {i : Nat}

theorem ReadsAs.size (h : s.ReadsAs ls) : s.size = ls.length := h.length_eq

theorem ReadsAs.getElem? (h : s.ReadsAs ls) (hl : ls[i]? = some l) :
    ∃ t, s.get? i = some t ∧ t.kind = l.kind ∧ s.text t = .ok l.text := by
  obtain ⟨hi, rfl⟩ := List.getElem?_eq_some_iff.mp hl
  have hi' : i < s.tokens.length := h.length_eq ▸ hi
  exact ⟨s.tokens[i], List.getElem?_eq_getElem hi', List.Forall₂.get h hi' hi⟩

theorem ReadsAs.exists_getElem? (h : s.ReadsAs ls) (ht : s.get? i = some t) :
    ∃ l, ls[i]? = some l ∧ t.kind = l.kind ∧ s.text t = .ok l.text := by
  obtain ⟨hi, rfl⟩ := List.getElem?_eq_some_iff.mp ht
  have hi' : i < ls.length := h.length_eq ▸ hi
  exact ⟨ls[i], List.getElem?_eq_getElem hi', List.Forall₂.get h hi hi'⟩

theorem ReadsAs.textAt (h : s.ReadsAs ls) (i : Nat) :
    s.textAt i = .ok ((ls[i]?.map Lexeme.text).getD []) := by
  cases hl : ls[i]? with
  | none =>
    have hsize : s.tokens.length ≤ i := h.size.trans_le (List.getElem?_eq_none_iff.mp hl)
    rw [TokenStream.textAt, get?, List.getElem?_eq_none hsize]
    rfl
  | some l =>
    obtain ⟨t, ht, -, htext⟩ := h.getElem? hl
    rw [TokenStream.textAt, ht]
    exact htext

theorem ReadsAs.map_kind (h : s.ReadsAs ls) : s.tokens.map (·.kind) = ls.map Lexeme.kind :=
  map_eq_map_of_forall₂ (h.imp fun _ _ ht => ht.1)

theorem ReadsAs.mapM_text (h : s.ReadsAs ls) :
    s.tokens.mapM s.text = .ok (ls.map Lexeme.text) :=
  mapM_eq_ok (List.forall₂_map_right_iff.mpr (h.imp fun _ _ ht => ht.2))

/-- The text of a token of a source is the text of its piece. -/
theorem text_token (h : source = before ++ l.text ++ after) (ts : List Token)
    (lines : LineIndex) :
    (TokenStream.mk source ts).text (token lines ⟨before, l⟩) = .ok l.text := by
  rw [text, read]
  simp only [token, span, h, Text.slice?_append]

/-- Pieces give as many tokens as there are pieces that are not trivia. -/
theorem length_tokensOf (lines : LineIndex) (before : Text) (ls : List Lexeme) :
    (tokensOf lines before ls).length = (ls.filter fun l => !l.kind.isTrivia).length := by
  induction ls generalizing before with
  | nil => rfl
  | cons l ls ih =>
    rw [tokensOf]
    cases hl : l.kind.isTrivia with
    | true => rw [if_pos rfl, ih, List.filter_cons_of_neg (by rw [hl]; decide)]
    | false =>
      rw [if_neg Bool.false_ne_true, List.length_cons, ih,
        List.filter_cons_of_pos (by rw [hl]; decide), List.length_cons]

theorem forall₂_tokensOf (ts : List Token) (lines : LineIndex)
    (h : source = before ++ ls.flatMap Lexeme.text) :
    List.Forall₂ (fun t l => t.kind = l.kind ∧ (TokenStream.mk source ts).text t = .ok l.text)
      (tokensOf lines before ls) (ls.filter fun l => !l.kind.isTrivia) := by
  induction ls generalizing before with
  | nil => exact .nil
  | cons l ls ih =>
    rw [List.flatMap_cons, ← List.append_assoc] at h
    rw [tokensOf]
    cases hl : l.kind.isTrivia with
    | true =>
      rw [if_pos rfl, List.filter_cons_of_neg (by rw [hl]; decide)]
      exact ih h
    | false =>
      rw [if_neg Bool.false_ne_true, List.filter_cons_of_pos (by rw [hl]; decide)]
      exact .cons ⟨rfl, text_token h ts lines⟩ (ih h)

/-- **The stream of a source reads as the pieces of the source that are not trivia.** -/
theorem readsAs_lex (source : Text) : (lex source).ReadsAs (significant source) := by
  have hsource : source = [] ++ (scan source).flatMap Lexeme.text := (flatMap_text_scan source).symm
  have hread := forall₂_tokensOf (lex source).tokens (.ofSource source) hsource
  rwa [← tokens_lex] at hread

/-- The text of a token of a source tells its kind: it is a piece by itself. -/
theorem scan_text_token {text : Text} (ht : (lex source).get? i = some t)
    (htext : (lex source).text t = .ok text) : scan text = [⟨t.kind, text⟩] := by
  obtain ⟨l, hl, hkind, hl'⟩ := (readsAs_lex source).exists_getElem? ht
  obtain rfl : l.text = text := Except.ok.inj (hl'.symm.trans htext)
  rw [hkind]
  exact scan_text_of_mem (List.mem_of_mem_filter (List.mem_of_getElem? hl))

/-- A character that is a piece tells the kind of the tokens with this text. -/
theorem kind_of_text_singleton {c : Char} {k : TokenKind} (hpiece : piece c [] = (⟨k, [c]⟩, []))
    (ht : (lex source).get? i = some t) (htext : (lex source).text t = .ok [c]) : t.kind = k := by
  have hone := (scan_text_token ht htext).symm.trans (scan_singleton hpiece)
  exact congrArg Lexeme.kind (List.cons.inj hone).1

/-- A token with such a text is this piece. -/
theorem getElem?_significant_of_text {c : Char} {k : TokenKind}
    (hpiece : piece c [] = (⟨k, [c]⟩, [])) (ht : (lex source).get? i = some t)
    (htext : (lex source).text t = .ok [c]) : (significant source)[i]? = some ⟨k, [c]⟩ := by
  obtain ⟨⟨kind, text⟩, hl, hkind, htext'⟩ := (readsAs_lex source).exists_getElem? ht
  obtain rfl : kind = k := hkind.symm.trans (kind_of_text_singleton hpiece ht htext)
  obtain rfl : text = [c] := Except.ok.inj (htext'.symm.trans htext)
  exact hl

end TokenStream
end GrammarAtlas
