import GrammarAtlas.Proofs.Text.Slice
import GrammarAtlas.Proofs.Token.Inside
import GrammarAtlas.Proofs.Token.Parts

/-!
# Excerpts of a stream

An excerpt of a stream is one that stands inside it (`Inside`) and whose source is a part of
the other source, so that not only the tokens have the same texts, but also all that lies
between two of them (`Excerpt.textBetween`).

What stands from one token of a source to another is the source of an excerpt, if the last
token is a semicolon (`Part.excerpt`).
-/

namespace GrammarAtlas
namespace TokenStream

open Lexeme PlacedLexeme

/-- **The stream is an excerpt of another one**, from the index `k` and from the offset
`bytes` on. -/
structure Excerpt (k bytes : Nat) (s s' : TokenStream) : Prop where
  inside : Inside (fun a b => b = bytes + a) k s s'
  slice : ∀ start stop text, s.source.slice? start stop = some text →
    s'.source.slice? (bytes + start) (bytes + stop) = some text

namespace Excerpt

variable {k bytes i j : Nat} {s s' : TokenStream} {text : Text}

/-- What stands between two tokens of the excerpt stands between them in the whole. -/
theorem textBetween (h : Excerpt k bytes s s') (hi : i < s.size) (hj : j < s.size)
    (htext : s.textBetween i j = .ok text) : s'.textBetween (k + i) (k + j) = .ok text := by
  obtain ⟨t, ht⟩ := exists_get? hi
  obtain ⟨u, hu⟩ := exists_get? hj
  obtain ⟨t', ht', -, -, hstart, -⟩ := h.inside.token i t ht
  obtain ⟨u', hu', -, -, -, hstop⟩ := h.inside.token j u hu
  rw [TokenStream.textBetween, ht, hu] at htext
  rw [TokenStream.textBetween, ht', hu']
  simp only [hstart, hstop, Nat.add_le_add_iff_left]
  simp only at htext
  split_ifs at htext ⊢ with horder
  · rw [read] at htext ⊢
    split at htext
    · rename_i found hfound
      obtain rfl := Except.ok.inj htext
      simp only [h.slice _ _ _ hfound]
    · cases htext
  · exact htext

end Excerpt

variable {source : Text} {i j n : Nat} {as bs cs : List Lexeme} {t : Token}

namespace Part

/-- The tokens of the part are tokens of the whole, moved on. -/
theorem get?_add (h : Part source i j as bs cs)
    (ht : (lex (bs.flatMap Lexeme.text)).get? n = some t) :
    (lex source).get? (i + n) = some (t.moved (Text.byteSize (as.flatMap Lexeme.text))
      (Text.lineBreaks (as.flatMap Lexeme.text))) := by
  have hslice := congrArg (·[n]?) (h.slice_eq.trans (tokensOf_part h.scan_eq))
  have ht : (lex (bs.flatMap Lexeme.text)).tokens[n]? = some t := ht
  simp only [slice, List.getElem?_drop, List.getElem?_take, List.getElem?_map, ht] at hslice
  split at hslice
  · exact hslice
  · cases hslice

/-- The number of tokens of the part. -/
theorem size_eq (h : Part source i j as bs cs) :
    (lex (bs.flatMap Lexeme.text)).size = j + 1 - i := by
  have hthrough := h.length_through
  rw [tokensOf_append, List.length_append, h.length_front, List.nil_append,
    tokensOf_part h.scan_eq, List.length_map] at hthrough
  rw [size]
  omega

/-- **The part up to a semicolon is an excerpt.** -/
theorem excerpt (h : Part source i j as bs cs) (hij : i ≤ j)
    (hsemi : (lex source).textAt j = .ok [';']) :
    Excerpt i (Text.byteSize (as.flatMap Lexeme.text)) (lex (bs.flatMap Lexeme.text))
      (lex source) where
  inside := by
    have hread := readsAs_lex (bs.flatMap Lexeme.text)
    have hread' := readsAs_lex source
    have hfront := h.length_front
    rw [length_tokensOf] at hfront
    have hwhole : significant source = as.filter (fun l => !l.kind.isTrivia) ++
        significant (bs.flatMap Lexeme.text) ++ cs.filter (fun l => !l.kind.isTrivia) := by
      rw [significant, significant, scan_part h.scan_eq, h.scan_eq, List.filter_append,
        List.filter_append]
    rw [hwhole] at hread'
    refine hfront ▸ inside_of_readsAs hread hread' ?_ (.inr ?_)
    · intro n t t' ht ht'
      rw [hfront, h.get?_add ht] at ht'
      obtain rfl := Option.some.inj ht'
      exact ⟨rfl, rfl⟩
    · obtain ⟨t, ht, -⟩ := h.last
      rw [textAt_of_get? ht] at hsemi
      have hsize := h.size_eq
      have hlast := h.significant_eq (n := j - i) (by omega)
      rw [Nat.add_sub_cancel' hij, getElem?_significant_of_text rfl ht hsemi] at hlast
      rw [List.getLast?_eq_getElem?, ← hread.size, hsize, Nat.sub_right_comm]
      exact hlast
  slice := by
    intro start stop text htext
    have htext : Text.slice? (bs.flatMap Lexeme.text) start stop = some text := htext
    have hinside := Text.slice?_inside htext (as.flatMap Lexeme.text) (cs.flatMap Lexeme.text)
    rwa [← source_eq_of_scan h.scan_eq] at hinside

end Part
end TokenStream
end GrammarAtlas
