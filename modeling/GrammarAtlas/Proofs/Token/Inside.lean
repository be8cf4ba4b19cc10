import GrammarAtlas.Proofs.Token.Significant
import GrammarAtlas.Proofs.Token.Reading

/-!
# A stream inside another one

`Inside m k s s'` says that the tokens of `s` stand in `s'`, the first at the index `k`.
Their kinds and texts are the same; their places are only related by `m`, so the same
lexemes may be laid out in another way.

Whatever looks at `s` from an index on should see the same in `s'`.  It does at every index
of `s`, and past the end if `s'` ends there, too (`Sees`).  Where `s'` goes on, `s` ends with
a semicolon; so no index but that of the last token sees what comes behind
(`Inside.sees_succ`).
-/

namespace GrammarAtlas
namespace TokenStream

/-- **The stream stands inside another one**, from the index `k` on, with places related by
`m`.  The other one ends with it, or it ends with a semicolon. -/
structure Inside (m : Nat → Nat → Prop) (k : Nat) (s s' : TokenStream) : Prop where
  token : ∀ i t, s.get? i = some t → ∃ t', s'.get? (k + i) = some t' ∧ t'.kind = t.kind ∧
    s'.text t' = s.text t ∧ m t.span.start t'.span.start ∧ m t.span.stop t'.span.stop
  closed : s'.size = k + s.size ∨
    ∃ t, s.get? (s.size - 1) = some t ∧ t.kind = .semi ∧ s.text t = .ok [';']

/-- The index is one of the stream, or the other stream ends where it does. -/
def Sees (k : Nat) (s s' : TokenStream) (i : Nat) : Prop := i < s.size ∨ s'.size = k + s.size

theorem Sees.get?_eq_none {k i : Nat} {s s' : TokenStream} (h : Sees k s s' i)
    (hget : s.get? i = none) : s'.get? (k + i) = none := by
  have hsize : s.size ≤ i := List.getElem?_eq_none_iff.mp hget
  have hfull := h.resolve_left (Nat.not_lt_of_le hsize)
  refine List.getElem?_eq_none_iff.mpr ?_
  show s'.size ≤ k + i
  omega

namespace Inside

variable {m : Nat → Nat → Prop} {k i : Nat} {s s' : TokenStream} {t : Token}

theorem add_size_le (h : Inside m k s s') (hsize : s.size ≠ 0) : k + s.size ≤ s'.size := by
  obtain ⟨t, ht⟩ := exists_get? (Nat.sub_one_lt hsize)
  obtain ⟨t', ht', -⟩ := h.token _ t ht
  have hlt := lt_of_get? ht'
  omega

theorem lt_size (h : Inside m k s s') (hi : i < s.size) : k + i < s'.size := by
  have hle := h.add_size_le (Nat.ne_zero_of_lt hi)
  omega

/-- The same text is seen at the index. -/
theorem textAt (h : Inside m k s s') (hi : Sees k s s' i) : s'.textAt (k + i) = s.textAt i := by
  cases hget : s.get? i with
  | some t =>
    obtain ⟨t', ht', -, htext, -⟩ := h.token i t hget
    rw [textAt_of_get? hget, textAt_of_get? ht', htext]
  | none =>
    rw [TokenStream.textAt, TokenStream.textAt, hget, hi.get?_eq_none hget]

/-- The same kind is seen at the index. -/
theorem any_kind (h : Inside m k s s') (hi : Sees k s s' i) (kind : TokenKind) :
    (s'.get? (k + i)).any (·.kind = kind) = (s.get? i).any (·.kind = kind) := by
  cases hget : s.get? i with
  | some t =>
    obtain ⟨t', ht', hkind, -⟩ := h.token i t hget
    rw [ht', Option.any_some, Option.any_some, hkind]
  | none =>
    rw [hi.get?_eq_none hget]

/-- Behind a token that is no semicolon the same is seen. -/
theorem sees_succ (h : Inside m k s s') (ht : s.get? i = some t)
    (hne : t.kind ≠ .semi ∨ s.text t ≠ .ok [';']) : Sees k s s' (i + 1) := by
  have hlt := lt_of_get? ht
  rcases h.closed with hfull | ⟨u, hu, hkind, htext⟩
  · exact .inr hfull
  · refine .inl (Nat.lt_of_le_of_ne (Nat.succ_le_of_lt hlt) ?_)
    intro hlast
    have hindex : s.size - 1 = i := by omega
    rw [hindex] at hu
    obtain rfl : t = u := Option.some.inj (ht.symm.trans hu)
    rcases hne with hne | hne
    · exact hne hkind
    · exact hne htext

end Inside

/-- A stream that reads as a part of what another one reads as stands inside it. -/
theorem inside_of_readsAs {m : Nat → Nat → Prop} {s s' : TokenStream} {ls ms ns : List Lexeme}
    (h : s.ReadsAs ls) (h' : s'.ReadsAs (ms ++ ls ++ ns))
    (hm : ∀ i t t', s.get? i = some t → s'.get? (ms.length + i) = some t' →
      m t.span.start t'.span.start ∧ m t.span.stop t'.span.stop)
    (hend : ns = [] ∨ ls.getLast? = some ⟨.semi, [';']⟩) : Inside m ms.length s s' where
  token := by
    intro i t ht
    obtain ⟨l, hl, hkind, htext⟩ := h.exists_getElem? ht
    have hi : i < ls.length := (List.getElem?_eq_some_iff.mp hl).1
    have hl' : (ms ++ ls ++ ns)[ms.length + i]? = some l := by
      rw [List.append_assoc, List.getElem?_append_right (Nat.le_add_right ..),
        Nat.add_sub_cancel_left, List.getElem?_append_left hi, hl]
    obtain ⟨t', ht', hkind', htext'⟩ := h'.getElem? hl'
    exact ⟨t', ht', hkind'.trans hkind.symm, htext'.trans htext.symm, hm i t t' ht ht'⟩
  closed := by
    rcases hend with rfl | hlast
    · left
      rw [h'.size, h.size, List.append_nil, List.length_append]
    · right
      rw [List.getLast?_eq_getElem?, ← h.size] at hlast
      obtain ⟨t, ht, hkind, htext⟩ := h.getElem? hlast
      exact ⟨t, ht, hkind, htext⟩

end TokenStream
end GrammarAtlas
