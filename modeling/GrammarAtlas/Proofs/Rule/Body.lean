import GrammarAtlas.Proofs.Grammar.Bounds
import GrammarAtlas.Proofs.Rule.Alternative
import GrammarAtlas.Proofs.Rule.Branches

/-!
# The body of a rule

A rule is asked for its alternatives by its tokens: the first colon among them is where
the body begins (`colonAndBody_eq`), and the lexemes of the body that are no blocks
are split at the pipes (`alternatives_eq`).  The tokens of a range are given with their
indices; `indexed_of_get?` takes such a range apart from the front.
-/

namespace GrammarAtlas

variable {s : TokenStream} {i stop : Nat} {t : Token}

namespace TokenStream

/-- The tokens of a range with their indices, without these, are those of the range. -/
theorem map_snd_indexed (s : TokenStream) (start stop : Nat) :
    (s.indexed start stop).map (·.2) = s.slice start stop := by
  rw [indexed, List.map_map]
  exact List.zipIdx_map_fst start _

theorem indexed_of_get? (ht : s.get? i = some t) (hi : i < stop) :
    s.indexed i stop = (i, t) :: s.indexed (i + 1) stop := by
  have hlength : i < (s.tokens.take stop).length := by
    rw [List.length_take]
    have hsize : i < s.tokens.length := (List.getElem?_eq_some_iff.mp ht).1
    omega
  have hget : (s.tokens.take stop)[i] = t := by
    rw [List.getElem_take]
    exact (List.getElem?_eq_some_iff.mp ht).2
  rw [indexed, slice, List.drop_eq_getElem_cons hlength, hget]
  rfl

theorem indexed_of_le (h : stop ≤ i) : s.indexed i stop = [] := by
  have hlength : (s.tokens.take stop).length ≤ i := by
    rw [List.length_take]
    omega
  rw [indexed, slice, List.drop_eq_nil_of_le hlength]
  rfl

theorem indexed_of_size_le (h : s.size ≤ i) : s.indexed i stop = [] := by
  have hlength : (s.tokens.take stop).length ≤ i := by
    rw [List.length_take]
    exact Nat.le_trans (Nat.min_le_right ..) h
  rw [indexed, slice, List.drop_eq_nil_of_le hlength]
  rfl

/-- A range is empty, or begins with a token. -/
theorem indexed_cases (s : TokenStream) (i stop : Nat) :
    s.indexed i stop = [] ∨ ∃ t, i < stop ∧ s.get? i = some t ∧
      s.indexed i stop = (i, t) :: s.indexed (i + 1) stop := by
  by_cases hstop : i < stop
  · by_cases hsize : i < s.size
    · obtain ⟨t, ht⟩ := exists_get? hsize
      exact .inr ⟨t, hstop, ht, indexed_of_get? ht hstop⟩
    · exact .inl (indexed_of_size_le (Nat.le_of_not_lt hsize))
  · exact .inl (indexed_of_le (Nat.le_of_not_lt hstop))

/-- A token of a range is where its index says. -/
theorem get?_of_mem_indexed {i stop : Nat} {p : Nat × Token} (hp : p ∈ s.indexed i stop) :
    s.get? p.1 = some p.2 ∧ i ≤ p.1 ∧ p.1 < stop := by
  obtain hnil | ⟨t, hi, ht, hcons⟩ := s.indexed_cases i stop
  · rw [hnil] at hp
    exact absurd hp List.not_mem_nil
  · rw [hcons] at hp
    rcases List.mem_cons.mp hp with rfl | hp
    · exact ⟨ht, Nat.le_refl i, hi⟩
    · obtain ⟨hget, hle, hlt⟩ := get?_of_mem_indexed hp
      exact ⟨hget, Nat.le_of_succ_le hle, hlt⟩
termination_by stop - i

/-- A token whose index lies in a range is one of the range. -/
theorem mem_indexed {start : Nat} (ht : s.get? i = some t) (hstart : start ≤ i) (hstop : i < stop) :
    (i, t) ∈ s.indexed start stop := by
  obtain ⟨u, hu⟩ := exists_get? (Nat.lt_of_le_of_lt hstart (lt_of_get? ht))
  rw [indexed_of_get? hu (Nat.lt_of_le_of_lt hstart hstop)]
  rcases Nat.eq_or_lt_of_le hstart with rfl | hlt
  · rw [Option.some.inj (ht.symm.trans hu)]
    exact List.mem_cons_self
  · exact List.mem_cons_of_mem _ (mem_indexed ht hlt hstop)
termination_by stop - start

/-- The indices of a range increase. -/
theorem pairwise_indexed (s : TokenStream) (i stop : Nat) :
    (s.indexed i stop).Pairwise fun p q => p.1 < q.1 := by
  obtain hnil | ⟨t, hi, -, hcons⟩ := s.indexed_cases i stop
  · rw [hnil]
    exact .nil
  · rw [hcons]
    refine List.pairwise_cons.mpr ⟨?_, s.pairwise_indexed (i + 1) stop⟩
    intro q hq
    exact (get?_of_mem_indexed hq).2.1
termination_by stop - i

/-- Two ranges, one behind the other. -/
theorem indexed_append {i j stop : Nat} (hij : i ≤ j) (hj : j ≤ stop) :
    s.indexed i stop = s.indexed i j ++ s.indexed j stop := by
  obtain hnil | ⟨t, hi, ht, hcons⟩ := s.indexed_cases i j
  · rw [hnil, List.nil_append]
    rcases Nat.eq_or_lt_of_le hij with rfl | hlt
    · rfl
    · have hsize : s.size ≤ i := by
        by_contra hsize
        obtain ⟨t, ht⟩ := exists_get? (Nat.lt_of_not_le hsize)
        rw [indexed_of_get? ht hlt] at hnil
        exact absurd hnil (List.cons_ne_nil _ _)
      rw [indexed_of_size_le hsize, indexed_of_size_le (Nat.le_trans hsize hij)]
  · rw [hcons, indexed_of_get? ht (Nat.lt_of_lt_of_le hi hj),
      indexed_append (Nat.succ_le_of_lt hi) hj]
    rfl
termination_by j - i

end TokenStream

namespace Rule

/-- What a search for a colon in a range comes to: the first one, with the range behind it,
or none if there is none. -/
structure ColonIn (s : TokenStream) (i stop : Nat) (found : Option (Nat × List (Nat × Token))) :
    Prop where
  first : ∀ c body, found = some (c, body) →
    s.FirstText [':'] i c ∧ c < stop ∧ body = s.indexed (c + 1) stop
  missing : found = none → ∀ j, i ≤ j → j < stop → s.textAt j ≠ .ok [':']

theorem ColonIn.of_succ {found : Option (Nat × List (Nat × Token))}
    (h : ColonIn s (i + 1) stop found) (hi : s.textAt i ≠ .ok [':']) : ColonIn s i stop found where
  first := by
    intro c body hfound
    obtain ⟨hfirst, hc, hbody⟩ := h.first c body hfound
    exact ⟨hfirst.of_succ hi, hc, hbody⟩
  missing := by
    intro hnone j hij hj
    rcases Nat.eq_or_lt_of_le hij with rfl | hlt
    · exact hi
    · exact h.missing hnone j hlt hj

/-- The range is empty: there is no token, or there is none in front of its end. -/
theorem colonIn_none (h : s.indexed i stop = []) : ColonIn s i stop none where
  first := nofun
  missing := by
    rintro - j hij hj htext
    by_cases hsize : j < s.size
    · have hi : i < s.size := Nat.lt_of_le_of_lt hij hsize
      obtain ⟨t, ht⟩ := TokenStream.exists_get? hi
      rw [TokenStream.indexed_of_get? ht (Nat.lt_of_le_of_lt hij hj)] at h
      exact absurd h (List.cons_ne_nil _ _)
    · have hnone : s.get? j = none := List.getElem?_eq_none_iff.mpr (Nat.le_of_not_lt hsize)
      rw [TokenStream.textAt, hnone] at htext
      exact absurd (Except.ok.inj htext) (by decide)

/-- The range begins with a colon. -/
theorem colonIn_self (hsize : i < s.size) (hi : i < stop) (htext : s.textAt i = .ok [':']) :
    ColonIn s i stop (some (i, s.indexed (i + 1) stop)) where
  first := by
    rintro c body ⟨⟩
    exact ⟨TokenStream.firstText_self hsize htext, hi, rfl⟩
  missing := nofun

/-- **The search for a colon in a range finds the first one.** -/
theorem seekColon_indexed_yields (hr : s.Readable) (i stop : Nat) :
    Yields (seekColon s (s.indexed i stop)) (ColonIn s i stop) := by
  obtain hnil | ⟨t, hi, ht, hcons⟩ := s.indexed_cases i stop
  · rw [hnil]
    exact .of_ok (colonIn_none hnil)
  · rw [hcons, seekColon, ← TokenStream.textAt_of_get? ht]
    refine (hr.textAt i).bind ?_
    intro text htext _
    split
    · rename_i hcolon
      exact .of_ok (colonIn_self (TokenStream.lt_of_get? ht) hi (hcolon ▸ htext))
    · rename_i hcolon
      refine (seekColon_indexed_yields hr (i + 1) stop).imp ?_
      intro found hfound
      refine hfound.of_succ ?_
      intro hhere
      exact hcolon (Except.ok.inj (htext.symm.trans hhere))
termination_by stop - i

/-- Where there is a colon among a rule's tokens, the body begins behind the first. -/
theorem colonAndBody_eq (hr : s.Readable) {r : Rule} {c : Nat}
    (hfirst : s.FirstText [':'] r.span.start c) (hc : c < r.span.stop) :
    r.colonAndBody s = .ok (some (c, s.indexed (c + 1) r.span.stop)) := by
  obtain ⟨found, hfound, h⟩ := seekColon_indexed_yields hr r.span.start r.span.stop
  rw [colonAndBody, hfound]
  cases found with
  | none => exact absurd hfirst.text_at (h.missing rfl c hfirst.le hc)
  | some found =>
    obtain ⟨c', body⟩ := found
    obtain ⟨hfirst', -, rfl⟩ := h.first c' body rfl
    obtain rfl : c = c' := hfirst.unique hfirst'
    rfl

/-! ## The lexemes of the body -/

/-- A token with its index is read as a lexeme with the same index. -/
def Lexed (s : TokenStream) (p : Nat × Token) (l : IndexedLexeme) : Prop :=
  l.1 = p.1 ∧ l.2.kind = p.2.kind ∧ s.text p.2 = .ok l.2.text

theorem exists_lexed (hr : s.Readable) (ps : List (Nat × Token)) (hps : ∀ p ∈ ps, p.2 ∈ s.tokens) :
    ∃ ls, List.Forall₂ (Lexed s) ps ls := by
  induction ps with
  | nil => exact ⟨[], .nil⟩
  | cons p ps ih =>
    obtain ⟨text, htext, -⟩ := hr.text (hps p List.mem_cons_self)
    obtain ⟨ls, hls⟩ := ih fun q hq => hps q (List.mem_cons_of_mem p hq)
    exact ⟨(p.1, ⟨p.2.kind, text⟩) :: ls, .cons ⟨rfl, rfl, htext⟩ hls⟩

theorem lexed_eq {i : Nat} {t : Token} {l : IndexedLexeme} (h : Lexed s (i, t) l) :
    (return ((i, ⟨t.kind, ← s.text t⟩) : IndexedLexeme)) = Except.ok (ε := ReadFault) l := by
  obtain ⟨j, kind, text⟩ := l
  obtain ⟨hindex, hkind, htext⟩ := h
  obtain rfl : j = i := hindex
  obtain rfl : kind = t.kind := hkind
  have htext : s.text t = .ok text := htext
  rw [htext]
  rfl

theorem mapM_lexed {ps : List (Nat × Token)} {ls : List IndexedLexeme}
    (h : List.Forall₂ (Lexed s) ps ls) :
    (ps.mapM fun (i, t) => return ((i, ⟨t.kind, ← s.text t⟩) : IndexedLexeme)) = .ok ls :=
  mapM_eq_ok (h.imp fun (_, _) _ hp => lexed_eq hp)

/-- **The alternatives of a rule** are its body split at the pipes, without the blocks. -/
theorem alternatives_eq {r : Rule} {c : Nat} {body : List (Nat × Token)}
    {ls : List IndexedLexeme} (hcolon : r.colonAndBody s = .ok (some (c, body)))
    (hls : List.Forall₂ (Lexed s) (body.filter (·.2.kind ≠ .block)) ls) :
    r.alternatives s = .ok ((Branches.split 0 [] ls).map fun branch => ⟨branch.map (·.1)⟩) := by
  have hmap := mapM_lexed hls
  rw [alternatives, hcolon]
  simp only [bind, Except.bind] at hmap ⊢
  rw [hmap]
  rfl

variable {r : Rule} {c : Nat} {as : List Alternative}

/-- The alternatives of a rule whose body begins behind the token `c` are made of lexemes
of the body. -/
theorem exists_lexemes_of_alternatives (hr : s.Readable)
    (hbody : r.colonAndBody s = .ok (some (c, s.indexed (c + 1) r.span.stop)))
    (has : r.alternatives s = .ok as) :
    ∃ ls, List.Forall₂ (Lexed s)
        ((s.indexed (c + 1) r.span.stop).filter (·.2.kind ≠ .block)) ls ∧
      as = (Branches.split 0 [] ls).map fun branch => ⟨branch.map (·.1)⟩ := by
  obtain ⟨ls, hls⟩ := exists_lexed hr
    ((s.indexed (c + 1) r.span.stop).filter (·.2.kind ≠ .block))
    fun p hp => TokenStream.mem_of_mem_indexed (List.mem_of_mem_filter hp)
  exact ⟨ls, hls, (Except.ok.inj ((alternatives_eq hbody hls).symm.trans has)).symm⟩

/-- The tokens of the alternatives are tokens of the body. -/
theorem mem_range_of_alternatives (hr : s.Readable)
    (hbody : r.colonAndBody s = .ok (some (c, s.indexed (c + 1) r.span.stop)))
    (has : r.alternatives s = .ok as) {a : Alternative} (ha : a ∈ as) {i : Nat}
    (hi : i ∈ a.indices) : c < i ∧ i < r.span.stop := by
  obtain ⟨ls, hls, rfl⟩ := exists_lexemes_of_alternatives hr hbody has
  obtain ⟨branch, hbranch, rfl⟩ := List.mem_map.mp ha
  obtain ⟨l, hl, rfl⟩ := List.mem_map.mp hi
  have hmem := Branches.mem_of_mem_split hbranch hl
  rw [List.nil_append] at hmem
  obtain ⟨p, hp, hindex, -⟩ := exists_of_mem_right hls hmem
  obtain ⟨-, hle, hlt⟩ := TokenStream.get?_of_mem_indexed (List.mem_of_mem_filter hp)
  rw [hindex]
  exact ⟨hle, hlt⟩

/-- The tokens of an alternative stand in their order. -/
theorem increasing_of_alternatives (hr : s.Readable)
    (hbody : r.colonAndBody s = .ok (some (c, s.indexed (c + 1) r.span.stop)))
    (has : r.alternatives s = .ok as) {a : Alternative} (ha : a ∈ as) :
    a.indices.Pairwise (· < ·) := by
  obtain ⟨ls, hls, rfl⟩ := exists_lexemes_of_alternatives hr hbody has
  obtain ⟨branch, hbranch, rfl⟩ := List.mem_map.mp ha
  have hindices := map_eq_map_of_forall₂ (hls.imp fun _ _ hp => hp.1.symm)
  have hls : (ls.map (·.1)).Pairwise (· < ·) := by
    rw [← hindices]
    exact List.pairwise_map.mpr ((s.pairwise_indexed (c + 1) r.span.stop).filter _)
  exact hls.sublist ((Branches.sublist_of_mem_split hbranch).map _)

end Rule
end GrammarAtlas
