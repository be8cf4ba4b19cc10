import GrammarAtlas.Proofs.Rule.Inside
import GrammarAtlas.Proofs.Token.Excerpt
import GrammarAtlas.Proofs.Token.Tiling

/-!
# The texts of a rule in an excerpt

An alternative of a rule has texts: those of its tokens, that of all of it and that of what
follows its first token.  In an excerpt of a stream it reads as it does in the stream
(`readsAlike_moved`), since its tokens are in order and what stands between two of them is a
part of the excerpt.  So the body without left recursion, which is put together from these
texts, is the same as well (`exists_leftRecursionRemoved_moved`).
-/

namespace GrammarAtlas

open TokenStream

namespace Alternative

/-- **The alternatives of two streams read alike**: neither comes to a fault, and what is
read is the same. -/
structure ReadsAlike (s s' : TokenStream) (a a' : Alternative) : Prop where
  texts : ∃ texts, a.texts s = .ok texts ∧ a'.texts s' = .ok texts
  text : ∃ text, a.text s = .ok text ∧ a'.text s' = .ok text
  suffix : ∃ suffix, a.suffixText? s = .ok suffix ∧ a'.suffixText? s' = .ok suffix
  starts : ∀ name, ∃ b, a.startsWith s name = .ok b ∧ a'.startsWith s' name = .ok b

variable {m : Nat → Nat → Prop} {k bytes i : Nat} {s s' : TokenStream} {a : Alternative}
  {is : List Nat}

/-- Between two tokens of the excerpt there is a text, and it is the same in the whole. -/
def Spans (k : Nat) (s s' : TokenStream) : Prop :=
  ∀ i j, i ≤ j → j < s.size →
    ∃ text, s.textBetween i j = .ok text ∧ s'.textBetween (k + i) (k + j) = .ok text

theorem spans_of_excerpt {source : Text} (h : Excerpt k bytes (lex source) s') :
    Spans k (lex source) s' := by
  intro i j hij hj
  obtain ⟨_, text, -, htext, -⟩ := lex_textBetween source hij hj
  exact ⟨text, htext, h.textBetween (Nat.lt_of_le_of_lt hij hj) hj htext⟩

/-- The first of some increasing numbers is no greater than the last. -/
theorem le_getLast_of_pairwise (h : (i :: is).Pairwise (· < ·)) :
    i ≤ (i :: is).getLast (List.cons_ne_nil i is) := by
  rcases List.mem_cons.mp (List.getLast_mem (List.cons_ne_nil i is)) with hlast | hlast
  · exact Nat.le_of_eq hlast.symm
  · exact Nat.le_of_lt ((List.pairwise_cons.mp h).1 _ hlast)

/-- From one of some increasing tokens to the last of them there is a text. -/
theorem Spans.getLast (h : Spans k s s') (hsize : ∀ j ∈ i :: is, j < s.size)
    (hincreasing : (i :: is).Pairwise (· < ·)) :
    ∃ found, s.textBetween i ((i :: is).getLast (List.cons_ne_nil i is)) = .ok found ∧
      s'.textBetween (k + i) (((i :: is).map (k + ·)).getLast (List.cons_ne_nil _ _)) =
        .ok found := by
  rw [List.getLast_map]
  exact h i _ (le_getLast_of_pairwise hincreasing)
    (hsize _ (List.getLast_mem (List.cons_ne_nil i is)))

theorem text_cons (i : Nat) (is : List Nat) (s : TokenStream) :
    text ⟨i :: is⟩ s = s.textBetween i ((i :: is).getLast (List.cons_ne_nil i is)) := by
  rw [text, last?, List.getLast?_eq_some_getLast (List.cons_ne_nil i is)]
  rfl

theorem suffixText?_cons (i j l : Nat) (is : List Nat) (s : TokenStream) :
    suffixText? ⟨i :: j :: l :: is⟩ s =
      some <$> s.textBetween j ((j :: l :: is).getLast (List.cons_ne_nil _ _)) := by
  rw [List.getLast_cons_cons]
  rfl

theorem texts_moved (h : Inside m k s s') (hsize : ∀ i ∈ is, i < s.size) :
    (moved k ⟨is⟩).texts s' = texts ⟨is⟩ s := by
  induction is with
  | nil => rfl
  | cons i is ih =>
    have ih := ih fun j hj => hsize j (List.mem_cons_of_mem i hj)
    simp only [texts, moved] at ih ⊢
    rw [List.map_cons, List.mapM_cons, List.mapM_cons, ih,
      h.textAt (.inl (hsize i List.mem_cons_self))]

theorem exists_text_moved (h : Spans k s s') (hsize : ∀ i ∈ is, i < s.size)
    (hincreasing : is.Pairwise (· < ·)) :
    ∃ found, text ⟨is⟩ s = .ok found ∧ (moved k ⟨is⟩).text s' = .ok found := by
  cases is with
  | nil => exact ⟨[], rfl, rfl⟩
  | cons i is =>
    obtain ⟨found, hfound, hfound'⟩ := h.getLast hsize hincreasing
    refine ⟨found, (text_cons i is s).trans hfound, ?_⟩
    exact (text_cons (k + i) (is.map (k + ·)) s').trans hfound'

theorem exists_suffixText?_moved (hin : Inside m k s s') (hr : s.Readable) (h : Spans k s s')
    (hsize : ∀ i ∈ is, i < s.size) (hincreasing : is.Pairwise (· < ·)) :
    ∃ found, suffixText? ⟨is⟩ s = .ok found ∧ (moved k ⟨is⟩).suffixText? s' = .ok found := by
  match is with
  | [] => exact ⟨none, rfl, rfl⟩
  | [_] => exact ⟨none, rfl, rfl⟩
  | [_, j] =>
    obtain ⟨found, hfound, -⟩ := hr.textAt j
    have hfound' := (hin.textAt (.inl (hsize j (by simp)))).trans hfound
    refine ⟨some found, ?_, ?_⟩
    · show some <$> s.textAt j = _
      rw [hfound]
      rfl
    · show some <$> s'.textAt (k + j) = _
      rw [hfound']
      rfl
  | i :: j :: l :: is =>
    obtain ⟨found, hfound, hfound'⟩ := h.getLast
      (fun n hn => hsize n (List.mem_cons_of_mem i hn)) hincreasing.tail
    refine ⟨some found, ?_, ?_⟩
    · rw [suffixText?_cons, hfound]
      rfl
    · refine (suffixText?_cons (k + i) (k + j) (k + l) (is.map (k + ·)) s').trans ?_
      exact congrArg (some <$> ·) hfound'

theorem exists_startsWith_moved (h : Inside m k s s') (hr : s.Readable)
    (ha : ∀ i ∈ a.indices, i < s.size) (name : Text) :
    ∃ b, a.startsWith s name = .ok b ∧ (a.moved k).startsWith s' name = .ok b := by
  obtain ⟨b, hb, -⟩ := a.startsWith_yields hr name
  exact ⟨b, hb, (Rule.startsWith_moved h ha name).trans hb⟩

/-- **An alternative of an excerpt reads as it does in the whole.** -/
theorem readsAlike_moved {source : Text} (h : Excerpt k bytes (lex source) s')
    (ha : ∀ i ∈ a.indices, i < (lex source).size) (hincreasing : a.indices.Pairwise (· < ·)) :
    ReadsAlike (lex source) s' a (a.moved k) where
  texts := by
    have htexts : Yields (a.texts (lex source)) fun _ => True :=
      (Yields.mapM (T := fun _ _ => True) fun i _ => (readable_lex source).textAt i).imp
        fun _ _ => trivial
    obtain ⟨texts, htexts, -⟩ := htexts
    exact ⟨texts, htexts, (texts_moved h.inside ha).trans htexts⟩
  text := exists_text_moved (spans_of_excerpt h) ha hincreasing
  suffix := exists_suffixText?_moved h.inside (readable_lex source) (spans_of_excerpt h) ha
    hincreasing
  starts := exists_startsWith_moved h.inside (readable_lex source) ha

end Alternative

namespace Rule

variable {k : Nat} {s s' : TokenStream} {r r' : Rule} {as : List Alternative}

/-- Alternatives that read alike are sorted alike into heads and tails. -/
theorem exists_regroup_moved (hname : r'.name = r.name)
    (h : ∀ a ∈ as, Alternative.ReadsAlike s s' a (a.moved k)) :
    ∃ parts, r.regroup s as = .ok parts ∧ r'.regroup s' (as.map (·.moved k)) = .ok parts := by
  induction as with
  | nil => exact ⟨([], []), rfl, rfl⟩
  | cons a as ih =>
    obtain ⟨⟨heads, tails⟩, hrest, hrest'⟩ := ih fun b hb => h b (List.mem_cons_of_mem a hb)
    have ha := h a List.mem_cons_self
    obtain ⟨head, hhead, hhead'⟩ := ha.text
    obtain ⟨tail, htail, htail'⟩ := ha.suffix
    obtain ⟨starts, hstarts, hstarts'⟩ := ha.starts r.name
    have hempty : (a.moved k).isEmpty = a.isEmpty := List.isEmpty_map
    rw [List.map_cons, regroup, regroup, hempty, hname, hrest, hrest', hhead, hhead', htail, htail',
      hstarts, hstarts']
    cases a.isEmpty <;> cases starts <;> exact ⟨_, rfl, rfl⟩

/-- **The body without left recursion is the same in the whole.** -/
theorem exists_leftRecursionRemoved_moved (hname : r'.name = r.name)
    (has : r.alternatives s = .ok as) (has' : r'.alternatives s' = .ok (as.map (·.moved k)))
    (h : ∀ a ∈ as, Alternative.ReadsAlike s s' a (a.moved k)) :
    ∃ text, r.leftRecursionRemoved s = .ok text ∧ r'.leftRecursionRemoved s' = .ok text := by
  obtain ⟨⟨heads, tails⟩, hparts, hparts'⟩ := exists_regroup_moved hname h
  rw [leftRecursionRemoved, leftRecursionRemoved, has, has']
  simp only [bind, Except.bind, hparts, hparts']
  exact ⟨_, rfl, rfl⟩

end Rule
end GrammarAtlas
