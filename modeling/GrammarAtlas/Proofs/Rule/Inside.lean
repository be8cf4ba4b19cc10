import GrammarAtlas.Proofs.Rule.Body
import GrammarAtlas.Proofs.Rule.Branches
import GrammarAtlas.Proofs.Token.Inside

/-!
# A rule of a stream inside another one

A rule has only indices of tokens, so it can be moved along when its stream becomes a part
of another one.  It then has the same alternatives, moved along as well
(`alternatives_moved`), and it is left recursive if it was so before (`completed_moved`).
-/

namespace GrammarAtlas

/-- The span that many tokens further on. -/
def RuleSpan.moved (k : Nat) (s : RuleSpan) : RuleSpan := ⟨k + s.start, k + s.colon, k + s.stop⟩

/-- The rule that many tokens further on. -/
def Rule.moved (k : Nat) (r : Rule) : Rule := { r with span := r.span.moved k }

/-- The alternative that many tokens further on. -/
def Alternative.moved (k : Nat) (a : Alternative) : Alternative := ⟨a.indices.map (k + ·)⟩

theorem RuleSpan.moved_zero (s : RuleSpan) : s.moved 0 = s := by
  simp [moved]

theorem Rule.moved_zero (r : Rule) : r.moved 0 = r := by
  rw [moved, RuleSpan.moved_zero]

theorem Alternative.moved_zero (a : Alternative) : a.moved 0 = a := by
  simp [moved]

theorem Rule.map_moved_zero (rules : List Rule) : rules.map (·.moved 0) = rules := by
  rw [List.map_congr_left fun r _ => r.moved_zero, List.map_id']

theorem Alternative.map_moved_zero (as : List Alternative) : as.map (·.moved 0) = as := by
  rw [List.map_congr_left fun a _ => a.moved_zero, List.map_id']

theorem RuleSpan.ordered_moved {s : RuleSpan} (k : Nat) (h : s.Ordered) : (s.moved k).Ordered := by
  obtain ⟨hstart, hcolon⟩ := h
  exact ⟨Nat.add_le_add_left hstart k, Nat.add_lt_add_left hcolon k⟩

namespace TokenStream

variable {m : Nat → Nat → Prop} {k i j : Nat} {s s' : TokenStream}

/-- The same token with its index, in another stream and that many tokens further on. -/
structure Shifted (k : Nat) (s s' : TokenStream) (p p' : Nat × Token) : Prop where
  index : p'.1 = k + p.1
  kind : p'.2.kind = p.2.kind
  text : s'.text p'.2 = s.text p.2

theorem map_index_shifted {ps ps' : List (Nat × Token)}
    (h : List.Forall₂ (Shifted k s s') ps ps') : (ps.map fun p => k + p.1) = ps'.map (·.1) :=
  map_eq_map_of_forall₂ (h.imp fun _ _ hp => hp.index.symm)

namespace Inside

theorem firstText {text : Text} (h : Inside m k s s') (hfirst : s.FirstText text i j) :
    s'.FirstText text (k + i) (k + j) where
  le := Nat.add_le_add_left hfirst.le k
  lt_size := h.lt_size hfirst.lt_size
  text_at := (h.textAt (.inl hfirst.lt_size)).trans hfirst.text_at
  none_before := by
    intro n hn hn'
    obtain ⟨n, rfl⟩ := Nat.exists_eq_add_of_le (Nat.le_trans (Nat.le_add_right k i) hn)
    have hj := hfirst.lt_size
    rw [h.textAt (.inl (by omega))]
    exact hfirst.none_before n (by omega) (by omega)

/-- The tokens of a range are the same. -/
theorem indexed {i stop : Nat} (h : Inside m k s s') (hstop : stop ≤ s.size) :
    List.Forall₂ (Shifted k s s') (s.indexed i stop) (s'.indexed (k + i) (k + stop)) := by
  by_cases hi : i < stop
  · obtain ⟨t, ht⟩ := exists_get? (Nat.lt_of_lt_of_le hi hstop)
    obtain ⟨t', ht', hkind, htext, -⟩ := h.token i t ht
    rw [indexed_of_get? ht hi, indexed_of_get? ht' (Nat.add_lt_add_left hi k)]
    exact .cons ⟨rfl, hkind, htext⟩ (h.indexed hstop)
  · rw [indexed_of_le (Nat.le_of_not_lt hi), indexed_of_le (by omega)]
    exact .nil
termination_by stop - i

end Inside
end TokenStream

namespace Rule

open TokenStream

variable {m : Nat → Nat → Prop} {k c : Nat} {s s' : TokenStream} {r : Rule} {as : List Alternative}

theorem lexed_shifted {ps ps' : List (Nat × Token)} {ls : List IndexedLexeme}
    (hls : List.Forall₂ (Lexed s) ps ls) (h : List.Forall₂ (Shifted k s s') ps ps') :
    List.Forall₂ (Lexed s') ps' (ls.map (Prod.map (k + ·) id)) := by
  induction hls generalizing ps' with
  | nil =>
    cases h
    exact .nil
  | cons hp _ ih =>
    cases h with
    | cons hp' hrest =>
      obtain ⟨hindex, hkind, htext⟩ := hp
      refine .cons ⟨?_, hkind.trans hp'.kind.symm, hp'.text.trans htext⟩ (ih hrest)
      show k + _ = _
      rw [hindex, hp'.index]

/-- **A moved rule has its alternatives moved.** -/
theorem alternatives_moved (h : Inside m k s s') (hr : s.Readable) (hr' : s'.Readable)
    (hfirst : s.FirstText [':'] r.span.start c) (hc : c < r.span.stop)
    (hstop : r.span.stop ≤ s.size) (has : r.alternatives s = .ok as) :
    (r.moved k).alternatives s' = .ok (as.map (·.moved k)) := by
  have hbody := colonAndBody_eq hr hfirst hc
  have hfirst' : s'.FirstText [':'] (r.moved k).span.start (k + c) := h.firstText hfirst
  have hbody' := colonAndBody_eq hr' hfirst' (Nat.add_lt_add_left hc k)
  obtain ⟨ls, hls, rfl⟩ := exists_lexemes_of_alternatives hr hbody has
  have hshifted := h.indexed (i := c + 1) hstop
  have hkept : List.Forall₂ (Shifted k s s')
      ((s.indexed (c + 1) r.span.stop).filter (·.2.kind ≠ .block))
      ((s'.indexed (k + c + 1) (k + r.span.stop)).filter (·.2.kind ≠ .block)) := by
    refine List.rel_filter ?_ hshifted
    intro p p' hp
    simp only [hp.kind]
  have hsplit : Branches.split 0 [] (ls.map (Prod.map (k + ·) id)) =
      (Branches.split 0 [] ls).map (List.map (Prod.map (k + ·) id)) := by
    rw [← Branches.split_map, List.map_nil]
  rw [alternatives_eq hbody' (lexed_shifted hls hkept), hsplit, List.map_map, List.map_map]
  refine congrArg Except.ok (List.map_congr_left fun branch _ => ?_)
  simp [Alternative.moved]

/-- An alternative starts with a name where it started with it before. -/
theorem startsWith_moved (h : Inside m k s s') {a : Alternative}
    (ha : ∀ i ∈ a.indices, i < s.size) (name : Text) :
    (a.moved k).startsWith s' name = a.startsWith s name := by
  obtain ⟨indices⟩ := a
  cases indices with
  | nil => rfl
  | cons i indices =>
    have htext := h.textAt (.inl (ha i List.mem_cons_self))
    simp only [Alternative.startsWith, Alternative.first?, Alternative.moved, List.map_cons,
      List.head?_cons, htext]

/-- A search through moved alternatives for one that starts with a name. -/
theorem anyM_startsWith_moved (h : Inside m k s s')
    (has : ∀ a ∈ as, ∀ i ∈ a.indices, i < s.size) (name : Text) :
    (as.map (·.moved k)).anyM (·.startsWith s' name) = as.anyM (·.startsWith s name) := by
  induction as with
  | nil => rfl
  | cons a as ih =>
    rw [List.map_cons, List.anyM, List.anyM, startsWith_moved h (has a List.mem_cons_self),
      ih fun b hb => has b (List.mem_cons_of_mem a hb)]

/-- **A moved rule is left recursive** if the rule is so where it was. -/
theorem completed_moved (h : Inside m k s s') (hr : s.Readable) (hr' : s'.Readable)
    (hfirst : s.FirstText [':'] r.span.start c) (hc : c < r.span.stop)
    (hstop : r.span.stop ≤ s.size) {r' : Rule} (hdone : r.completed s = .ok r') :
    (r.moved k).completed s' = .ok (r'.moved k) := by
  obtain ⟨as, has, -⟩ := alternatives_yields hr r
  have hmoved := alternatives_moved h hr hr' hfirst hc hstop has
  have hinside : ∀ a ∈ as, ∀ i ∈ a.indices, i < s.size := fun a ha i hi =>
    Nat.lt_of_lt_of_le
      (mem_range_of_alternatives hr (colonAndBody_eq hr hfirst hc) has ha hi).2 hstop
  have hdetect : (r.moved k).detectLeftRecursion s' = r.detectLeftRecursion s := by
    rw [detectLeftRecursion, detectLeftRecursion, has, hmoved]
    exact anyM_startsWith_moved h hinside r.name
  obtain ⟨b, hb, hdone⟩ := exists_of_bind_ok hdone
  cases hdone
  rw [completed, hdetect, hb]
  rfl

end Rule
end GrammarAtlas
