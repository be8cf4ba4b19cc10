import GrammarAtlas.Proofs.Lexeme.Replace

/-!
# The pieces of a part of a text

A text is cut into pieces from its start on, and what a piece is depends on the text
behind it.  Nevertheless the pieces of a part of a text are the pieces that the whole
text has there, if the part begins where a piece begins and ends where one ends
(`scan_part`).  And a text without anything wrong in it keeps its pieces when a line
feed and another text are put behind it (`scan_append_newline`).
-/

namespace GrammarAtlas
namespace Lexeme

variable {c : Char} {r t u w x : Text} {l m : Lexeme} {ls ms rs : List Lexeme}

/-- The first piece begins with the first character and is cut off the text. -/
theorem exists_piece (c : Char) (t : Text) :
    ∃ k u r, piece c t = (⟨k, c :: u⟩, r) ∧ t = u ++ r := by
  have happend := piece_append c t
  obtain ⟨d, u, hu⟩ := List.exists_cons_of_ne_nil (piece_text_ne_nil c t)
  rw [hu] at happend
  obtain ⟨rfl, ht⟩ := List.cons.inj happend
  exact ⟨(piece d t).1.kind, u, (piece d t).2, by rw [← hu], ht.symm⟩

theorem scan_cons (c : Char) (t : Text) :
    scan (c :: t) = glue (piece c t).1 (scan (piece c t).2) := by
  rw [scan]

/-- Without garbage in front, the pieces are the first one and those of the rest. -/
theorem scan_cons_of_piece {k : TokenKind} (h : piece c (u ++ r) = (⟨k, c :: u⟩, r))
    (hk : k ≠ .garbage) : scan (c :: (u ++ r)) = ⟨k, c :: u⟩ :: scan r := by
  rw [scan_cons, h]
  exact glue_of_ne_garbage hk _

/-- A piece that is put in front of others stays as it is, or is joined with the first of them if
both are garbage. -/
theorem eq_of_mem_glue {p : Lexeme} {ms : List Lexeme} (h : l ∈ glue p ms) :
    l = p ∨ l ∈ ms ∨ ∃ m ∈ ms.head?, p.kind = .garbage ∧ m.kind = .garbage ∧
      l = ⟨.garbage, p.text ++ m.text⟩ := by
  cases ms with
  | nil => exact .inl (List.mem_singleton.mp h)
  | cons m ms =>
    rw [glue] at h
    split_ifs at h with hboth
    · rcases List.mem_cons.mp h with rfl | h
      · exact .inr (.inr ⟨m, rfl, hboth.1, hboth.2, rfl⟩)
      · exact .inr (.inl (List.mem_cons_of_mem m h))
    · rcases List.mem_cons.mp h with rfl | h
      · exact .inl rfl
      · exact .inr (.inl h)

theorem text_ne_nil_of_mem_glue (hl : l.text ≠ []) (hls : ∀ m ∈ ls, m.text ≠ []) :
    ∀ m ∈ glue l ls, m.text ≠ [] := by
  intro m hm
  rcases eq_of_mem_glue hm with rfl | hm | ⟨n, -, -, -, rfl⟩
  · exact hl
  · exact hls m hm
  · exact fun hnil => hl (List.append_eq_nil_iff.mp hnil).1

theorem text_ne_nil_of_mem_scan (t : Text) : ∀ l ∈ scan t, l.text ≠ [] := by
  fun_induction scan t with
  | case1 => exact fun l hl => absurd hl List.not_mem_nil
  | case2 c t ih => exact text_ne_nil_of_mem_glue (piece_text_ne_nil c t) ih

/-- Where pieces are cut behind the first of them, the one that was put in front stays in
front. -/
theorem exists_of_glue_eq (h : glue m ms = l :: (ls ++ rs)) :
    ∃ ns, ms = ns ++ rs ∧ glue m ns = l :: ls := by
  cases ms with
  | nil =>
    obtain ⟨rfl, hnil⟩ := List.cons.inj h
    obtain ⟨rfl, rfl⟩ := List.append_eq_nil_iff.mp hnil.symm
    exact ⟨[], rfl, rfl⟩
  | cons n ns =>
    by_cases hboth : m.kind = .garbage ∧ n.kind = .garbage
    · rw [glue, if_pos hboth] at h
      obtain ⟨rfl, rfl⟩ := List.cons.inj h
      exact ⟨n :: ls, rfl, if_pos hboth⟩
    · rw [glue, if_neg hboth] at h
      obtain ⟨rfl, hns⟩ := List.cons.inj h
      refine ⟨ls, hns, ?_⟩
      cases ls with
      | nil => rfl
      | cons n' ls =>
        obtain ⟨rfl, -⟩ := List.cons.inj hns
        exact if_neg hboth

/-- **The pieces at the front of a text are the pieces of the front.** -/
theorem scan_front : ∀ {x : Text} {ls : List Lexeme}, scan (x ++ w) = ls ++ ms →
    ls.flatMap text = x → scan x = ls
  | [], ls, h, hx => by
    have hall := text_ne_nil_of_mem_scan ([] ++ w)
    cases ls with
    | nil => rw [scan]
    | cons l ls =>
      have hl := hall l (h ▸ List.mem_cons_self)
      exact absurd (List.append_eq_nil_iff.mp hx).1 hl
  | c :: x, ls, h, hx => by
    obtain ⟨l, ls, rfl⟩ := List.exists_cons_of_ne_nil (fun hnil : ls = [] => by simp [hnil] at hx)
    obtain ⟨k, u, rest, hpiece, hsplit⟩ := exists_piece c (x ++ w)
    rw [List.cons_append, scan_cons, hpiece] at h
    obtain ⟨ns, hns, hglue⟩ := exists_of_glue_eq h
    have hx' : u ++ ns.flatMap text = x := by
      have htext := flatMap_text_glue ⟨k, c :: u⟩ ns
      rw [hglue, hx] at htext
      exact (List.cons.inj htext).2.symm
    have hlt : (ns.flatMap text).length < (c :: x).length := by
      rw [← hx', List.length_cons, List.length_append]
      omega
    have hrest : rest = ns.flatMap text ++ w := by
      rw [← hx', List.append_assoc] at hsplit
      exact (List.append_cancel_left hsplit).symm
    rw [← hx', hrest, List.append_assoc] at hpiece
    have hfront := piece_replace hpiece (replaces_of_front (List.prefix_append _ w) _)
    have ih := scan_front (hrest ▸ hns) rfl
    rw [← hx', scan_cons, hfront, ih, hglue]
termination_by x => x.length

/-- **The pieces behind the first are the pieces of what is behind it.** -/
theorem scan_behind (h : scan t = l :: ls) : scan (ls.flatMap text) = ls := by
  fun_induction scan t generalizing l with
  | case1 => cases h
  | case2 c t ih =>
    cases hrest : scan (piece c t).2 with
    | nil =>
      rw [hrest] at h
      obtain ⟨-, rfl⟩ := List.cons.inj h
      rw [List.flatMap_nil, scan]
    | cons m ms =>
      rw [hrest, glue] at h
      split at h
      · obtain ⟨-, rfl⟩ := List.cons.inj h
        exact ih hrest
      · obtain ⟨-, rfl⟩ := List.cons.inj h
        rw [← hrest, flatMap_text_scan]

/-- **The pieces of a part of a text** that begins and ends with pieces are those pieces. -/
theorem scan_part {as bs cs : List Lexeme} (h : scan t = as ++ bs ++ cs) :
    scan (bs.flatMap text) = bs := by
  induction as generalizing t with
  | nil =>
    have ht : bs.flatMap text ++ cs.flatMap text = t := by
      rw [← List.flatMap_append, ← flatMap_text_scan t, h]
      rfl
    exact scan_front (ht ▸ h) rfl
  | cons a as ih =>
    refine ih (t := (as ++ bs ++ cs).flatMap text) ?_
    exact scan_behind h

/-- A piece is the only one of its text; so the text tells the kind. -/
theorem scan_text_of_mem (h : l ∈ scan t) : scan l.text = [l] := by
  obtain ⟨as, bs, hsplit⟩ := List.append_of_mem h
  have hpart : scan t = as ++ [l] ++ bs := by rw [hsplit, List.append_cons]
  simpa using scan_part hpart

/-- A piece that is no garbage is cut off its own text. -/
theorem exists_piece_of_mem_scan (h : l ∈ scan t) (hgarbage : l.kind ≠ .garbage) :
    ∃ c u, l.text = c :: u ∧ (piece c u).1 = l := by
  obtain ⟨c, u, htext⟩ := List.exists_cons_of_ne_nil (text_ne_nil_of_mem_scan t l h)
  have hself := scan_text_of_mem h
  rw [htext, scan_cons, glue.eq_def] at hself
  split at hself
  · exact ⟨c, u, htext, List.singleton_inj.mp hself⟩
  split_ifs at hself
  · obtain ⟨rfl, -⟩ := List.cons.inj hself
    exact absurd rfl hgarbage
  · exact absurd (List.cons.inj hself).2 (List.cons_ne_nil _ _)

/-- A character with nothing behind it is one piece. -/
theorem scan_singleton {k : TokenKind} (h : piece c [] = (⟨k, [c]⟩, [])) :
    scan [c] = [⟨k, [c]⟩] := by
  rw [scan_cons, h, scan]
  rfl

/-- A piece with the text of a character that is a piece by itself is that piece. -/
theorem eq_of_text_singleton {k : TokenKind} (hl : l ∈ scan t) (htext : l.text = [c])
    (hpiece : piece c [] = (⟨k, [c]⟩, [])) : l = ⟨k, [c]⟩ := by
  have hself := scan_text_of_mem hl
  rw [htext, scan_singleton hpiece] at hself
  exact (List.cons.inj hself).1.symm

/-- A star by itself is a piece. -/
theorem scan_star (t : Text) : scan ('*' :: t) = ⟨.op, ['*']⟩ :: scan t := by
  have hpiece : piece '*' ([] ++ t) = (⟨.op, ['*']⟩, t) := by
    rw [List.nil_append, piece_eq_next (by decide), next_eq_punctuation (by decide),
      punctuation_eq fun d _ => by simp [pair?]]
    rfl
  exact scan_cons_of_piece hpiece (by decide)

theorem scan_newline (t : Text) : scan ('\n' :: t) = ⟨.newline, ['\n']⟩ :: scan t := by
  have hpiece : piece '\n' ([] ++ t) = (⟨.newline, ['\n']⟩, t) := rfl
  exact scan_cons_of_piece hpiece (by decide)

/-- Where garbage is the first match, it is the first piece. -/
theorem exists_scan_cons_garbage (h : (piece c t).1.kind = .garbage) :
    ∃ l ls, scan (c :: t) = l :: ls ∧ l.kind = .garbage := by
  rw [scan_cons]
  cases scan (piece c t).2 with
  | nil => exact ⟨_, _, rfl, h⟩
  | cons m ms =>
    rw [glue]
    split
    · exact ⟨_, _, rfl, rfl⟩
    · exact ⟨_, _, rfl, h⟩

/-- **A sound text may go on behind a line feed**: its pieces stay, and those of what is put
there follow. -/
theorem scan_append_newline (hsound : ∀ l ∈ scan t, Sound l)
    (hcomment : (scan t).IsChain fun l m => ¬ (l.text = ['/'] ∧ m.text = ['*'])) (w : Text) :
    scan (t ++ '\n' :: w) = scan t ++ ⟨.newline, ['\n']⟩ :: scan w := by
  fun_induction scan t with
  | case1 => exact scan_newline w
  | case2 c t ih =>
    rw [← scan_cons] at hsound hcomment ⊢
    obtain ⟨k, u, r, hpiece, rfl⟩ := exists_piece c t
    rw [hpiece] at ih
    have hk : k ≠ .garbage := by
      intro hk
      obtain ⟨l, ls, hscan, hl⟩ := exists_scan_cons_garbage (by rw [hpiece]; exact hk)
      exact (hsound l (hscan ▸ List.mem_cons_self)).1 hl
    have hscan := scan_cons_of_piece hpiece hk
    rw [hscan] at hsound hcomment ⊢
    have hstar : c :: u = ['/'] → r.head? ≠ some '*' := by
      intro hslash hhead
      obtain ⟨r', rfl⟩ : ∃ r', r = '*' :: r' := ⟨_, (List.cons_head?_tail hhead).symm⟩
      rw [scan_star] at hcomment
      exact (List.isChain_cons_cons.mp hcomment).1 ⟨hslash, rfl⟩
    have hmore := piece_replace hpiece
      (replaces_append_newline (hsound _ List.mem_cons_self) hstar w)
    have hrest := ih (fun l hl => hsound l (List.mem_cons_of_mem _ hl)) hcomment.tail
    rw [List.cons_append, List.append_assoc, scan_cons_of_piece hmore hk, hrest]
    rfl

end Lexeme
end GrammarAtlas
