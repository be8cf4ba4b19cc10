import GrammarAtlas.Proofs.Grammar.Scan

/-!
# The scan, step by step

Each search of the scan is a recursion over the indices of a stream.  What it does at one
index is told here as an equation, in which the token or the text at the index is given
(`skipThroughBlock_of_get?`, `ruleBounds_of_textAt`, `scanFrom_of_visit`); with it a search
in one stream can be followed in another.  The search for a text needs no steps, since
there is only one thing that it can come to (`findText_of_searched`); and so the bounds of a rule
are the only ones (`BoundsFrom.unique`).
-/

namespace GrammarAtlas
namespace TokenStream

variable {s : TokenStream} {t : Token} {text name : Text} {i j : Nat}

/-! ## The searches -/

/-- A search comes to one thing only. -/
theorem Searched.unique {found found' : Option Nat} (h : s.Searched text i found)
    (h' : s.Searched text i found') : found = found' := by
  cases found with
  | none =>
    cases found' with
    | none => rfl
    | some j =>
      have hfirst := h'.first j rfl
      exact absurd hfirst.text_at (h.missing rfl j hfirst.le hfirst.lt_size)
  | some j =>
    have hfirst := h.first j rfl
    cases found' with
    | none => exact absurd hfirst.text_at (h'.missing rfl j hfirst.le hfirst.lt_size)
    | some j' => rw [hfirst.unique (h'.first j' rfl)]

theorem FirstText.searched (h : s.FirstText text i j) : s.Searched text i (some j) :=
  ⟨fun _ hj => Option.some.inj hj ▸ h, nofun⟩

theorem NoText.searched (h : s.NoText text i) : s.Searched text i none := ⟨nofun, fun _ => h⟩

theorem findText_of_searched (hr : s.Readable) {found : Option Nat}
    (h : s.Searched text i found) : s.findText text i = .ok found := by
  obtain ⟨found', hfind, hfound⟩ := findText_yields hr text i
  rwa [h.unique hfound]

theorem findText_of_firstText (hr : s.Readable) (h : s.FirstText text i j) :
    s.findText text i = .ok (some j) := findText_of_searched hr h.searched

theorem findText_of_noText (hr : s.Readable) (h : s.NoText text i) :
    s.findText text i = .ok none := findText_of_searched hr h.searched

theorem skipThroughBlock_of_get? (ht : s.get? i = some t) :
    s.skipThroughBlock i =
      if t.kind = .block then i + 1
      else if t.kind = .semi ∨ t.kind = .colon then i
      else s.skipThroughBlock (i + 1) := by
  rw [skipThroughBlock]
  split
  · rename_i hnone
    rw [ht] at hnone
    cases hnone
  · rename_i u hu
    obtain rfl : t = u := Option.some.inj (ht.symm.trans hu)
    rfl

theorem skipThroughBlock_of_none (h : s.get? i = none) : s.skipThroughBlock i = i := by
  rw [skipThroughBlock]
  split
  · rfl
  · rename_i u hu
    rw [h] at hu
    cases hu

theorem skipThroughBlock_le (hi : i ≤ s.size) : s.skipThroughBlock i ≤ s.size := by
  have hend := actionEnd_skipThroughBlock hi
  generalize s.skipThroughBlock i = j at hend ⊢
  cases hend with
  | block _ hu _ _ => exact lt_of_get? hu
  | mark _ hu _ _ => exact Nat.le_of_lt (lt_of_get? hu)
  | missing _ => exact Nat.le_refl _

theorem ruleBounds_of_textAt {colon : Option Nat} (hi : i < s.size)
    (htext : s.textAt i = .ok text) :
    s.ruleBounds colon i =
      if text = [':'] ∧ colon = none then s.ruleBounds (some i) (i + 1)
      else if text = [';'] then .ok (colon, some i)
      else if text = "scope".toList ∧ colon = none ∧ (s.get? (i + 1)).any (·.kind = .id) then do
        match ← s.findText [';'] (i + 1) with
        | none => return (colon, none)
        | some semi => s.ruleBounds colon (semi + 1)
      else s.ruleBounds colon (i + 1) := by
  rw [ruleBounds, if_pos hi, htext]
  show (if _ then _ else _) = _
  split_ifs
  · rfl
  · rfl
  · split <;> rename_i hfind <;> rw [hfind] <;> rfl
  · rfl

/-- Behind the end there are no bounds any more. -/
theorem ruleBounds_of_size_le {colon : Option Nat} (hi : s.size ≤ i) :
    s.ruleBounds colon i = .ok (colon, none) := by
  rw [ruleBounds, if_neg (Nat.not_lt_of_le hi)]
  rfl

/-- Passing over a prelude makes no difference to the search. -/
theorem ruleBounds_of_prelude (hr : s.Readable) (h : s.Prelude i j) :
    s.ruleBounds none i = s.ruleBounds none j := by
  induction h with
  | here i => rfl
  | @token i j hi hcolon hsemi hopens _ ih =>
    obtain ⟨text, htext, -⟩ := hr.textAt i
    rw [htext] at hcolon hsemi
    rw [ruleBounds_of_textAt hi htext, if_neg fun h => hcolon (congrArg _ h.1),
      if_neg fun h => hsemi (congrArg _ h), if_neg, ih]
    rintro ⟨rfl, -, hid⟩
    obtain ⟨t, ht, hid⟩ := (Option.any_eq_true _ _).mp hid
    exact hopens ⟨htext, t, ht, of_decide_eq_true hid⟩
  | @clause i semi j hopens hsemi _ ih =>
    obtain ⟨htext, t, ht, hid⟩ := hopens
    have hi : i < s.size := Nat.lt_of_succ_lt (lt_of_get? ht)
    have hany : (s.get? (i + 1)).any (·.kind = .id) = true := by
      rw [ht]
      exact decide_eq_true hid
    rw [ruleBounds_of_textAt hi htext, if_neg (by decide), if_neg (by decide),
      if_pos ⟨rfl, rfl, hany⟩, findText_of_firstText hr hsemi]
    exact ih

/-- At the colon that a prelude leads to, the search is one for the semicolon. -/
theorem ruleBounds_of_colon (hr : s.Readable) {colon : Nat} (hprelude : s.Prelude i colon)
    (hcolon : s.textAt colon = .ok [':']) {stop : Option Nat}
    (hstop : s.Searched [';'] (colon + 1) stop) :
    s.ruleBounds none i = .ok (some colon, stop) := by
  obtain ⟨⟨_, found⟩, hfind, rfl, hfound⟩ := ruleBounds_some_yields hr colon (colon + 1)
  obtain rfl := hstop.unique hfound
  have hlt := lt_size_of_textAt hcolon (List.cons_ne_nil _ _)
  rw [ruleBounds_of_prelude hr hprelude, ruleBounds_of_textAt hlt hcolon, if_pos ⟨rfl, rfl⟩, hfind]

/-- **What there is of a rule is what the search finds.** -/
theorem ruleBounds_of_boundsFrom {bounds : Option Nat × Option Nat} (hr : s.Readable)
    (h : s.BoundsFrom i bounds) : s.ruleBounds none i = .ok bounds := by
  cases h with
  | both hprelude hcolon hsemi =>
    exact ruleBounds_of_colon hr hprelude hcolon hsemi.searched
  | unended hprelude hcolon hnone =>
    exact ruleBounds_of_colon hr hprelude hcolon hnone.searched
  | uncoloned hprelude hlt hsemi =>
    rw [ruleBounds_of_prelude hr hprelude, ruleBounds_of_textAt hlt hsemi, if_neg (by decide),
      if_pos rfl]
  | @unendedClause j hprelude hopens hnone =>
    obtain ⟨htext, t, ht, hid⟩ := hopens
    have hany : (s.get? (j + 1)).any (·.kind = .id) = true := by
      rw [ht]
      exact decide_eq_true hid
    have hlt := Nat.lt_of_succ_lt (lt_of_get? ht)
    rw [ruleBounds_of_prelude hr hprelude, ruleBounds_of_textAt hlt htext, if_neg (by decide),
      if_neg (by decide), if_pos ⟨rfl, rfl, hany⟩, findText_of_noText hr hnone]
    rfl
  | neither hprelude =>
    rw [ruleBounds_of_prelude hr hprelude, ruleBounds_of_size_le (Nat.le_refl _)]

/-- There is only one such pair of bounds. -/
theorem BoundsFrom.unique {bounds bounds' : Option Nat × Option Nat} (hr : s.Readable)
    (h : s.BoundsFrom i bounds) (h' : s.BoundsFrom i bounds') : bounds = bounds' :=
  Except.ok.inj ((ruleBounds_of_boundsFrom hr h).symm.trans (ruleBounds_of_boundsFrom hr h'))

/-! ## The looks -/

/-- Settings are a word and the block behind it. -/
theorem lt_size_of_settings (h : s.opening i t = .ok .settings) : i + 1 < s.size := by
  obtain ⟨text, -, h⟩ := exists_of_bind_ok h
  split at h
  · cases h
  split at h
  · cases h
  obtain ⟨header, -, h⟩ := exists_of_bind_ok h
  split at h
  · cases h
  split at h
  · rename_i hsettings
    obtain ⟨u, hu, -⟩ := (Option.any_eq_true _ _).mp hsettings.2
    exact lt_of_get? hu
  split at h
  · cases h
  split at h <;> cases h

/-- A semicolon starts nothing. -/
theorem opening_of_semi (hkind : t.kind = .semi) {opening : Opening}
    (h : s.opening i t = .ok opening) : opening = .stray := by
  obtain ⟨text, -, h⟩ := exists_of_bind_ok h
  rw [hkind, if_neg (by decide), if_pos (by decide)] at h
  cases h
  rfl

variable {v : Visit}

/-- A look behind which the scan does not go on has something to report. -/
theorem reports_ne_nil_of_visit_none (hr : s.Readable) (hf : s.Forward) (ht : s.get? i = some t)
    (hvisit : s.visit i t = .ok (v, none)) : v.reports ≠ [] := by
  have hi := lt_of_get? ht
  obtain ⟨opening, -, hvisit⟩ := exists_of_bind_ok hvisit
  cases opening with
  | header =>
    obtain ⟨j, -, hvisit⟩ := exists_of_bind_ok hvisit
    cases hvisit
  | settings => cases hvisit
  | action => cases hvisit
  | modifier => cases hvisit
  | stray => cases hvisit
  | rule name =>
    obtain ⟨⟨colon, stop⟩, -, hvisit⟩ := exists_of_bind_ok hvisit
    cases stop with
    | none =>
      obtain ⟨ds, hds, hvisit⟩ := exists_of_bind_ok hvisit
      cases hvisit
      obtain ⟨_, hds', range, -, -, rfl⟩ := malformed_yields hr hf (Nat.le_sub_one_of_lt hi)
        (Nat.sub_one_lt_of_lt hi) name
      rw [Except.ok.inj (hds.symm.trans hds')]
      exact List.cons_ne_nil _ _
    | some stop =>
      cases colon with
      | none =>
        obtain ⟨ds, -, hvisit⟩ := exists_of_bind_ok hvisit
        cases hvisit
      | some colon =>
        obtain ⟨rules, -, hvisit⟩ := exists_of_bind_ok hvisit
        cases hvisit

theorem scanFrom_of_size_le (hi : s.size ≤ i) : s.scanFrom i = .ok [] := by
  rw [scanFrom]
  split
  · rfl
  · rename_i t ht
    exact absurd (lt_of_get? ht) (Nat.not_lt_of_le hi)

/-- The scan goes on where a look says. -/
theorem scanFrom_of_visit (ht : s.get? i = some t) (hvisit : s.visit i t = .ok (v, some j)) :
    s.scanFrom i = (do return v :: (← s.scanFrom j)) := by
  rw [scanFrom]
  split
  · rename_i hnone
    rw [ht] at hnone
    cases hnone
  · rename_i u hu
    obtain rfl : t = u := Option.some.inj (ht.symm.trans hu)
    split <;> rename_i hother <;> rw [hvisit] at hother <;> cases hother
    rfl

/-- The scan is over with a look that does not say where it goes on. -/
theorem scanFrom_of_visit_none (ht : s.get? i = some t) (hvisit : s.visit i t = .ok (v, none)) :
    s.scanFrom i = .ok [v] := by
  rw [scanFrom]
  split
  · rename_i hnone
    rw [ht] at hnone
    cases hnone
  · rename_i u hu
    obtain rfl : t = u := Option.some.inj (ht.symm.trans hu)
    split <;> rename_i hother <;> rw [hvisit] at hother <;> cases hother
    rfl

end TokenStream
end GrammarAtlas
