import GrammarAtlas.Grammar.Bounds
import GrammarAtlas.Proofs.Token.Reading

/-!
# What the bounds of a rule delimit

What the searches look for is said here without searching.  `FirstText` is the
first token with a text, `ActionEnd` tells where an action ends, and `BoundsFrom`
what there is of a rule behind its name.  On a readable stream each search comes
to what is said of it.

The search for a rule's bounds has two phases.  Behind the colon it is a search
for the first semicolon (`ruleBounds_some_yields`).  In front of the colon it may
pass over a semicolon, that of a clause (`Prelude`); but the colon it finds starts
the second phase, so between the colon and the semicolon there is no other
(`ruleBounds_none_yields`).
-/

namespace GrammarAtlas
namespace TokenStream

variable {s : TokenStream}

/-! ## The first token with a text -/

/-- The first token with the text, from the index `i` on, is at the index `j`. -/
structure FirstText (s : TokenStream) (text : Text) (i j : Nat) : Prop where
  le : i ≤ j
  lt_size : j < s.size
  text_at : s.textAt j = .ok text
  none_before : ∀ k, i ≤ k → k < j → s.textAt k ≠ .ok text

/-- No token has the text, from the index `i` on. -/
def NoText (s : TokenStream) (text : Text) (i : Nat) : Prop :=
  ∀ k, i ≤ k → k < s.size → s.textAt k ≠ .ok text

variable {text : Text} {i j : Nat}

theorem FirstText.of_succ (h : s.FirstText text (i + 1) j) (hi : s.textAt i ≠ .ok text) :
    s.FirstText text i j where
  le := Nat.le_of_succ_le h.le
  lt_size := h.lt_size
  text_at := h.text_at
  none_before := by
    intro k hik hk
    rcases Nat.eq_or_lt_of_le hik with rfl | hlt
    · exact hi
    · exact h.none_before k hlt hk

theorem firstText_self (hi : i < s.size) (htext : s.textAt i = .ok text) :
    s.FirstText text i i where
  le := Nat.le_refl i
  lt_size := hi
  text_at := htext
  none_before := by
    intro k hik hk
    exact absurd hk (Nat.not_lt_of_le hik)

/-- There is only one first token with a text. -/
theorem FirstText.unique {k : Nat} (hj : s.FirstText text i j)
    (hk : s.FirstText text i k) : j = k := by
  rcases Nat.lt_trichotomy j k with hlt | heq | hlt
  · exact absurd hj.text_at (hk.none_before j hj.le hlt)
  · exact heq
  · exact absurd hk.text_at (hj.none_before k hk.le hlt)

theorem NoText.of_succ (h : s.NoText text (i + 1)) (hi : s.textAt i ≠ .ok text) :
    s.NoText text i := by
  intro k hik hk
  rcases Nat.eq_or_lt_of_le hik with rfl | hlt
  · exact hi
  · exact h k hlt hk

theorem noText_of_size_le (hi : s.size ≤ i) : s.NoText text i := by
  intro k hik hk
  omega

/-- What a search for a text comes to: the first token with it, or none if there is
none. -/
structure Searched (s : TokenStream) (text : Text) (i : Nat) (found : Option Nat) : Prop where
  first : ∀ j, found = some j → s.FirstText text i j
  missing : found = none → s.NoText text i

theorem Searched.of_succ {found : Option Nat} (h : s.Searched text (i + 1) found)
    (hi : s.textAt i ≠ .ok text) : s.Searched text i found where
  first := fun j hj => (h.first j hj).of_succ hi
  missing := fun hnone => (h.missing hnone).of_succ hi

theorem searched_self (hi : i < s.size) (htext : s.textAt i = .ok text) :
    s.Searched text i (some i) where
  first := by
    rintro j ⟨⟩
    exact firstText_self hi htext
  missing := nofun

theorem searched_of_size_le (hi : s.size ≤ i) : s.Searched text i none where
  first := nofun
  missing := fun _ => noText_of_size_le hi

theorem findText_yields (hr : s.Readable) (text : Text) (i : Nat) :
    Yields (s.findText text i) (s.Searched text i) := by
  rw [findText]
  split
  · rename_i hi
    refine (hr.textAt i).bind ?_
    intro here hhere _
    split
    · rename_i heq
      exact .of_ok (searched_self hi (heq ▸ hhere))
    · rename_i hne
      refine (findText_yields hr text (i + 1)).imp ?_
      intro found hfound
      refine hfound.of_succ ?_
      intro htext
      exact hne (Except.ok.inj (hhere.symm.trans htext))
  · rename_i hi
    exact .of_ok (searched_of_size_le (Nat.le_of_not_lt hi))
termination_by s.size - i

/-- Where there is a token with a text, there is a first one. -/
theorem exists_firstText (hr : s.Readable) (hij : i ≤ j) (hj : j < s.size)
    (htext : s.textAt j = .ok text) : ∃ c, s.FirstText text i c ∧ c ≤ j := by
  obtain ⟨found, -, hfound⟩ := findText_yields hr text i
  cases found with
  | none => exact absurd htext (hfound.missing rfl j hij hj)
  | some c =>
    have hfirst := hfound.first c rfl
    refine ⟨c, hfirst, Nat.le_of_not_lt fun hlt => ?_⟩
    exact hfirst.none_before j hij hlt htext

/-- The index behind the first semicolon, or the end where there is none. -/
theorem skipPastSemi_yields (hr : s.Readable) (i : Nat) :
    Yields (s.skipPastSemi i) fun j =>
      (∃ stop, s.FirstText [';'] i stop ∧ j = stop + 1) ∨ (s.NoText [';'] i ∧ j = s.size) := by
  rw [skipPastSemi]
  refine (findText_yields hr [';'] i).bind ?_
  intro found _ hfound
  cases found with
  | none => exact .of_ok (.inr ⟨hfound.missing rfl, rfl⟩)
  | some stop => exact .of_ok (.inl ⟨stop, hfound.first stop rfl, rfl⟩)

/-! ## The block of an action -/

/-- Up to the index `j` there is no block, semicolon or colon from `i` on. -/
def Unmarked (s : TokenStream) (i j : Nat) : Prop :=
  ∀ k t, i ≤ k → k < j → s.get? k = some t → t.kind ≠ .block ∧ t.kind ≠ .semi ∧ t.kind ≠ .colon

theorem Unmarked.of_succ {t : Token} (h : s.Unmarked (i + 1) j) (ht : s.get? i = some t)
    (hmark : t.kind ≠ .block ∧ t.kind ≠ .semi ∧ t.kind ≠ .colon) : s.Unmarked i j := by
  intro k u hik hk hu
  rcases Nat.eq_or_lt_of_le hik with rfl | hlt
  · obtain rfl : t = u := Option.some.inj (ht.symm.trans hu)
    exact hmark
  · exact h k u hlt hk hu

theorem unmarked_self (s : TokenStream) (i : Nat) : s.Unmarked i i := by
  intro k t hik hk
  exact absurd hk (Nat.not_lt_of_le hik)

/-- An action whose block is looked for from the index `i` on ends in front of an
index: that behind the block, that of a semicolon or colon that comes before it, or
the end. -/
inductive ActionEnd (s : TokenStream) (i : Nat) : Nat → Prop
  | block {j : Nat} {t : Token} : i ≤ j → s.get? j = some t → t.kind = .block →
      s.Unmarked i j → ActionEnd s i (j + 1)
  | mark {j : Nat} {t : Token} : i ≤ j → s.get? j = some t → t.kind = .semi ∨ t.kind = .colon →
      s.Unmarked i j → ActionEnd s i j
  | missing : s.Unmarked i s.size → ActionEnd s i s.size

theorem ActionEnd.of_succ {t : Token} (h : s.ActionEnd (i + 1) j) (ht : s.get? i = some t)
    (hmark : t.kind ≠ .block ∧ t.kind ≠ .semi ∧ t.kind ≠ .colon) : s.ActionEnd i j := by
  cases h with
  | block hij hu hblock hclear =>
    exact .block (Nat.le_of_succ_le hij) hu hblock (hclear.of_succ ht hmark)
  | mark hij hu hkind hclear =>
    exact .mark (Nat.le_of_succ_le hij) hu hkind (hclear.of_succ ht hmark)
  | missing hclear => exact .missing (hclear.of_succ ht hmark)

theorem actionEnd_skipThroughBlock (hi : i ≤ s.size) : s.ActionEnd i (s.skipThroughBlock i) := by
  fun_induction skipThroughBlock s i with
  | case1 i hnone =>
    obtain rfl : i = s.size := Nat.le_antisymm hi (List.getElem?_eq_none_iff.mp hnone)
    exact .missing (unmarked_self s s.size)
  | case2 i t ht hblock => exact .block (Nat.le_refl i) ht hblock (unmarked_self s i)
  | case3 i t ht _ hkind => exact .mark (Nat.le_refl i) ht hkind (unmarked_self s i)
  | case4 i t ht hblock hkind ih =>
    obtain ⟨hsemi, hcolon⟩ := not_or.mp hkind
    exact (ih (lt_of_get? ht)).of_succ ht ⟨hblock, hsemi, hcolon⟩

/-! ## The bounds of a rule -/

/-- A clause starts at the index: the word `scope` in front of an identifier. -/
def OpensClause (s : TokenStream) (i : Nat) : Prop :=
  s.textAt i = .ok "scope".toList ∧ ∃ t, s.get? (i + 1) = some t ∧ t.kind = .id

/-- **In front of a rule's colon** one gets from an index to another by passing over
single tokens and over clauses, these through their semicolon. -/
inductive Prelude (s : TokenStream) : Nat → Nat → Prop
  | here (i : Nat) : Prelude s i i
  | token {i j : Nat} : i < s.size → s.textAt i ≠ .ok [':'] → s.textAt i ≠ .ok [';'] →
      ¬ s.OpensClause i → Prelude s (i + 1) j → Prelude s i j
  | clause {i semi j : Nat} : s.OpensClause i → s.FirstText [';'] (i + 1) semi →
      Prelude s (semi + 1) j → Prelude s i j

/-- **What there is of a rule behind its name**, which ends in front of the index `i`:
a colon and a semicolon, one of them, or neither. -/
inductive BoundsFrom (s : TokenStream) (i : Nat) : Option Nat × Option Nat → Prop
  | both {colon stop : Nat} : s.Prelude i colon → s.textAt colon = .ok [':'] →
      s.FirstText [';'] (colon + 1) stop → BoundsFrom s i (some colon, some stop)
  | unended {colon : Nat} : s.Prelude i colon → s.textAt colon = .ok [':'] →
      s.NoText [';'] (colon + 1) → BoundsFrom s i (some colon, none)
  | uncoloned {stop : Nat} : s.Prelude i stop → stop < s.size → s.textAt stop = .ok [';'] →
      BoundsFrom s i (none, some stop)
  | unendedClause {j : Nat} : s.Prelude i j → s.OpensClause j → s.NoText [';'] (j + 1) →
      BoundsFrom s i (none, none)
  | neither : s.Prelude i s.size → BoundsFrom s i (none, none)

theorem Prelude.le (h : s.Prelude i j) : i ≤ j := by
  induction h with
  | here i => exact Nat.le_refl i
  | token _ _ _ _ _ ih => exact Nat.le_of_succ_le ih
  | clause _ hsemi _ ih =>
    have hle := hsemi.le
    omega

/-- There are both bounds where a prelude leads to a colon and a semicolon is behind it. -/
theorem boundsFrom_both_iff {colon stop : Nat} : s.BoundsFrom i (some colon, some stop) ↔
    s.Prelude i colon ∧ s.textAt colon = .ok [':'] ∧ s.FirstText [';'] (colon + 1) stop := by
  refine ⟨fun h => ?_, fun ⟨hprelude, hcolon, hsemi⟩ => .both hprelude hcolon hsemi⟩
  cases h with
  | both hprelude hcolon hsemi => exact ⟨hprelude, hcolon, hsemi⟩

/-- What is passed over in front does not change what there is of the rule. -/
theorem BoundsFrom.of_prelude {bounds : Option Nat × Option Nat} (h : s.BoundsFrom j bounds)
    (hfront : ∀ k, s.Prelude j k → s.Prelude i k) : s.BoundsFrom i bounds := by
  cases h with
  | both hprelude hcolon hsemi => exact .both (hfront _ hprelude) hcolon hsemi
  | unended hprelude hcolon hnone => exact .unended (hfront _ hprelude) hcolon hnone
  | uncoloned hprelude hlt hsemi => exact .uncoloned (hfront _ hprelude) hlt hsemi
  | unendedClause hprelude hopens hnone => exact .unendedClause (hfront _ hprelude) hopens hnone
  | neither hprelude => exact .neither (hfront _ hprelude)

/-- Behind the colon, the rule ends at the first semicolon. -/
theorem ruleBounds_some_yields (hr : s.Readable) (colon i : Nat) :
    Yields (s.ruleBounds (some colon) i) fun bounds =>
      bounds.1 = some colon ∧ s.Searched [';'] i bounds.2 := by
  rw [ruleBounds]
  split
  · rename_i hi
    refine (hr.textAt i).bind ?_
    intro text htext _
    rw [if_neg fun h => Option.some_ne_none colon h.2]
    split
    · rename_i hsemi
      exact .of_ok ⟨rfl, searched_self hi (hsemi ▸ htext)⟩
    · rename_i hsemi
      rw [if_neg fun h => Option.some_ne_none colon h.2.1]
      refine (ruleBounds_some_yields hr colon (i + 1)).imp ?_
      rintro bounds ⟨hcolon, hfound⟩
      refine ⟨hcolon, hfound.of_succ ?_⟩
      intro hhere
      exact hsemi (Except.ok.inj (htext.symm.trans hhere))
  · rename_i hi
    exact .of_ok ⟨rfl, searched_of_size_le (Nat.le_of_not_lt hi)⟩
termination_by s.size - i

/-- At the colon the first phase is over. -/
theorem boundsFrom_colon (hcolon : s.textAt i = .ok [':']) {stop : Option Nat}
    (h : s.Searched [';'] (i + 1) stop) : s.BoundsFrom i (some i, stop) := by
  cases stop with
  | none => exact .unended (.here i) hcolon (h.missing rfl)
  | some stop => exact .both (.here i) hcolon (h.first stop rfl)

/-- **The search for a rule's bounds finds what there is.** -/
theorem ruleBounds_none_yields (hr : s.Readable) (i : Nat) (hi : i ≤ s.size) :
    Yields (s.ruleBounds none i) (s.BoundsFrom i) := by
  rw [ruleBounds]
  split
  · rename_i hlt
    refine (hr.textAt i).bind ?_
    intro text htext _
    have hne {other : Text} (hother : text ≠ other) : s.textAt i ≠ .ok other := by
      intro h
      exact hother (Except.ok.inj (htext.symm.trans h))
    split
    · rename_i hcolon
      refine (ruleBounds_some_yields hr i (i + 1)).imp ?_
      rintro ⟨colon, stop⟩ ⟨rfl, hfound⟩
      exact boundsFrom_colon (hcolon.1 ▸ htext) hfound
    rename_i hcolon
    split
    · rename_i hsemi
      exact .of_ok (.uncoloned (.here i) hlt (hsemi ▸ htext))
    rename_i hsemi
    split
    · rename_i hclause
      obtain ⟨t, ht, hid⟩ := (Option.any_eq_true _ _).mp hclause.2.2
      have hopens : s.OpensClause i := ⟨hclause.1 ▸ htext, t, ht, of_decide_eq_true hid⟩
      obtain ⟨found, hfind, hfound⟩ := findText_yields hr [';'] (i + 1)
      split
      · rename_i fault hfault
        rw [hfind] at hfault
        cases hfault
      · rename_i hnone
        obtain rfl : found = none := Except.ok.inj (hfind.symm.trans hnone)
        exact .of_ok (.unendedClause (.here i) hopens (hfound.missing rfl))
      · rename_i semi hsemi
        obtain rfl : found = some semi := Except.ok.inj (hfind.symm.trans hsemi)
        have hfirst := hfound.first semi rfl
        have hle := hfirst.le
        refine (ruleBounds_none_yields hr (semi + 1) hfirst.lt_size).imp ?_
        intro bounds hbounds
        exact hbounds.of_prelude fun k hk => .clause hopens hfirst hk
    · rename_i hclause
      have hopens : ¬ s.OpensClause i := by
        rintro ⟨hscope, t, ht, hid⟩
        refine hclause ⟨Except.ok.inj (htext.symm.trans hscope), rfl, ?_⟩
        rw [ht]
        exact decide_eq_true hid
      refine (ruleBounds_none_yields hr (i + 1) hlt).imp ?_
      intro bounds hbounds
      refine hbounds.of_prelude ?_
      intro k hk
      exact .token hlt (hne fun h => hcolon ⟨h, rfl⟩) (hne hsemi) hopens hk
  · rename_i hlt
    obtain rfl : i = s.size := Nat.le_antisymm hi (Nat.le_of_not_lt hlt)
    exact .of_ok (.neither (.here s.size))
termination_by s.size - i

end TokenStream
end GrammarAtlas
