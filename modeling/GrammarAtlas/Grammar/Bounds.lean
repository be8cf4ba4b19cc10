import GrammarAtlas.Token.Stream

/-!
# How far headers, sections and rules reach

A grammar file is a sequence of stretches: its header, settings, actions, and
rules with modifiers in front.  The functions below look for the end of a stretch
from its first token on.  Headers and rules end at a semicolon, which is known by
its text; sections end with a block, which is known by its kind.

A `scope A, B;` clause between a rule's name and its colon has a semicolon of its
own, which does not end the rule.  A section that lacks its block ends before the
next colon or semicolon.

All of them get further than where they start (`lt_of_skipPastSemi` and the
lemmas after it), so a scan from stretch to stretch comes to an end.
-/

namespace GrammarAtlas

/-- What follows a computation that gave something did so, too. -/
theorem exists_of_bind_ok {α β : Type} {m : Except ReadFault α} {k : α → Except ReadFault β}
    {b : β} (h : m >>= k = .ok b) : ∃ a, m = .ok a ∧ k a = .ok b := by
  cases m with
  | error fault => cases h
  | ok a => exact ⟨a, rfl, h⟩

namespace TokenStream

/-- The index of the first token with a text, from an index on. -/
def findText (s : TokenStream) (text : Text) (j : Nat) : Except ReadFault (Option Nat) :=
  if j < s.size then do
    if (← s.textAt j) = text then return some j else findText s text (j + 1)
  else return none
termination_by s.size - j

theorem le_of_findText {s : TokenStream} {text : Text} {i j : Nat}
    (h : s.findText text i = .ok (some j)) : i ≤ j := by
  fun_induction findText s text i with
  | case1 i hi ih =>
    obtain ⟨found, -, h⟩ := exists_of_bind_ok h
    split at h
    · cases h
      exact Nat.le_refl _
    · exact Nat.le_of_succ_le (ih h)
  | case2 i hi => cases h

/-- The index behind the first semicolon, from an index on. -/
def skipPastSemi (s : TokenStream) (i : Nat) : Except ReadFault Nat := do
  match ← s.findText [';'] i with
  | some j => return j + 1
  | none => return s.size

/-- The index behind the first block, from an index on, or that of a semicolon or
colon that comes before it. -/
def skipThroughBlock (s : TokenStream) (j : Nat) : Nat :=
  match h : s.get? j with
  | none => j
  | some t =>
    if t.kind = .block then j + 1
    else if t.kind = .semi ∨ t.kind = .colon then j
    else skipThroughBlock s (j + 1)
termination_by s.size - j
decreasing_by
  have := (List.getElem?_eq_some_iff.mp h).1
  simp only [size]
  omega

/-- The colon and the semicolon of a rule.  `colon` is the colon if it has been
met in front of `j`. -/
def ruleBounds (s : TokenStream) (colon : Option Nat) (j : Nat) :
    Except ReadFault (Option Nat × Option Nat) :=
  if j < s.size then do
    let text ← s.textAt j
    if text = [':'] ∧ colon = none then ruleBounds s (some j) (j + 1)
    else if text = [';'] then return (colon, some j)
    else if text = "scope".toList ∧ colon = none ∧ (s.get? (j + 1)).any (·.kind = .id) then
      match h : s.findText [';'] (j + 1) with
      | .error fault => throw fault
      | .ok none => return (colon, none)
      | .ok (some semi) => ruleBounds s colon (semi + 1)
    else ruleBounds s colon (j + 1)
  else return (colon, none)
termination_by s.size - j
decreasing_by
  · omega
  · have := le_of_findText h
    omega
  · omega

theorem lt_of_skipPastSemi {s : TokenStream} {i j : Nat} (hi : i < s.size)
    (h : s.skipPastSemi i = .ok j) : i < j := by
  obtain ⟨found, hfound, h⟩ := exists_of_bind_ok h
  cases found with
  | none =>
    cases h
    exact hi
  | some k =>
    cases h
    exact Nat.lt_succ_of_le (le_of_findText hfound)

theorem le_skipThroughBlock (s : TokenStream) (j : Nat) : j ≤ s.skipThroughBlock j := by
  fun_induction skipThroughBlock s j with
  | case1 => exact Nat.le_refl _
  | case2 => exact Nat.le_succ _
  | case3 => exact Nat.le_refl _
  | case4 _ _ _ _ _ ih => exact Nat.le_of_succ_le ih

theorem le_of_ruleBounds {s : TokenStream} {colon : Option Nat} {found : Option Nat} {i stop : Nat}
    (h : s.ruleBounds colon i = .ok (found, some stop)) : i ≤ stop := by
  fun_induction ruleBounds s colon i with
  | case1 colon i hi ihColon ihScope ihNext =>
    obtain ⟨text, -, h⟩ := exists_of_bind_ok h
    split at h
    · exact Nat.le_of_succ_le (ihColon h)
    split at h
    · cases h
      exact Nat.le_refl _
    split at h
    · split at h
      · cases h
      · cases h
      · rename_i semi hsemi
        have hle := le_of_findText hsemi
        have hstop := ihScope semi hsemi h
        omega
    · exact Nat.le_of_succ_le (ihNext h)
  | case2 => cases h

end TokenStream
end GrammarAtlas
