import GrammarAtlas.Proofs.Token.Reading
import GrammarAtlas.Rule.Alternative

/-!
# Reading the alternatives of a rule

On a readable stream the alternatives of a rule can be had whatever its span is,
since an index that the stream does not have is passed over.  So completing a
rule always comes to a mark, and changes nothing else (`completed_yields`).
-/

namespace GrammarAtlas

variable {s : TokenStream}

theorem TokenStream.mem_of_mem_indexed {start stop : Nat} {p : Nat × Token}
    (hp : p ∈ s.indexed start stop) : p.2 ∈ s.tokens := by
  obtain ⟨⟨t, i⟩, hzip, rfl⟩ := List.mem_map.mp hp
  have hmem : t ∈ s.slice start stop := by
    obtain ⟨-, -, heq⟩ := List.mem_zipIdx hzip
    rw [heq]
    exact List.getElem_mem _
  exact List.mem_of_mem_take (List.mem_of_mem_drop hmem)

/-- It can be said whether an alternative starts with a name. -/
theorem Alternative.startsWith_yields (hr : s.Readable) (a : Alternative) (name : Text) :
    Yields (a.startsWith s name) fun _ => True := by
  rw [startsWith]
  split
  · exact (hr.textAt _).bind fun _ _ _ => .of_ok trivial
  · exact .of_ok trivial

namespace Rule

/-- The search for a colon passes over tokens of the stream, so what it leaves
are tokens of the stream. -/
theorem seekColon_yields (hr : s.Readable) (ts : List (Nat × Token))
    (hts : ∀ p ∈ ts, p.2 ∈ s.tokens) :
    Yields (seekColon s ts) fun found => ∀ colon body, found = some (colon, body) →
      ∀ p ∈ body, p.2 ∈ s.tokens := by
  induction ts with
  | nil =>
    refine .of_ok ?_
    intro colon body h
    cases h
  | cons p ts ih =>
    obtain ⟨i, t⟩ := p
    rw [seekColon]
    refine (hr.text (hts (i, t) List.mem_cons_self)).bind ?_
    intro text _ _
    have hrest : ∀ q ∈ ts, q.2 ∈ s.tokens := fun q hq => hts q (List.mem_cons_of_mem _ hq)
    split
    · refine .of_ok ?_
      intro colon body h
      cases h
      exact hrest
    · exact ih hrest

theorem alternatives_yields (hr : s.Readable) (r : Rule) :
    Yields (r.alternatives s) fun _ => True := by
  rw [alternatives]
  refine (seekColon_yields hr _ fun p hp => TokenStream.mem_of_mem_indexed hp).bind
    fun found _ hfound => ?_
  cases found with
  | none => exact .of_ok trivial
  | some found =>
    obtain ⟨colon, body⟩ := found
    refine (Yields.mapM (T := fun _ _ => True) fun p hp => ?_).bind fun _ _ _ => .of_ok trivial
    have hmem : p ∈ body := List.mem_of_mem_filter hp
    exact (hr.text (hfound colon body rfl p hmem)).bind fun _ _ _ => .of_ok trivial

theorem detectLeftRecursion_yields (hr : s.Readable) (r : Rule) :
    Yields (r.detectLeftRecursion s) fun _ => True := by
  refine (alternatives_yields hr r).bind fun as _ _ => .anyM ?_
  intro a _
  exact a.startsWith_yields hr r.name

/-- Completing a rule sets its mark for left recursion and no more. -/
theorem completed_yields (hr : s.Readable) (r : Rule) :
    Yields (r.completed s) fun r' => ∃ b, r' = { r with leftRecursive := b } :=
  (detectLeftRecursion_yields hr r).bind fun b _ _ => .of_ok ⟨b, rfl⟩

end Rule
end GrammarAtlas
