import GrammarAtlas.Proofs.Grammar.Rules
import GrammarAtlas.Proofs.Rule.Body

/-!
# References

Linking looks at the identifiers between a rule's colon and its semicolon.  What it finds
at an index can be said without the others (`reference?`), so the references of a rule are
the references at the indices of its body, one after the other (`referencesOf_parse`).

The references of all rules are kept in one list.  The stretch that a rule is allotted
there holds what was found for that rule (`exists_of_mem_allot`).
-/

namespace GrammarAtlas
namespace Grammar

variable {s : TokenStream} {rules : List Rule} {made : List (Rule × List Reference)}

/-- The reference that the token at an index makes: it is an identifier and names a rule. -/
def reference? (s : TokenStream) (rules : List Rule) (i : Nat) : Option Reference :=
  match s.get? i with
  | some t =>
    if t.kind = .id then ((s.text t).toOption.bind (indexOf? rules)).map (⟨i, ·⟩) else none
  | none => none

/-- The references that some tokens make. -/
def referencesAt (s : TokenStream) (rules : List Rule) (ps : List (Nat × Token)) :
    List Reference :=
  ps.filterMap fun p => reference? s rules p.1

/-- The references between a rule's colon and its semicolon. -/
def referencesBehind (s : TokenStream) (rules : List Rule) (r : Rule) : List Reference :=
  referencesAt s rules (s.indexed (r.span.colon + 1) r.span.stop)

/-- What linking makes of some rules. -/
def linked (s : TokenStream) (rules : List Rule) : Grammar :=
  ⟨s, allot 0 (rules.map fun r => (r, referencesBehind s rules r)),
    rules.flatMap (referencesBehind s rules)⟩

theorem referencesAt_cons (s : TokenStream) (rules : List Rule) (p : Nat × Token)
    (ps : List (Nat × Token)) :
    referencesAt s rules (p :: ps) =
      (reference? s rules p.1).toList ++ referencesAt s rules ps := by
  rw [referencesAt, List.filterMap_cons]
  cases reference? s rules p.1 <;> rfl

theorem referencesAmong_eq (hr : s.Readable) (rules : List Rule) {ps : List (Nat × Token)}
    (hps : ∀ p ∈ ps, s.get? p.1 = some p.2) :
    referencesAmong s rules ps = .ok (referencesAt s rules ps) := by
  induction ps with
  | nil => rfl
  | cons p ps ih =>
    obtain ⟨i, t⟩ := p
    have ht : s.get? i = some t := hps (i, t) List.mem_cons_self
    have ih := ih fun q hq => hps q (List.mem_cons_of_mem _ hq)
    rw [referencesAmong]
    split
    · rename_i hid
      obtain ⟨text, htext, -⟩ := hr.text (TokenStream.mem_of_get? ht)
      have hhere : reference? s rules i = (indexOf? rules text).map (⟨i, ·⟩) := by
        simp only [reference?, ht, if_pos hid, htext]
        rfl
      rw [htext, ih, referencesAt_cons, hhere]
      rfl
    · rename_i hid
      have hhere : reference? s rules i = none := by
        simp only [reference?, ht, if_neg hid]
      rw [ih, referencesAt_cons, hhere]
      rfl

/-- **Linking meets no fault** where all tokens can be read. -/
theorem link_eq (hr : s.Readable) (rules : List Rule) : link s rules = .ok (linked s rules) := by
  have hmade : rules.mapM (fun r => return (r, ← referencesIn s rules r)) =
      Except.ok (ε := ReadFault) (rules.map fun r => (r, referencesBehind s rules r)) := by
    refine mapM_eq_ok (List.forall₂_map_right_iff.mpr (List.forall₂_same.mpr ?_))
    intro r _
    rw [referencesIn,
      referencesAmong_eq hr rules fun p hp => (TokenStream.get?_of_mem_indexed hp).1]
    rfl
  rw [link]
  simp only [bind, Except.bind] at hmade ⊢
  rw [hmade]
  simp only [pure, Except.pure, linked, List.flatMap_map]

/-- The stretch that a rule is allotted holds its references. -/
theorem exists_of_mem_allot {r : Rule} (front : List Reference) (h : r ∈ allot front.length made) :
    ∃ p ∈ made, r.unlinked = p.1.unlinked ∧
      r.references.stop ≤ (front ++ made.flatMap (·.2)).length ∧
      ((front ++ made.flatMap (·.2)).take r.references.stop).drop r.references.start = p.2 := by
  induction made generalizing front with
  | nil => exact absurd h List.not_mem_nil
  | cons p made ih =>
    obtain ⟨r₀, refs⟩ := p
    rw [List.flatMap_cons, ← List.append_assoc]
    rcases List.mem_cons.mp h with rfl | h
    · refine ⟨(r₀, refs), List.mem_cons_self, rfl, ?_, ?_⟩
      · simp
      · rw [← List.length_append, List.take_left, List.drop_left]
    · rw [← List.length_append] at h
      obtain ⟨p, hp, hfound⟩ := ih (front ++ refs) h
      exact ⟨p, List.mem_cons_of_mem _ hp, hfound⟩

theorem indexOf?_congr {rules' : List Rule} (h : rules'.map (·.name) = rules.map (·.name))
    (name : Text) : indexOf? rules' name = indexOf? rules name := by
  have hmap (rs : List Rule) : indexOf? rs name = (rs.map (·.name)).findIdx? (· = name) := by
    rw [List.findIdx?_map]
    rfl
  rw [hmap, hmap, h]

theorem reference?_congr {rules' : List Rule} (h : rules'.map (·.name) = rules.map (·.name))
    (s : TokenStream) (i : Nat) : reference? s rules' i = reference? s rules i := by
  have hindex : indexOf? rules' = indexOf? rules := funext (indexOf?_congr h)
  rw [reference?, reference?, hindex]

/-- A rule's references behind its colon depend on where it is, and on the names that the
grammar knows. -/
theorem referencesBehind_congr {rules' : List Rule} {r r' : Rule} (hspan : r.span = r'.span)
    (h : rules'.map (·.name) = rules.map (·.name)) :
    referencesBehind s rules' r = referencesBehind s rules r' := by
  have hrefs : reference? s rules' = reference? s rules := funext (reference?_congr h s)
  rw [referencesBehind, referencesBehind, hspan, referencesAt, referencesAt, hrefs]

theorem map_name_linked (s : TokenStream) (rules : List Rule) :
    (linked s rules).rules.map (·.name) = rules.map (·.name) := by
  have hunlinked := congrArg (List.map (·.name)) (map_unlinked_allot 0
    (rules.map fun r => (r, referencesBehind s rules r)))
  rw [List.map_map, List.map_map, List.map_map] at hunlinked
  exact hunlinked

/-- A rule of a grammar is asked for its references, and what linking has found for it is
given. -/
theorem referencesOf_linked {r : Rule} (hr : r ∈ (linked s rules).rules) :
    (linked s rules).referencesOf r = referencesBehind s (linked s rules).rules r := by
  obtain ⟨p, hp, hspan, hstop, hstretch⟩ := exists_of_mem_allot [] hr
  obtain ⟨r', -, rfl⟩ := List.mem_map.mp hp
  rw [List.flatMap_map, List.nil_append] at hstop hstretch
  rw [referencesOf, linked, if_pos hstop, hstretch]
  exact (referencesBehind_congr (congrArg (·.span) hspan) (map_name_linked s rules)).symm

/-- The grammar of a source is what linking makes of the rules of its scan. -/
theorem parse_eq (source : Text) :
    ∃ visits, (TokenStream.lex source).scanFrom 0 = .ok visits ∧
      (parse source).1 = linked (.lex source) (visits.flatMap (·.rules)) ∧
      (parse source).2 = TokenStream.lexDiagnostics source ++ visits.flatMap (·.reports) := by
  have hr := TokenStream.readable_lex source
  obtain ⟨visits, hscan, -⟩ :=
    TokenStream.scanFrom_yields hr (TokenStream.forward_lex source) 0
  have hfound : ofStream (.lex source) =
      .ok (linked (.lex source) (visits.flatMap (·.rules)), visits.flatMap (·.reports)) := by
    rw [ofStream, hscan]
    simp only [bind, Except.bind, link_eq hr]
    rfl
  exact ⟨visits, hscan, by rw [parse, hfound], by rw [parse, hfound]⟩

theorem stream_parse (source : Text) : (parse source).1.stream = .lex source := by
  obtain ⟨visits, -, hlinked, -⟩ := parse_eq source
  rw [hlinked]
  rfl

/-- **The references of a rule** of a source are those at the indices behind its colon. -/
theorem referencesOf_parse {source : Text} {r : Rule} (hr : r ∈ (parse source).1.rules) :
    (parse source).1.referencesOf r =
      referencesBehind (.lex source) (parse source).1.rules r := by
  obtain ⟨visits, -, hlinked, -⟩ := parse_eq source
  rw [hlinked] at hr ⊢
  exact referencesOf_linked hr

end Grammar
end GrammarAtlas
