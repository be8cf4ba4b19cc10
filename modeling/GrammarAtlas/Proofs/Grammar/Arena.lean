import GrammarAtlas.Proofs.Grammar.Marks

/-!
# The list of references

The references of all rules are kept in one list, and each rule knows its stretch of it.  The
stretches lie one behind the other and make up the whole list (`Consecutive`).  The stretch of
a rule holds the identifiers behind its colon that name a rule, in the order of their tokens
and without gaps (`Refers`), each with the first rule of that name.

All this is so for the grammar of a source (`arena_parse`), whatever names it declares twice
and whatever is declared behind the place where it is referred to.  It says nothing about marks
and findings, so it stays when these are changed (`Arena.of_remarked`).

The table of the names is filled once, when a source is parsed, and it is never mended.  So what
is said about it is said about that table and the rules as they have become.  It holds because no
change to a grammar renames a rule (`Remarked.map_name`).
-/

namespace GrammarAtlas

open TokenStream

namespace Grammar

variable {s : TokenStream} {rules rules' : List Rule} {g g' : Grammar} {r : Rule} {i : Nat}
  {ref : Reference} {table : List (Text × Nat)}

/-- The stretches lie one behind the other, from one index of a list to another. -/
def Consecutive (start : Nat) : List ReferenceRange → Nat → Prop
  | [], stop => start = stop
  | range :: ranges, stop =>
    range.start = start ∧ range.start ≤ range.stop ∧ Consecutive range.stop ranges stop

/-- The token at an index is an identifier, and its text is a name that stands for a rule. -/
def NamesRule (s : TokenStream) (rules : List Rule) (token target : Nat) : Prop :=
  ∃ t name, s.get? token = some t ∧ t.kind = .id ∧ s.text t = .ok name ∧
    FirstNamed rules name target

/-- **The references of a rule** are the tokens between its colon and its semicolon that name a
rule, in order, each with that rule. -/
structure Refers (g : Grammar) (r : Rule) : Prop where
  increasing : (g.referencesOf r).Pairwise fun a b => a.token < b.token
  mem_iff : ∀ token target, ⟨token, target⟩ ∈ g.referencesOf r ↔
    r.span.colon < token ∧ token < r.span.stop ∧ NamesRule g.stream g.rules token target
  /-- The names of the rules that are referred to are the texts of these tokens. -/
  names : (g.referencesOf r).mapM (g.stream.textAt ·.token) = .ok (g.referencedNames r)

/-- **The references of a grammar**, by name, by stretch and by rule.  The names are those of a
table, which may have been filled for an earlier state of the grammar. -/
structure Arena (table : List (Text × Nat)) (g : Grammar) : Prop where
  byName : ∀ name i, table.lookup name = some i ↔ FirstNamed g.rules name i
  /-- The rules as they are would fill the table with the same. -/
  filled : g.byName = table
  stretches : Consecutive 0 (g.rules.map (·.references)) g.references.length
  refers : ∀ r ∈ g.rules, Refers g r

/-! ## The grammar of a source -/

/-- The stretches that are allotted are as long as what they are for. -/
theorem consecutive_allot (start : Nat) (made : List (Rule × List Reference)) :
    Consecutive start ((allot start made).map (·.references))
      (start + (made.flatMap (·.2)).length) := by
  induction made generalizing start with
  | nil => rfl
  | cons p made ih =>
    obtain ⟨r, refs⟩ := p
    rw [List.flatMap_cons, List.length_append, ← Nat.add_assoc]
    exact ⟨rfl, Nat.le_add_right start refs.length, ih (start + refs.length)⟩

theorem reference?_eq_some_iff :
    reference? s rules i = some ref ↔ ref.token = i ∧ NamesRule s rules i ref.rule := by
  obtain ⟨token, target⟩ := ref
  constructor
  · intro h
    rw [reference?] at h
    split at h
    · rename_i t ht
      split_ifs at h with hid
      obtain ⟨j, hj, heq⟩ := Option.map_eq_some_iff.mp h
      obtain ⟨name, hname, hindex⟩ := Option.bind_eq_some_iff.mp hj
      cases heq
      refine ⟨rfl, t, name, ht, hid, ?_, indexOf?_eq_some_iff.mp hindex⟩
      cases htext : s.text t with
      | ok text =>
        rw [htext] at hname
        exact congrArg _ (Option.some.inj hname)
      | error fault =>
        rw [htext] at hname
        cases hname
    · cases h
  · rintro ⟨rfl, t, name, ht, hid, htext, hfirst⟩
    have hindex := indexOf?_eq_some_iff.mpr hfirst
    simp only [reference?, ht, if_pos hid, htext]
    show ((some name).bind (indexOf? rules)).map _ = _
    rw [Option.bind_some, hindex]
    rfl

theorem mem_referencesBehind_iff : ref ∈ referencesBehind s rules r ↔
    r.span.colon < ref.token ∧ ref.token < r.span.stop ∧
      NamesRule s rules ref.token ref.rule := by
  rw [referencesBehind, referencesAt, List.mem_filterMap]
  constructor
  · rintro ⟨p, hp, href⟩
    obtain ⟨htoken, hnames⟩ := reference?_eq_some_iff.mp href
    obtain ⟨-, hle, hlt⟩ := get?_of_mem_indexed hp
    exact htoken ▸ ⟨hle, hlt, hnames⟩
  · rintro ⟨hle, hlt, t, name, ht, hname⟩
    exact ⟨(ref.token, t), mem_indexed ht hle hlt,
      reference?_eq_some_iff.mpr ⟨rfl, t, name, ht, hname⟩⟩

/-- References are found in the order of their tokens. -/
theorem pairwise_referencesBehind (s : TokenStream) (rules : List Rule) (r : Rule) :
    (referencesBehind s rules r).Pairwise fun a b => a.token < b.token := by
  refine List.pairwise_filterMap.mpr ((s.pairwise_indexed _ _).imp ?_)
  intro p q hpq a ha b hb
  rw [(reference?_eq_some_iff.mp ha).1, (reference?_eq_some_iff.mp hb).1]
  exact hpq

/-- Tokens that name rules have the names of these for their texts. -/
theorem mapM_textAt_references {refs : List Reference}
    (h : ∀ ref ∈ refs, NamesRule s rules ref.token ref.rule) :
    refs.mapM (s.textAt ·.token) =
      .ok (refs.filterMap fun ref => (rules[ref.rule]?).map (·.name)) := by
  refine mapM_eq_ok ?_
  induction refs with
  | nil => exact .nil
  | cons ref refs ih =>
    obtain ⟨t, name, ht, -, htext, ⟨r, hr, rfl⟩, -⟩ := h ref List.mem_cons_self
    rw [List.filterMap_cons, hr]
    exact .cons ((textAt_of_get? ht).trans htext) (ih fun q hq => h q (List.mem_cons_of_mem _ hq))

theorem refers_of_referencesOf (h : g.referencesOf r = referencesBehind g.stream g.rules r) :
    Refers g r where
  increasing := by
    rw [h]
    exact pairwise_referencesBehind g.stream g.rules r
  mem_iff := by
    intro token target
    rw [h]
    exact mem_referencesBehind_iff
  names := by
    refine mapM_textAt_references fun ref href => ?_
    rw [h] at href
    exact (mem_referencesBehind_iff.mp href).2.2

theorem lookup_byName_iff (g : Grammar) (name : Text) (i : Nat) :
    g.byName.lookup name = some i ↔ FirstNamed g.rules name i := by
  rw [lookup_byName, indexOf?_eq_some_iff]

/-- **The references of a source** are complete, and every rule has its own. -/
theorem arena_parse (source : Text) : Arena (parse source).1.byName (parse source).1 where
  byName := lookup_byName_iff _
  filled := rfl
  stretches := by
    obtain ⟨visits, -, hlinked, -⟩ := parse_eq source
    have hstretches := consecutive_allot 0 ((visits.flatMap (·.rules)).map fun r =>
      (r, referencesBehind (.lex source) (visits.flatMap (·.rules)) r))
    rw [Nat.zero_add, List.flatMap_map] at hstretches
    rw [hlinked]
    exact hstretches
  refers := by
    intro r hr
    refine refers_of_referencesOf ?_
    rw [stream_parse]
    exact referencesOf_parse hr

/-! ## Marks and findings -/

theorem Remarked.referencesOf {r' : Rule} (h : Remarked g g') (hr : r'.references = r.references) :
    g'.referencesOf r' = g.referencesOf r := by
  rw [Grammar.referencesOf, Grammar.referencesOf, h.references, hr]

theorem Remarked.referencedNames {r' : Rule} (h : Remarked g g')
    (hr : r'.references = r.references) : g'.referencedNames r' = g.referencedNames r := by
  rw [Grammar.referencedNames, Grammar.referencedNames, h.referencesOf hr]
  refine List.filterMap_congr fun ref _ => ?_
  rw [← List.getElem?_map, ← List.getElem?_map, h.map_name]

/-- **Marks and findings do not matter for the references.** -/
theorem Arena.of_remarked (hg : Arena table g) (h : Remarked g g') : Arena table g' where
  byName := by
    intro name i
    rw [hg.byName, firstNamed_congr h.map_name]
  filled := h.byName.trans hg.filled
  stretches := by
    have hranges : g'.rules.map (·.references) = g.rules.map (·.references) :=
      h.map_rules fun _ => rfl
    rw [hranges, h.references]
    exact hg.stretches
  refers := by
    intro r' hr'
    have hmem : r'.unmarked ∈ g.rules.map Rule.unmarked := h.rules ▸ List.mem_map_of_mem hr'
    obtain ⟨r, hr, hsame⟩ := List.mem_map.mp hmem
    have hrefs : r'.references = r.references := (congrArg (·.references) hsame).symm
    have hspan : r'.span = r.span := (congrArg (·.span) hsame).symm
    obtain ⟨hincreasing, hmem_iff, hnames⟩ := hg.refers r hr
    refine ⟨?_, fun token target => ?_, ?_⟩
    · rw [h.referencesOf hrefs]
      exact hincreasing
    · rw [h.referencesOf hrefs, hmem_iff, hspan, NamesRule, NamesRule, h.stream]
      simp only [firstNamed_congr h.map_name]
    · rw [h.referencesOf hrefs, h.referencedNames hrefs, h.stream]
      exact hnames

end Grammar

/-- What is done to a grammar between two parses. -/
inductive Upkeep where
  | change (c : Change)
  /-- A mark is set on the rule at an index. -/
  | setAt (mark : Mark) (i : Nat) (value : Bool)
  /-- The marks of another grammar are taken over. -/
  | restore (previous : Grammar)
  deriving DecidableEq, Repr

/-- The grammar with what is done to it.  An index that no rule has does not matter. -/
def Upkeep.apply (g : Grammar) : Upkeep → Grammar
  | .change c => c.apply g
  | .setAt mark i value => (g.modifyAt? i (mark.assign value)).getD g
  | .restore previous => g.restoreFlagsFrom previous

namespace Grammar

theorem remarked_upkeep (g : Grammar) (u : Upkeep) : Remarked g (u.apply g) := by
  cases u with
  | change c => exact remarked_apply g c
  | setAt mark i value =>
    rw [Upkeep.apply, modifyAt?]
    split
    · exact remarked_modify g i (mark.unmarked_assign value)
    · exact ⟨rfl, rfl, rfl⟩
  | restore previous => exact remarked_restoreFlagsFrom g previous

theorem remarked_upkeeps (g : Grammar) (steps : List Upkeep) :
    Remarked g (steps.foldl Upkeep.apply g) := by
  induction steps using List.reverseRecOn with
  | nil => exact ⟨rfl, rfl, rfl⟩
  | append_singleton steps u ih =>
    rw [List.foldl_concat]
    exact ih.trans (remarked_upkeep _ u)

/-- **The references stay complete**, whatever is done to the grammar of a source until the next
one is parsed, and the table that was filled for the source goes on saying which rule a name
stands for. -/
theorem arena_of_upkeep (source : Text) (steps : List Upkeep) :
    Arena (parse source).1.byName (steps.foldl Upkeep.apply (parse source).1) :=
  (arena_parse source).of_remarked (remarked_upkeeps _ steps)

end Grammar
end GrammarAtlas
