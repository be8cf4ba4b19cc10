import GrammarAtlas.Proofs.Grammar.References

/-!
# The rule that a name stands for

Of several rules under one name the first is the one that the name stands for
(`indexOf?_eq_some_iff`).  A table of the names that is filled with one rule after the other
says the same, since a name that is there already is not entered again (`lookup_byName`).

A rule that is looked up by its name can be followed through a change of the rules, as long
as the change leaves the names alone: it is changed where all rules are (`find?_map_rules`),
or where it is the one that is meant (`find?_modify_rules`).
-/

namespace GrammarAtlas
namespace Grammar

variable {rules rules' : List Rule} {name other : Text} {i : Nat} {f : Rule → Rule}

/-- The first of some rules that has the name is at the index. -/
structure FirstNamed (rules : List Rule) (name : Text) (i : Nat) : Prop where
  named : ∃ r, rules[i]? = some r ∧ r.name = name
  none_before : ∀ j < i, ∀ r, rules[j]? = some r → r.name ≠ name

theorem indexOf?_eq_some_iff : indexOf? rules name = some i ↔ FirstNamed rules name i := by
  rw [indexOf?, List.findIdx?_eq_some_iff_getElem]
  constructor
  · rintro ⟨hi, hname, hbefore⟩
    refine ⟨⟨rules[i], List.getElem?_eq_getElem hi, of_decide_eq_true hname⟩, ?_⟩
    intro j hj r hr hname'
    obtain ⟨hlt, rfl⟩ := List.getElem?_eq_some_iff.mp hr
    exact hbefore j hj (decide_eq_true hname')
  · rintro ⟨⟨r, hr, hname⟩, hbefore⟩
    obtain ⟨hi, rfl⟩ := List.getElem?_eq_some_iff.mp hr
    refine ⟨hi, decide_eq_true hname, fun j hj hname' => ?_⟩
    exact hbefore j hj _ (List.getElem?_eq_getElem _) (of_decide_eq_true hname')

/-- Only the names matter for which rule is the first. -/
theorem firstNamed_congr (h : rules'.map (·.name) = rules.map (·.name)) :
    FirstNamed rules' name i ↔ FirstNamed rules name i := by
  rw [← indexOf?_eq_some_iff, ← indexOf?_eq_some_iff, indexOf?_congr h]

/-! ## The table of names -/

theorem indexOf?_cons (r : Rule) (rules : List Rule) (name : Text) :
    indexOf? (r :: rules) name =
      if r.name = name then some 0 else (indexOf? rules name).map (· + 1) := by
  rw [indexOf?, indexOf?, List.findIdx?_cons]
  simp only [decide_eq_true_eq]

/-- A name that is entered is found, unless there was something else under it. -/
theorem lookup_enter (table : List (Text × Nat)) (name other : Text) (i : Nat) :
    (enter table name i).lookup other =
      (table.lookup other).or (if name = other then some i else none) := by
  rw [enter]
  split
  · rename_i hsome
    split
    · rename_i heq
      subst heq
      obtain ⟨j, hj⟩ := Option.isSome_iff_exists.mp hsome
      rw [hj, Option.some_or]
    · rw [Option.or_none]
  · rw [List.lookup_append, List.lookup_cons, List.lookup_nil]
    by_cases heq : name = other
    · rw [if_pos heq, heq, beq_self_eq_true]
    · rw [if_neg heq, beq_false_of_ne (Ne.symm heq)]

theorem lookup_enterAll (table : List (Text × Nat)) (i : Nat) (rules : List Rule) (name : Text) :
    (enterAll table i rules).lookup name =
      (table.lookup name).or ((indexOf? rules name).map (i + ·)) := by
  induction rules generalizing table i with
  | nil => simp [enterAll, indexOf?]
  | cons r rules ih =>
    rw [enterAll, ih, lookup_enter, indexOf?_cons, Option.or_assoc]
    split
    · rfl
    · have hshift : (fun j => i + 1 + j) = (i + ·) ∘ (· + 1) := by
        funext j
        exact Nat.add_right_comm i 1 j
      rw [Option.none_or, Option.map_map, hshift]

/-- Only the names matter for what is entered. -/
theorem enterAll_congr (h : rules'.map (·.name) = rules.map (·.name))
    (table : List (Text × Nat)) (i : Nat) : enterAll table i rules' = enterAll table i rules := by
  induction rules generalizing rules' table i with
  | nil =>
    obtain rfl := List.map_eq_nil_iff.mp h
    rfl
  | cons r rules ih =>
    obtain ⟨r', rules', rfl, hname, hrest⟩ := List.map_eq_cons_iff.mp h
    rw [enterAll, enterAll, hname, ih hrest]

/-- **The table says which rule a name stands for.** -/
theorem lookup_byName (g : Grammar) (name : Text) :
    g.byName.lookup name = indexOf? g.rules name := by
  rw [byName, lookup_enterAll, List.lookup_nil, Option.none_or]
  simp

/-! ## Rules that are looked up by name -/

theorem mem_of_rule? {g : Grammar} {r : Rule} (h : g.rule? name = some r) :
    r ∈ g.rules ∧ r.name = name := by
  rw [rule?] at h
  exact ⟨List.mem_of_find?_eq_some h, by simpa using List.find?_some h⟩

theorem find?_eq_bind (rules : List Rule) (name : Text) :
    rules.find? (·.name = name) = (indexOf? rules name).bind fun i => rules[i]? :=
  List.find?_eq_bind_findIdx?_getElem?

/-- All rules are changed, and so is the rule of a name. -/
theorem find?_map_rules (hf : ∀ r, (f r).name = r.name) :
    (rules.map f).find? (·.name = name) = (rules.find? (·.name = name)).map f := by
  rw [List.find?_map]
  simp only [Function.comp_def, hf]

/-- What a change of one rule leaves alone is the same for all rules. -/
theorem map_modify {β : Type} {view : Rule → β} (hf : ∀ r, view (f r) = view r) :
    (rules.modify i f).map view = rules.map view := by
  refine List.ext_getElem? fun j => ?_
  rw [List.getElem?_map, List.getElem?_map, List.getElem?_modify]
  cases rules[j]? with
  | none => rfl
  | some r =>
    by_cases hij : i = j <;> simp [hij, hf]

/-- The rule of a name is changed, and the rules of other names are not. -/
theorem find?_modify_rules (hf : ∀ r, (f r).name = r.name) (hi : indexOf? rules other = some i) :
    (rules.modify i f).find? (·.name = name) =
      (rules.find? (·.name = name)).map (if other = name then f else id) := by
  rw [find?_eq_bind, find?_eq_bind, indexOf?_congr (map_modify hf)]
  cases hj : indexOf? rules name with
  | none => rfl
  | some j =>
    have hiff : i = j ↔ other = name := by
      refine ⟨?_, ?_⟩
      · rintro rfl
        obtain ⟨r, hr, rfl⟩ := (indexOf?_eq_some_iff.mp hi).named
        obtain ⟨r', hr', rfl⟩ := (indexOf?_eq_some_iff.mp hj).named
        rw [Option.some.inj (hr.symm.trans hr')]
      · rintro rfl
        exact Option.some.inj (hi.symm.trans hj)
    rw [Option.bind_some, Option.bind_some, List.getElem?_modify]
    simp only [hiff]
    split <;> rfl

end Grammar
end GrammarAtlas
