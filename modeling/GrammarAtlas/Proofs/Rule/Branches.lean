import GrammarAtlas.Rule.Branches

/-!
# What splitting keeps

Splitting a body at its pipes drops nothing but pipes.  So whatever is no pipe stands in
the branches, one after the other, as it stood in the body (`filterMap_flatten_split`), and
each branch is a part of the body (`infix_of_mem_split`).
Only the texts of the lexemes decide where a branch ends; moving their indices moves the
branches (`split_map`).
-/

namespace GrammarAtlas
namespace Branches

variable {β : Type} {depth : Int} {branch ls : List IndexedLexeme} {f : IndexedLexeme → Option β}

/-- What is read off the lexemes, and off no pipe, is kept in its order. -/
theorem filterMap_flatten_split (hf : ∀ l ∈ ls, isMark '|' l = true → f l = none) :
    (split depth branch ls).flatten.filterMap f = (branch ++ ls).filterMap f := by
  induction ls generalizing depth branch with
  | nil =>
    rw [split]
    split
    · rename_i hempty
      rw [hempty]
      rfl
    · rw [List.flatten_singleton, List.append_nil]
  | cons l ls ih =>
    have hrest : ∀ m ∈ ls, isMark '|' m = true → f m = none := fun m hm =>
      hf m (List.mem_cons_of_mem l hm)
    rw [split]
    split
    · rw [ih hrest, List.append_assoc]
      rfl
    split
    · rw [ih hrest, List.append_assoc]
      rfl
    split
    · rename_i hpipe
      have hl := hf l List.mem_cons_self hpipe.1
      rw [List.flatten_cons, List.filterMap_append, ih hrest, List.nil_append,
        List.filterMap_append, List.filterMap_cons_none hl]
    · rw [ih hrest, List.append_assoc]
      rfl

/-- A branch is a part of the body. -/
theorem infix_of_mem_split {b : List IndexedLexeme} (hb : b ∈ split depth branch ls) :
    b <:+: branch ++ ls := by
  induction ls generalizing depth branch with
  | nil =>
    rw [split] at hb
    split at hb
    · exact absurd hb List.not_mem_nil
    · obtain rfl := List.mem_singleton.mp hb
      exact (List.prefix_append _ _).isInfix
  | cons m ls ih =>
    have hsnoc : ∀ {d}, b ∈ split d (branch ++ [m]) ls → b <:+: branch ++ m :: ls := by
      intro d hb
      have hpart := ih hb
      rwa [List.append_assoc] at hpart
    rw [split] at hb
    split at hb
    · exact hsnoc hb
    split at hb
    · exact hsnoc hb
    split at hb
    · rcases List.mem_cons.mp hb with rfl | hb
      · exact (List.prefix_append _ _).isInfix
      · have hpart := ih hb
        rw [List.nil_append] at hpart
        exact hpart.trans ((List.suffix_cons m ls).trans (List.suffix_append _ _)).isInfix
    · exact hsnoc hb

/-- A branch has lexemes of the body, in their order. -/
theorem sublist_of_mem_split {b : List IndexedLexeme} (hb : b ∈ split depth branch ls) :
    b.Sublist (branch ++ ls) :=
  (infix_of_mem_split hb).sublist

/-- A lexeme of a branch is one of the body. -/
theorem mem_of_mem_split {b : List IndexedLexeme} {l : IndexedLexeme}
    (hb : b ∈ split depth branch ls) (hl : l ∈ b) : l ∈ branch ++ ls :=
  (sublist_of_mem_split hb).subset hl

/-- **Moving the indices moves the branches.** -/
theorem split_map (f : Nat → Nat) :
    split depth (branch.map (Prod.map f id)) (ls.map (Prod.map f id)) =
      (split depth branch ls).map (List.map (Prod.map f id)) := by
  induction ls generalizing depth branch with
  | nil =>
    rw [List.map_nil, split, split]
    cases branch with
    | nil => rfl
    | cons l branch => rfl
  | cons l ls ih =>
    have hmark (c : Char) : isMark c (Prod.map f id l) = isMark c l := rfl
    have hsnoc (d : Int) : split d (branch.map (Prod.map f id) ++ [Prod.map f id l])
        (ls.map (Prod.map f id)) = (split d (branch ++ [l]) ls).map (List.map (Prod.map f id)) := by
      rw [← ih, List.map_append]
      rfl
    rw [List.map_cons, split, split, hmark, hmark, hmark, hsnoc, hsnoc, hsnoc]
    split
    · rfl
    split
    · rfl
    split
    · rw [List.map_cons, ← ih]
      rfl
    · rfl

end Branches
end GrammarAtlas
