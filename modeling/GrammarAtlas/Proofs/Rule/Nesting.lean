import GrammarAtlas.Proofs.Rule.Separators

/-!
# Parentheses in a body

Where the parentheses of a body are balanced, they are so in each alternative: a separator
stands at depth zero, so what stands between two of them opens and closes the same parentheses
(`nested_of_mem_split`).  And what is nested may be put in parentheses with pipes in between:
no pipe of it is a separator there, and it is one alternative (`split_eq_singleton`).

The parentheses of a list of lexemes are followed from its front.  `Above` says that the depth
never falls below zero on the way, and `Whole` that it is never zero at a pipe.  Where one is open,
it is closed later, and what lies in between is nested (`exists_closing`).
-/

namespace GrammarAtlas

namespace Branches

variable {depth depth' : Int} {l m : Lexeme} {ls ms : List Lexeme} {lss : List (List Lexeme)}

/-- What lexemes add to the depth, one after the other. -/
def height (ls : List Lexeme) : Int := (ls.map weight).sum

@[simp] theorem height_nil : height [] = 0 := rfl

@[simp] theorem height_cons (l : Lexeme) (ls : List Lexeme) :
    height (l :: ls) = weight l + height ls := List.sum_cons

@[simp] theorem height_append (ls ms : List Lexeme) :
    height (ls ++ ms) = height ls + height ms := by
  rw [height, List.map_append, List.sum_append, height, height]

/-- From a depth on, the lexemes close no parenthesis that is not open. -/
def Above (depth : Int) : List Lexeme → Prop
  | [] => True
  | l :: ls => 0 ≤ depth + weight l ∧ Above (depth + weight l) ls

/-- From a depth on, none of the lexemes is a separator. -/
def Whole (depth : Int) : List Lexeme → Prop
  | [] => True
  | l :: ls => ¬ (l.text = ['|'] ∧ depth = 0) ∧ Whole (depth + weight l) ls

/-- **Nested parentheses**: each is closed behind where it is opened. -/
structure Nested (ls : List Lexeme) : Prop where
  above : Above 0 ls
  height_eq : height ls = 0

instance decidableAbove : ∀ (depth : Int) (ls : List Lexeme), Decidable (Above depth ls)
  | _, [] => .isTrue trivial
  | depth, l :: ls =>
    have := decidableAbove (depth + weight l) ls
    inferInstanceAs (Decidable (_ ∧ _))

instance (ls : List Lexeme) : Decidable (Nested ls) :=
  decidable_of_iff (Above 0 ls ∧ height ls = 0)
    ⟨fun h => ⟨h.1, h.2⟩, fun h => ⟨h.above, h.height_eq⟩⟩

theorem above_append : Above depth (ls ++ ms) ↔ Above depth ls ∧ Above (depth + height ls) ms := by
  induction ls generalizing depth with
  | nil => rw [List.nil_append, height_nil, Int.add_zero, Above, true_and]
  | cons l ls ih => rw [List.cons_append, Above, Above, ih, height_cons, Int.add_assoc, and_assoc]

theorem whole_append : Whole depth (ls ++ ms) ↔ Whole depth ls ∧ Whole (depth + height ls) ms := by
  induction ls generalizing depth with
  | nil => rw [List.nil_append, height_nil, Int.add_zero, Whole, true_and]
  | cons l ls ih => rw [List.cons_append, Whole, Whole, ih, height_cons, Int.add_assoc, and_assoc]

/-- Inside one more pair of parentheses nothing is a separator. -/
theorem Above.whole (h : Above depth ls) (hdepth : 0 ≤ depth) : Whole (depth + 1) ls := by
  induction ls generalizing depth with
  | nil => trivial
  | cons l ls ih =>
    have hrest := ih h.2 h.1
    rw [Int.add_right_comm] at hrest
    exact ⟨fun hpipe => by omega, hrest⟩

theorem Nested.whole (h : Nested ls) : Whole 1 ls := h.above.whole (Int.le_refl 0)

theorem nested_nil : Nested [] := ⟨trivial, rfl⟩

theorem Nested.append (h : Nested ls) (h' : Nested ms) : Nested (ls ++ ms) where
  above := by
    rw [above_append, h.height_eq]
    exact ⟨h.above, h'.above⟩
  height_eq := by rw [height_append, h.height_eq, h'.height_eq, Int.add_zero]

theorem Above.mono (h : Above depth ls) (hle : depth ≤ depth') : Above depth' ls := by
  induction ls generalizing depth depth' with
  | nil => trivial
  | cons l ls ih =>
    have hweight : depth + weight l ≤ depth' + weight l := Int.add_le_add_right hle _
    exact ⟨h.1.trans hweight, ih h.2 hweight⟩

/-- What is nested may be put in parentheses. -/
theorem Nested.group (h : Nested ls) (hl : weight l = 1) (hm : weight m = -1) :
    Nested (l :: (ls ++ [m])) where
  above := by
    rw [Above, hl, above_append, h.height_eq]
    refine ⟨by decide, h.above.mono (by decide), ?_, trivial⟩
    rw [hm]
    decide
  height_eq := by
    rw [height_cons, height_append, height_cons, height_nil, h.height_eq, hl, hm]
    rfl

/-- **A parenthesis that is open is closed**: the lexemes up to there are nested, and so are those
behind it. -/
theorem exists_closing (habove : Above (depth + 1) ls) (hheight : depth + 1 + height ls = 0)
    (hdepth : 0 ≤ depth) : ∃ inner m rest, ls = inner ++ m :: rest ∧ weight m = -1 ∧
      Above depth inner ∧ depth + height inner = 0 ∧ Nested rest := by
  induction ls generalizing depth with
  | nil =>
    rw [height_nil] at hheight
    omega
  | cons l ls ih =>
    obtain ⟨hl, habove⟩ := habove
    rw [height_cons, ← Int.add_assoc] at hheight
    by_cases hzero : depth + 1 + weight l = 0
    · have hweight : weight l = -1 ∨ 0 ≤ weight l := by
        rw [weight]
        split_ifs <;> decide
      rw [hzero] at habove hheight
      refine ⟨[], l, ls, rfl, by omega, trivial, ?_, habove, by omega⟩
      rw [height_nil]
      omega
    · have hmove : depth + weight l + 1 = depth + 1 + weight l := by omega
      rw [← hmove] at habove hheight
      obtain ⟨inner, m, rest, rfl, hm, hinner, hinner', hrest⟩ := ih habove hheight (by omega)
      refine ⟨l :: inner, m, rest, rfl, hm, ⟨by omega, hinner⟩, ?_, hrest⟩
      rw [height_cons, ← Int.add_assoc, hinner']

/-- A lexeme that is no parenthesis does not matter. -/
theorem nested_cons_iff (hl : weight l = 0) : Nested (l :: ls) ↔ Nested ls := by
  constructor
  · rintro ⟨⟨-, habove⟩, hheight⟩
    rw [hl] at habove
    rw [height_cons, hl, Int.zero_add] at hheight
    exact ⟨habove, hheight⟩
  · rintro ⟨habove, hheight⟩
    refine ⟨⟨?_, ?_⟩, ?_⟩
    · rw [hl]
      exact Int.le_refl 0
    · rw [hl]
      exact habove
    · rw [height_cons, hl, hheight, Int.add_zero]

theorem nested_intercalate (hl : weight l = 0) (h : ∀ ls ∈ lss, Nested ls) :
    Nested ([l].intercalate lss) := by
  induction lss with
  | nil =>
    rw [List.intercalate_nil]
    exact nested_nil
  | cons ls lss ih =>
    obtain ⟨hls, hrest⟩ := List.forall_mem_cons.mp h
    cases lss with
    | nil =>
      rw [List.intercalate_singleton]
      exact hls
    | cons ms lss =>
      rw [List.intercalate_cons_cons, List.append_assoc]
      exact hls.append ((nested_cons_iff hl).mpr (ih hrest))

/-! ## Branches -/

variable {branch ks : List IndexedLexeme}

/-- **Without a separator there is one branch.** -/
theorem split_eq_singleton (h : Whole depth (ks.map (·.2))) (hne : branch ++ ks ≠ []) :
    split depth branch ks = [branch ++ ks] := by
  induction ks generalizing depth branch with
  | nil =>
    rw [List.append_nil] at hne ⊢
    rw [split, if_neg hne]
  | cons k ks ih =>
    obtain ⟨hk, hks⟩ := h
    have hassoc : branch ++ k :: ks = (branch ++ [k]) ++ ks := List.append_cons branch k ks
    rw [hassoc] at hne ⊢
    rw [split_cons_of_not (by rwa [isMark_iff]), ih hks hne]

/-- **Each branch of a balanced body is nested.** -/
theorem nested_of_mem_split (habove : Above depth (ks.map (·.2)))
    (hheight : depth + height (ks.map (·.2)) = 0) (hbranch : Above 0 (branch.map (·.2)))
    (hdepth : height (branch.map (·.2)) = depth) :
    ∀ b ∈ split depth branch ks, Nested (b.map (·.2)) := by
  induction ks generalizing depth branch with
  | nil =>
    rw [List.map_nil, height_nil, Int.add_zero] at hheight
    rw [split]
    split
    · exact List.forall_mem_nil _
    · exact List.forall_mem_singleton.mpr ⟨hbranch, hdepth.trans hheight⟩
  | cons k ks ih =>
    obtain ⟨hk, hks⟩ := habove
    rw [List.map_cons, height_cons, ← Int.add_assoc] at hheight
    by_cases hsep : isMark '|' k ∧ depth = 0
    · obtain ⟨hpipe, rfl⟩ := hsep
      have hweight : weight k.2 = 0 := weight_pipe (isMark_iff.mp hpipe)
      rw [hweight] at hks hheight
      rw [split_cons_pipe hpipe]
      refine List.forall_mem_cons.mpr ⟨⟨hbranch, hdepth⟩, ?_⟩
      exact ih hks hheight trivial rfl
    · rw [split_cons_of_not hsep]
      refine ih hks hheight ?_ ?_
      · rw [List.map_append, above_append, hdepth, Int.zero_add]
        exact ⟨hbranch, hk, trivial⟩
      · rw [List.map_append, height_append, hdepth]
        exact congrArg (depth + ·) (Int.add_zero _)

end Branches

namespace TokenStream

variable {s : TokenStream} {c i stop : Nat}

/-- **Balanced parentheses** behind a colon: in front of no token are more closed than opened, and
in front of the last one as many. -/
structure Balanced (s : TokenStream) (colon stop : Nat) : Prop where
  above : ∀ i ≤ stop, colon < i → 0 ≤ s.depth colon i
  closed : s.depth colon stop = 0

theorem depth_of_plain_nil (hc : c < i) (hi : i ≤ stop) (h : s.plain i stop = []) :
    s.depth c stop = s.depth c i := by
  rw [depth, countMark_append hc hi, countMark_append hc hi]
  simp only [countMark, h, List.countP_nil, Nat.add_zero, depth]

end TokenStream

namespace Rule

open TokenStream Branches

variable {s : TokenStream} {c i stop : Nat} {ls : List IndexedLexeme}

/-- The lexemes from a token on go on with the depth in front of it. -/
theorem above_plain (h : s.Balanced c stop) (i : Nat) (hc : c < i) (hi : i ≤ stop)
    {ls : List IndexedLexeme} (hls : List.Forall₂ (Lexed s) (s.plain i stop) ls) :
    Above (s.depth c i) (ls.map (·.2)) ∧ s.depth c i + height (ls.map (·.2)) = 0 := by
  obtain hnil | ⟨t, hlt, ht, -⟩ := s.indexed_cases i stop
  · have hplain : s.plain i stop = [] := by rw [plain, hnil, List.filter_nil]
    rw [hplain] at hls
    cases hls
    refine ⟨trivial, ?_⟩
    rw [List.map_nil, height_nil, Int.add_zero, ← depth_of_plain_nil hc hi hplain, h.closed]
  by_cases hblock : t.kind = .block
  · rw [plain_of_block ht hlt hblock] at hls
    rw [← depth_succ_of_block ht hc hblock]
    exact above_plain h (i + 1) (Nat.lt_succ_of_lt hc) hlt hls
  · rw [plain_of_ne ht hlt hblock] at hls
    obtain ⟨l, ls, hl, htail, rfl⟩ := List.forall₂_cons_left_iff.mp hls
    obtain ⟨habove, hheight⟩ := above_plain h (i + 1) (Nat.lt_succ_of_lt hc) hlt htail
    have hstart := h.above (i + 1) hlt (Nat.lt_succ_of_lt hc)
    rw [hl.depth_succ ht hc hblock] at habove hheight hstart
    rw [List.map_cons, height_cons, ← Int.add_assoc]
    exact ⟨⟨hstart, habove⟩, hheight⟩
termination_by stop - i

/-- **The alternatives of a balanced body are nested.** -/
theorem nested_of_balanced (h : s.Balanced c stop) (hc : c < stop)
    (hls : List.Forall₂ (Lexed s) (s.plain (c + 1) stop) ls) :
    ∀ b ∈ split 0 [] ls, Nested (b.map (·.2)) := by
  obtain ⟨habove, hheight⟩ := above_plain h (c + 1) (Nat.lt_succ_self c) hc hls
  rw [depth_colon] at habove hheight
  exact nested_of_mem_split habove hheight trivial rfl

end Rule
end GrammarAtlas
