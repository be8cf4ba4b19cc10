import GrammarAtlas.Grammar.Session
import GrammarAtlas.Proofs.Grammar.Names

/-!
# Marks and findings

The user's marks and the findings are the only things about a grammar that change while its
source stays.  A change is made to the rule that a name stands for (`Change.set`) or to every
rule (`Change.attach`), and it leaves everything else as it is (`Remarked`): the stream, the
references, and of each rule its name, its span and its stretch of the references.

The marks of a name are those of the rule that it stands for.  A change that sets a mark sets
it for one name (`exists_rule?_apply`).  A rule of a new source has no marks
(`value_of_mem_rules`), until those of the previous grammar are taken over
(`exists_rule?_restoreFlagsFrom`).
-/

namespace GrammarAtlas

open Grammar

/-- A mark that the user sets on a rule. -/
inductive Mark where
  | expanded
  | breakpoint
  deriving DecidableEq, Repr

namespace Mark

/-- The mark of a rule. -/
def value : Mark → Rule → Bool
  | .expanded, r => r.expanded
  | .breakpoint, r => r.breakpoint

/-- The mark of a rule on which it has never been set. -/
def initial : Mark → Bool
  | .expanded => true
  | .breakpoint => false

/-- The rule with the mark. -/
def assign : Mark → Bool → Rule → Rule
  | .expanded, b, r => { r with expanded := b }
  | .breakpoint, b, r => { r with breakpoint := b }

/-- Sets the mark on the rule with a name, if there is one. -/
def set? : Mark → Grammar → Text → Bool → Option Grammar
  | .expanded => setExpanded?
  | .breakpoint => setBreakpoint?

theorem set?_eq (mark : Mark) (g : Grammar) (name : Text) (b : Bool) :
    mark.set? g name b = g.modifyRule? name (mark.assign b) := by
  cases mark <;> rfl

theorem name_assign (mark : Mark) (b : Bool) (r : Rule) : (mark.assign b r).name = r.name := by
  cases mark <;> rfl

theorem value_assign (mark other : Mark) (b : Bool) (r : Rule) :
    other.value (mark.assign b r) = if mark = other then b else other.value r := by
  cases mark <;> cases other <;> rfl

theorem value_restoreFrom (mark : Mark) (r old : Rule) :
    mark.value (r.restoreFrom old) = mark.value old := by
  cases mark <;> rfl

end Mark

/-- A change to the marks or to the findings of a grammar. -/
inductive Change where
  | set (mark : Mark) (name : Text) (value : Bool)
  | attach (findings : List Finding)
  deriving DecidableEq, Repr

namespace Change

/-- The grammar with the change.  A mark on a name that no rule has is not set. -/
def apply (g : Grammar) : Change → Grammar
  | .set mark name value => (mark.set? g name value).getD g
  | .attach findings => g.attachFindings findings

/-- The value that a mark is set to for a name, if the change sets it. -/
def valueFor (mark : Mark) (name : Text) : Change → Option Bool
  | .set mark' name' value => if mark' = mark ∧ name' = name then some value else none
  | .attach _ => none

end Change

/-! ## What a change leaves as it is -/

/-- The rule without marks and findings. -/
def Rule.unmarked (r : Rule) : Rule :=
  { r with expanded := true, breakpoint := false, findings := [] }

theorem Mark.unmarked_assign (mark : Mark) (b : Bool) (r : Rule) :
    (mark.assign b r).unmarked = r.unmarked := by
  cases mark <;> rfl

namespace Grammar

variable {g g' previous : Grammar} {name : Text} {r : Rule} {f : Rule → Rule}

/-- **The second grammar is the first one with other marks and findings.** -/
structure Remarked (g g' : Grammar) : Prop where
  stream : g'.stream = g.stream
  references : g'.references = g.references
  rules : g'.rules.map Rule.unmarked = g.rules.map Rule.unmarked

theorem Remarked.trans {g'' : Grammar} (h : Remarked g g') (h' : Remarked g' g'') :
    Remarked g g'' :=
  ⟨h'.stream.trans h.stream, h'.references.trans h.references, h'.rules.trans h.rules⟩

theorem remarked_map (g : Grammar) (hf : ∀ r, (f r).unmarked = r.unmarked) :
    Remarked g { g with rules := g.rules.map f } where
  stream := rfl
  references := rfl
  rules := by
    rw [List.map_map]
    exact List.map_congr_left fun r _ => hf r

theorem remarked_modify (g : Grammar) (i : Nat) (hf : ∀ r, (f r).unmarked = r.unmarked) :
    Remarked g { g with rules := g.rules.modify i f } where
  stream := rfl
  references := rfl
  rules := map_modify hf

theorem remarked_attachFindings (g : Grammar) (findings : List Finding) :
    Remarked g (g.attachFindings findings) :=
  remarked_map (f := fun r => { r with findings := findings.filter (r.name ∈ ·.rules) }) g
    fun _ => rfl

theorem restoreFlagsFrom_eq (g previous : Grammar) :
    g.restoreFlagsFrom previous =
      { g with rules := g.rules.map fun r =>
          ((previous.rule? r.name).map r.restoreFrom).getD r } := by
  refine congrArg (fun rules => ({ g with rules := rules } : Grammar))
    (List.map_congr_left fun r _ => ?_)
  cases previous.rule? r.name <;> rfl

theorem remarked_restoreFlagsFrom (g previous : Grammar) :
    Remarked g (g.restoreFlagsFrom previous) := by
  rw [restoreFlagsFrom_eq]
  refine remarked_map g fun r => ?_
  cases previous.rule? r.name <;> rfl

theorem remarked_apply (g : Grammar) (c : Change) : Remarked g (c.apply g) := by
  cases c with
  | set mark name b =>
    rw [Change.apply, mark.set?_eq, modifyRule?]
    cases indexOf? g.rules name with
    | none => exact ⟨rfl, rfl, rfl⟩
    | some i => exact remarked_modify g i (mark.unmarked_assign b)
  | attach findings => exact remarked_attachFindings g findings

/-- What does not depend on marks and findings is the same. -/
theorem Remarked.map_rules {β : Type} (h : Remarked g g') {f : Rule → β}
    (hf : ∀ r, f r.unmarked = f r) : g'.rules.map f = g.rules.map f := by
  have hmap := congrArg (List.map f) h.rules
  simpa only [List.map_map, Function.comp_def, hf] using hmap

/-- **The names of the rules stay.** -/
theorem Remarked.map_name (h : Remarked g g') : g'.rules.map (·.name) = g.rules.map (·.name) :=
  h.map_rules fun _ => rfl

/-- So the table of the names would be filled the same again. -/
theorem Remarked.byName (h : Remarked g g') : g'.byName = g.byName :=
  enterAll_congr h.map_name [] 0

/-! ## The marks of a name -/

/-- **A change sets the marks that it says**, and no others. -/
theorem exists_rule?_apply (h : g.rule? name = some r) (c : Change) :
    ∃ r', (c.apply g).rule? name = some r' ∧
      ∀ mark : Mark, mark.value r' = (c.valueFor mark name).getD (mark.value r) := by
  cases c with
  | set mark other b =>
    rw [Change.apply, mark.set?_eq, modifyRule?]
    cases hi : indexOf? g.rules other with
    | none =>
      have hne : other ≠ name := by
        rintro rfl
        rw [rule?, find?_eq_bind, hi] at h
        cases h
      refine ⟨r, h, fun mark' => ?_⟩
      rw [Change.valueFor, if_neg fun heq => hne heq.2]
      rfl
    | some i =>
      have hrule : rule? { g with rules := g.rules.modify i (mark.assign b) } name =
          (g.rule? name).map (if other = name then mark.assign b else id) :=
        find?_modify_rules (mark.name_assign b) hi
      rw [h] at hrule
      refine ⟨_, hrule, fun mark' => ?_⟩
      rw [Change.valueFor]
      by_cases hname : other = name
      · rw [if_pos hname, mark.value_assign]
        by_cases hmark : mark = mark' <;> simp [hmark, hname]
      · rw [if_neg hname, if_neg fun heq => hname heq.2]
        rfl
  | attach findings =>
    have hrule : (g.attachFindings findings).rule? name = (g.rule? name).map fun r =>
        { r with findings := findings.filter (r.name ∈ ·.rules) } :=
      find?_map_rules fun _ => rfl
    rw [h] at hrule
    refine ⟨_, hrule, fun mark => ?_⟩
    cases mark <;> rfl

/-- **The marks of a name are taken over**, if it stood for a rule before. -/
theorem exists_rule?_restoreFlagsFrom (h : g.rule? name = some r) (previous : Grammar) :
    ∃ r', (g.restoreFlagsFrom previous).rule? name = some r' ∧
      ∀ mark : Mark, mark.value r' =
        ((previous.rule? name).map mark.value).getD (mark.value r) := by
  obtain ⟨-, hname⟩ := mem_of_rule? h
  have hrule : (g.restoreFlagsFrom previous).rule? name = (g.rule? name).map fun r =>
      ((previous.rule? r.name).map r.restoreFrom).getD r := by
    rw [restoreFlagsFrom_eq]
    refine find?_map_rules fun r => ?_
    cases previous.rule? r.name <;> rfl
  rw [h, Option.map_some, hname] at hrule
  refine ⟨_, hrule, fun mark => ?_⟩
  cases previous.rule? name with
  | none => rfl
  | some old => exact mark.value_restoreFrom r old

/-- No mark is set on a rule of a source. -/
theorem value_of_mem_rules {source : Text} (hr : r ∈ (parse source).1.rules) (mark : Mark) :
    mark.value r = mark.initial := by
  obtain ⟨_, _, -, -, haccount⟩ := account_parse source
  have hvalue : mark.value r.unlinked = mark.initial := by
    rw [Rule.eq_of_completed (haccount.foundIn hr).completed_eq]
    cases mark <;> rfl
  cases mark <;> exact hvalue

end Grammar
end GrammarAtlas
