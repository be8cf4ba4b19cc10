import GrammarAtlas.Proofs.Grammar.Marks

/-!
# The marks of a name through an editing session

A session begins with a source.  Its edits parse other sources and change marks and findings.
At any time the marks of a name are those that were set last since the name has appeared, and
a mark that was not set since is as it is on a new rule (`marks_of_session`).

A name appears with a source that declares it, if the source before does not
(`Appears`).  If the source before declares it, too, the marks are taken over, wherever the
rules are now and however many there are under the name.

The proof goes through the edits one by one.  Behind each edit, the edits since the name has
appeared are none, or those from before with this one added (`Since.append_singleton`).
-/

namespace GrammarAtlas

open Grammar

/-- One edit of a session. -/
inductive Edit where
  /-- Another source is parsed, and the marks are taken over. -/
  | reparse (source : Text)
  | change (c : Change)
  deriving DecidableEq, Repr

namespace Edit

/-- The grammar behind the edit. -/
def apply (g : Grammar) : Edit → Grammar
  | .reparse source => (Grammar.reparse source g).1
  | .change c => c.apply g

/-- The source behind the edit. -/
def sourceAfter (source : Text) : Edit → Text
  | .reparse next => next
  | .change _ => source

/-- The value that a mark is set to for a name, if the edit sets it. -/
def valueFor (mark : Mark) (name : Text) : Edit → Option Bool
  | .reparse _ => none
  | .change c => c.valueFor mark name

end Edit

namespace Grammar

variable {source next name : Text} {edits recent : List Edit} {e : Edit} {g : Grammar} {r : Rule}

/-- The grammar behind some edits of a session that began with a source. -/
def session (source : Text) (edits : List Edit) : Grammar :=
  edits.foldl Edit.apply (parse source).1

/-- The source behind some edits. -/
def sourceAfter (source : Text) (edits : List Edit) : Text := edits.foldl Edit.sourceAfter source

/-- The value that a mark was set to last for a name. -/
def lastSet (mark : Mark) (name : Text) (edits : List Edit) : Option Bool :=
  (edits.filterMap (Edit.valueFor mark name)).getLast?

/-- The source declares a rule with the name. -/
def Declares (source name : Text) : Prop := ∃ r ∈ (parse source).1.rules, r.name = name

instance (source name : Text) : Decidable (Declares source name) :=
  inferInstanceAs (Decidable (∃ r ∈ (parse source).1.rules, r.name = name))

/-- The name appears when a source is parsed behind some edits: it is declared there, and was
not declared in the source before. -/
structure Appears (source name : Text) (edits : List Edit) (next : Text) : Prop where
  declared : Declares next name
  new : ¬ Declares (sourceAfter source edits) name

/-- The name does not appear with any of some recent edits, behind those in front. -/
def Quiet (source name : Text) (front recent : List Edit) : Prop :=
  ∀ more next back, recent = more ++ .reparse next :: back →
    ¬ Appears source name (front ++ more) next

/-- **The edits since a name has appeared** for the last time, or since the start of the session
if it has not appeared in it. -/
inductive Since (source name : Text) : List Edit → List Edit → Prop
  | start {recent : List Edit} : Quiet source name [] recent → Since source name recent recent
  | appeared {front recent : List Edit} {next : Text} :
      Appears source name front next → Quiet source name (front ++ [.reparse next]) recent →
      Since source name (front ++ [.reparse next] ++ recent) recent

/-! ## One more edit -/

theorem session_append_singleton (source : Text) (edits : List Edit) (e : Edit) :
    session source (edits ++ [e]) = e.apply (session source edits) :=
  List.foldl_concat ..

theorem sourceAfter_append_singleton (source : Text) (edits : List Edit) (e : Edit) :
    sourceAfter source (edits ++ [e]) = e.sourceAfter (sourceAfter source edits) :=
  List.foldl_concat ..

theorem lastSet_append_singleton (mark : Mark) (name : Text) (edits : List Edit) (e : Edit) :
    lastSet mark name (edits ++ [e]) = (e.valueFor mark name).or (lastSet mark name edits) := by
  rw [lastSet, List.filterMap_append, List.getLast?_append, lastSet, List.filterMap_cons]
  cases e.valueFor mark name <;> rfl

theorem quiet_nil (source name : Text) (front : List Edit) : Quiet source name front [] := by
  intro more next back hedits
  cases more <;> cases hedits

theorem quiet_append_singleton {front : List Edit} :
    Quiet source name front (recent ++ [e]) ↔ Quiet source name front recent ∧
      ∀ next, e = .reparse next → ¬ Appears source name (front ++ recent) next := by
  constructor
  · intro h
    refine ⟨fun more next back hrecent => h more next (back ++ [e]) ?_, ?_⟩
    · rw [hrecent, List.append_assoc, List.cons_append]
    · rintro next rfl
      exact h recent next [] rfl
  · rintro ⟨hrecent, hlast⟩ more next back hedits
    rcases List.eq_nil_or_concat back with rfl | ⟨before, last, rfl⟩
    · obtain ⟨rfl, rfl⟩ := List.append_singleton_inj.mp hedits
      exact hlast next rfl
    · rw [List.concat_eq_append, ← List.cons_append, ← List.append_assoc] at hedits
      obtain ⟨rfl, rfl⟩ := List.append_singleton_inj.mp hedits
      exact hrecent more next before rfl

theorem eq_nil_of_since_nil (h : Since source name [] recent) : recent = [] := by
  generalize hedits : ([] : List Edit) = edits at h
  cases h with
  | start _ => rfl
  | appeared _ _ => exact absurd hedits.symm (by simp)

/-- **With one more edit** the name appears, or the edit is one more since it has appeared. -/
theorem since_append_singleton : Since source name (edits ++ [e]) recent ↔
    (recent = [] ∧ ∃ next, e = .reparse next ∧ Appears source name edits next) ∨
      ∃ before, recent = before ++ [e] ∧ Since source name edits before ∧
        ∀ next, e = .reparse next → ¬ Appears source name edits next := by
  constructor
  · intro h
    generalize hall : edits ++ [e] = all at h
    cases h with
    | start hquiet =>
      subst hall
      obtain ⟨hquiet, hlast⟩ := quiet_append_singleton.mp hquiet
      exact .inr ⟨edits, rfl, .start hquiet, hlast⟩
    | @appeared front _ next happears hquiet =>
      rcases List.eq_nil_or_concat recent with rfl | ⟨before, last, rfl⟩
      · rw [List.append_nil] at hall
        obtain ⟨rfl, rfl⟩ := List.append_singleton_inj.mp hall
        exact .inl ⟨rfl, next, rfl, happears⟩
      · rw [List.concat_eq_append] at hall hquiet ⊢
        rw [← List.append_assoc] at hall
        obtain ⟨rfl, rfl⟩ := List.append_singleton_inj.mp hall
        obtain ⟨hquiet, hlast⟩ := quiet_append_singleton.mp hquiet
        exact .inr ⟨before, rfl, .appeared happears hquiet, hlast⟩
  · rintro (⟨rfl, next, rfl, happears⟩ | ⟨before, rfl, hsince, hlast⟩)
    · have happeared := Since.appeared happears (quiet_nil source name _)
      rwa [List.append_nil] at happeared
    · cases hsince with
      | start hquiet => exact .start (quiet_append_singleton.mpr ⟨hquiet, hlast⟩)
      | appeared happears hquiet =>
        rw [List.append_assoc _ before]
        exact .appeared happears (quiet_append_singleton.mpr ⟨hquiet, hlast⟩)

/-- There is always a last time that the name has appeared, or it has not. -/
theorem exists_since (source name : Text) (edits : List Edit) :
    ∃ recent, Since source name edits recent := by
  induction edits using List.reverseRecOn with
  | nil => exact ⟨[], .start (quiet_nil source name [])⟩
  | append_singleton edits e ih =>
    obtain ⟨recent, hsince⟩ := ih
    by_cases happears : ∃ next, e = .reparse next ∧ Appears source name edits next
    · exact ⟨[], since_append_singleton.mpr (.inl ⟨rfl, happears⟩)⟩
    · refine ⟨recent ++ [e], since_append_singleton.mpr (.inr ⟨recent, rfl, hsince, ?_⟩)⟩
      intro next hnext hnew
      exact happears ⟨next, hnext, hnew⟩

/-! ## The marks -/

/-- The name stands for a rule, and its marks are those that were set last with some edits. -/
def Marked (g : Grammar) (name : Text) (recent : List Edit) : Prop :=
  ∃ r, g.rule? name = some r ∧
    ∀ mark : Mark, mark.value r = (lastSet mark name recent).getD mark.initial

/-- A name that is declared stands for a rule. -/
theorem exists_rule?_iff : (∃ r, g.rule? name = some r) ↔ name ∈ g.rules.map (·.name) := by
  rw [← Option.isSome_iff_exists, rule?, List.find?_isSome, List.mem_map]
  simp only [decide_eq_true_eq]

theorem declares_iff : Declares source name ↔ name ∈ (parse source).1.rules.map (·.name) :=
  List.mem_map.symm

/-- The grammar of a session is that of its source, but for marks and findings. -/
theorem remarked_session (source : Text) (edits : List Edit) :
    Remarked (parse (sourceAfter source edits)).1 (session source edits) := by
  induction edits using List.reverseRecOn with
  | nil => exact ⟨rfl, rfl, rfl⟩
  | append_singleton edits e ih =>
    rw [session_append_singleton, sourceAfter_append_singleton]
    cases e with
    | reparse next => exact remarked_restoreFlagsFrom _ _
    | change c => exact ih.trans (remarked_apply _ c)

theorem exists_rule?_session : (∃ r, (session source edits).rule? name = some r) ↔
    Declares (sourceAfter source edits) name := by
  rw [exists_rule?_iff, (remarked_session source edits).map_name, declares_iff]

theorem marked_parse (h : Declares source name) : Marked (parse source).1 name [] := by
  obtain ⟨r, hr⟩ := exists_rule?_iff.mpr (declares_iff.mp h)
  exact ⟨r, hr, value_of_mem_rules (mem_of_rule? hr).1⟩

/-- A name that no rule had is not marked by another source. -/
theorem marked_reparse_of_none (h : Declares next name) (hnone : g.rule? name = none) :
    Marked (reparse next g).1 name [] := by
  obtain ⟨r, hr, hmarks⟩ := marked_parse h
  obtain ⟨r', hr', hmarks'⟩ := exists_rule?_restoreFlagsFrom hr g
  refine ⟨r', hr', fun mark => ?_⟩
  rw [hmarks' mark, hnone]
  exact hmarks mark

/-- The marks of a name pass to another source that declares it. -/
theorem Marked.reparse (hg : Marked g name recent) (h : Declares next name) :
    Marked (reparse next g).1 name (recent ++ [.reparse next]) := by
  obtain ⟨old, hold, hmarks⟩ := hg
  obtain ⟨r, hr, -⟩ := marked_parse h
  obtain ⟨r', hr', hmarks'⟩ := exists_rule?_restoreFlagsFrom hr g
  refine ⟨r', hr', fun mark => ?_⟩
  rw [hmarks' mark, hold, lastSet_append_singleton]
  exact hmarks mark

theorem Marked.change (hg : Marked g name recent) (c : Change) :
    Marked (c.apply g) name (recent ++ [.change c]) := by
  obtain ⟨r, hr, hmarks⟩ := hg
  obtain ⟨r', hr', hmarks'⟩ := exists_rule?_apply hr c
  refine ⟨r', hr', fun mark => ?_⟩
  rw [hmarks' mark, lastSet_append_singleton, hmarks mark]
  show _ = ((c.valueFor mark name).or _).getD _
  cases c.valueFor mark name <;> rfl

theorem marked_session (h : Declares (sourceAfter source edits) name)
    (hsince : Since source name edits recent) : Marked (session source edits) name recent := by
  induction edits using List.reverseRecOn generalizing recent with
  | nil =>
    obtain rfl := eq_nil_of_since_nil hsince
    exact marked_parse h
  | append_singleton edits e ih =>
    rw [session_append_singleton]
    rw [sourceAfter_append_singleton] at h
    rcases since_append_singleton.mp hsince with
      ⟨rfl, next, rfl, hdeclared, hnew⟩ | ⟨before, rfl, hbefore, hlast⟩
    · refine marked_reparse_of_none hdeclared (Option.eq_none_iff_forall_ne_some.mpr ?_)
      intro r hr
      exact hnew (exists_rule?_session.mp ⟨r, hr⟩)
    · cases e with
      | reparse next =>
        have hdeclared : Declares (sourceAfter source edits) name := by
          by_contra hnew
          exact hlast next rfl ⟨h, hnew⟩
        exact (ih hdeclared hbefore).reparse h
      | change c => exact (ih h hbefore).change c

/-- **The marks of a name are those that were set last since it has appeared.**  A name that the
source declares stands for a rule; there are edits since the name has appeared, and each mark of
the rule has the value that it was last set to with these, or its initial one. -/
theorem marks_of_session (source : Text) (edits : List Edit) (name : Text)
    (h : Declares (sourceAfter source edits) name) :
    ∃ r, (session source edits).rule? name = some r ∧
      (∃ recent, Since source name edits recent) ∧
      ∀ recent, Since source name edits recent →
        ∀ mark : Mark, mark.value r = (lastSet mark name recent).getD mark.initial := by
  obtain ⟨recent, hsince⟩ := exists_since source name edits
  obtain ⟨r, hr, -⟩ := marked_session h hsince
  refine ⟨r, hr, ⟨recent, hsince⟩, fun other hother => ?_⟩
  obtain ⟨r', hr', hmarks⟩ := marked_session h hother
  rwa [Option.some.inj (hr.symm.trans hr')]

/-- A name that is given up and declared again, by two rules. -/
theorem marks_of_session_again :
    let source := "a : ; b : ;".toList
    let edits : List Edit := [.change (.set .breakpoint ['a'] true), .reparse "b : ;".toList,
      .reparse "b : a ; a : ; a : 'x' ;".toList, .change (.set .expanded ['a'] false)]
    Declares (sourceAfter source edits) ['a'] ∧
      ∃ r, (session source edits).rule? ['a'] = some r ∧
        (∃ recent, Since source ['a'] edits recent) ∧
        ∀ recent, Since source ['a'] edits recent →
          ∀ mark : Mark, mark.value r = (lastSet mark ['a'] recent).getD mark.initial :=
  ⟨by decide +kernel, marks_of_session _ _ _ (by decide +kernel)⟩

end Grammar
end GrammarAtlas
