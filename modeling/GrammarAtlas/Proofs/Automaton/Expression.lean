import GrammarAtlas.Proofs.Automaton.Combinators

/-!
# Expressions and the automata built for them

The body of a rule is a tree: terminals and rule calls at the leaves, sequences,
alternatives and repetitions above.  `Expression.language` is the regular
language that it stands for, said without any automaton.

An automaton for a tree is built from the leaves up, by one call of a combinator
for each node on the fragments made for its children.  The order is left open:
`Assembly a b pool` says that some calls lead from `a` to `b` and that the
fragments in `pool`, each with the tree it was made for, have not been used in
another one.  Trees may be built one after the other or in turns, and the
children of a node in any order.

Every call keeps the fragments of the pool apart and gives the new one the
language of its tree (`Assembly.apart`).  Hence compiling a tree never fails
(`Expression.build_assembly`), and the words of a rule are those of its body.
-/

namespace GrammarAtlas

open scoped Computability

/-- The body of a rule. -/
inductive Expression where
  | symbol (text : Text)
  | ruleRef (name : Text)
  | epsilon
  | sequence (parts : List Expression)
  | alternation (parts : List Expression)
  | optional (inner : Expression)
  | zeroOrMore (inner : Expression)
  | oneOrMore (inner : Expression)

namespace Expression

mutual

/-- The language that a body stands for.  A sequence of nothing and a choice
between nothing stand for the empty word. -/
def language : Expression → Language Letter
  | symbol text => {[.symbol text]}
  | ruleRef name => {[.rule name]}
  | epsilon => 1
  | sequence parts => (languages parts).prod
  | alternation [] => 1
  | alternation (part :: parts) => (language part :: languages parts).sum
  | optional inner => 1 + inner.language
  | zeroOrMore inner => inner.language∗
  | oneOrMore inner => inner.language * inner.language∗

/-- The languages of several bodies. -/
def languages : List Expression → List (Language Letter)
  | [] => []
  | part :: parts => part.language :: languages parts

end

end Expression

/-- A fragment and the tree that it was made for. -/
structure Made where
  expression : Expression
  fragment : Fragment

open Build in
/-- **Combinator calls that lead from one automaton to another.**  The pool holds
the fragments that are still to be used. -/
inductive Assembly (a : Automaton) : Automaton → List Made → Prop
  | start : Assembly a a []
  | reorder {b : Automaton} {pool pool' : List Made} :
      Assembly a b pool → pool.Perm pool' → Assembly a b pool'
  | symbol {b c : Automaton} {f : Fragment} {pool : List Made} (text : Text) :
      Assembly a b pool → (symbol text).run b = .ok (f, c) →
      Assembly a c (⟨.symbol text, f⟩ :: pool)
  | ruleRef {b c : Automaton} {f : Fragment} {pool : List Made} (name : Text) :
      Assembly a b pool → (ruleRef name).run b = .ok (f, c) →
      Assembly a c (⟨.ruleRef name, f⟩ :: pool)
  | epsilon {b c : Automaton} {f : Fragment} {pool : List Made} :
      Assembly a b pool → epsilon.run b = .ok (f, c) → Assembly a c (⟨.epsilon, f⟩ :: pool)
  | sequence {b c : Automaton} {f : Fragment} {pool : List Made} (parts : List Made) :
      Assembly a b (parts ++ pool) → (sequence (parts.map (·.fragment))).run b = .ok (f, c) →
      Assembly a c (⟨.sequence (parts.map (·.expression)), f⟩ :: pool)
  | alternation {b c : Automaton} {f : Fragment} {pool : List Made} (parts : List Made) :
      Assembly a b (parts ++ pool) → (alternation (parts.map (·.fragment))).run b = .ok (f, c) →
      Assembly a c (⟨.alternation (parts.map (·.expression)), f⟩ :: pool)
  | optional {b c : Automaton} {f : Fragment} {pool : List Made} (inner : Made) :
      Assembly a b (inner :: pool) → (optional inner.fragment).run b = .ok (f, c) →
      Assembly a c (⟨.optional inner.expression, f⟩ :: pool)
  | zeroOrMore {b c : Automaton} {f : Fragment} {pool : List Made} (inner : Made) :
      Assembly a b (inner :: pool) → (zeroOrMore inner.fragment).run b = .ok (f, c) →
      Assembly a c (⟨.zeroOrMore inner.expression, f⟩ :: pool)
  | oneOrMore {b c : Automaton} {f : Fragment} {pool : List Made} (inner : Made) :
      Assembly a b (inner :: pool) → (oneOrMore inner.fragment).run b = .ok (f, c) →
      Assembly a c (⟨.oneOrMore inner.expression, f⟩ :: pool)

open Automaton

namespace Automaton.Apart

variable {a b : Automaton} {f : Fragment} {L : Language Letter} {used rest : List Part}

theorem right (h : a.Apart (used ++ rest)) : a.Apart rest :=
  ⟨fun q hq => h.holds q (List.mem_append_right _ hq), (List.pairwise_append.mp h.disjoint).2.1⟩

theorem left (h : a.Apart (used ++ rest)) : a.Apart used :=
  ⟨fun q hq => h.holds q (List.mem_append_left _ hq), (List.pairwise_append.mp h.disjoint).1⟩

/-- What is made of some parts takes their place among the others. -/
theorem replace {m : Build Fragment} (h : a.Apart (used ++ rest))
    (hm : Makes m a (Part.union used) L) (hrun : m.run a = .ok (f, b)) :
    ∃ T, b.Apart (⟨f, T, L⟩ :: rest) := by
  obtain ⟨f', b', hrun', hpiece, hgrow⟩ := hm
  rw [hrun] at hrun'
  obtain ⟨rfl, rfl⟩ : f = f' ∧ b = b' := by simpa using hrun'
  have hsep : ∀ q ∈ rest, Disjoint (Part.union used) q.states := fun q hq =>
    Set.disjoint_left.mpr fun u ⟨p, hp, hu⟩ =>
      Set.disjoint_left.mp ((List.pairwise_append.mp h.disjoint).2.2 p hp q hq) hu
  have hrest : b.Apart rest := h.right.grow hgrow <|
    Set.disjoint_left.mpr fun _ ⟨q, hq, hu⟩ hu' => Set.disjoint_left.mp (hsep q hq) hu' hu
  refine ⟨Part.union used ∪ Set.Ico a.size b.size, ?_, List.pairwise_cons.mpr ⟨?_, hrest.disjoint⟩⟩
  · rintro q (_ | ⟨_, hq⟩)
    · exact hpiece
    · exact hrest.holds q hq
  · intro q hq
    exact Set.disjoint_union_left.mpr ⟨hsep q hq, (h.right.holds q hq).disjoint_new _⟩

end Automaton.Apart

namespace Made

/-- The part is the fragment, and has the language of the tree. -/
def Fits (m : Made) (p : Part) : Prop :=
  p.fragment = m.fragment ∧ p.language = m.expression.language

variable {a : Automaton} {pool used : List Made} {parts : List Part} {inner : Made}

theorem map_fragment_eq (h : List.Forall₂ Fits pool parts) :
    pool.map (·.fragment) = parts.map (·.fragment) := by
  induction h with
  | nil => rfl
  | cons hfit _ ih => rw [List.map_cons, List.map_cons, hfit.1, ih]

theorem languages_eq (h : List.Forall₂ Fits pool parts) :
    Expression.languages (pool.map (·.expression)) = parts.map (·.language) := by
  induction h with
  | nil => rfl
  | cons hfit _ ih => rw [List.map_cons, List.map_cons, Expression.languages, hfit.2, ih]

/-- Fragments at the front of the pool have their parts at the front. -/
theorem split_fits (h : List.Forall₂ Fits (used ++ pool) parts) :
    ∃ ps qs, parts = ps ++ qs ∧ List.Forall₂ Fits used ps ∧ List.Forall₂ Fits pool qs := by
  induction used generalizing parts with
  | nil => exact ⟨[], parts, rfl, .nil, h⟩
  | cons m used ih =>
    cases h with
    | @cons _ p _ parts hfit h =>
      obtain ⟨ps, qs, rfl, hps, hqs⟩ := ih h
      exact ⟨p :: ps, qs, rfl, .cons hfit hps, hqs⟩

/-- The computation makes the fragment of the tree out of the fragments used. -/
def Compiles (m : Build Fragment) (a : Automaton) (used : List Made) (e : Expression) : Prop :=
  ∀ ps, a.Apart ps → List.Forall₂ Fits used ps → Makes m a (Part.union ps) e.language

theorem compiles_symbol (text : Text) : Compiles (Build.symbol text) a [] (.symbol text) := by
  rintro _ - ⟨⟩
  rw [Part.union_nil]
  exact Build.makes_labelled (.symbol text) a

theorem compiles_ruleRef (name : Text) : Compiles (Build.ruleRef name) a [] (.ruleRef name) := by
  rintro _ - ⟨⟩
  rw [Part.union_nil]
  exact Build.makes_labelled (.rule name) a

theorem compiles_epsilon : Compiles Build.epsilon a [] .epsilon := by
  rintro _ - ⟨⟩
  rw [Part.union_nil]
  exact Build.makes_epsilon a

theorem compiles_sequence (used : List Made) :
    Compiles (Build.sequence (used.map (·.fragment))) a used
      (.sequence (used.map (·.expression))) := by
  intro ps hps hfits
  rw [Expression.language, map_fragment_eq hfits, languages_eq hfits]
  exact Build.makes_sequence hps

theorem compiles_alternation (used : List Made) :
    Compiles (Build.alternation (used.map (·.fragment))) a used
      (.alternation (used.map (·.expression))) := by
  intro ps hps hfits
  have h := Build.makes_alternation hps
  rw [← map_fragment_eq hfits, ← languages_eq hfits] at h
  cases hfits with
  | nil => exact h
  | cons hfit hfits => exact h

theorem compiles_optional (inner : Made) :
    Compiles (Build.optional inner.fragment) a [inner] (.optional inner.expression) := by
  rintro _ hps (_ | ⟨hfit, ⟨⟩⟩)
  rw [Expression.language, ← hfit.1, ← hfit.2, Part.union_cons, Part.union_nil, Set.union_empty]
  exact Build.makes_optional hps.head

theorem compiles_zeroOrMore (inner : Made) :
    Compiles (Build.zeroOrMore inner.fragment) a [inner] (.zeroOrMore inner.expression) := by
  rintro _ hps (_ | ⟨hfit, ⟨⟩⟩)
  rw [Expression.language, ← hfit.1, ← hfit.2, Part.union_cons, Part.union_nil, Set.union_empty]
  exact Build.makes_zeroOrMore hps.head

theorem compiles_oneOrMore (inner : Made) :
    Compiles (Build.oneOrMore inner.fragment) a [inner] (.oneOrMore inner.expression) := by
  rintro _ hps (_ | ⟨hfit, ⟨⟩⟩)
  rw [Expression.language, ← hfit.1, ← hfit.2, Part.union_cons, Part.union_nil, Set.union_empty]
  exact Build.makes_oneOrMore hps.head

end Made

namespace Assembly

open Made

variable {a b c : Automaton} {f : Fragment} {pool used : List Made} {m : Build Fragment}
variable {e : Expression}

/-- A call keeps the fragments of the pool apart. -/
theorem apart_call (hcall : Compiles m b used e) (hrun : m.run b = .ok (f, c))
    (h : ∃ parts, b.Apart parts ∧ List.Forall₂ Fits (used ++ pool) parts) :
    ∃ parts, c.Apart parts ∧ List.Forall₂ Fits (⟨e, f⟩ :: pool) parts := by
  obtain ⟨parts, hparts, hfits⟩ := h
  obtain ⟨ps, qs, rfl, hps, hqs⟩ := split_fits hfits
  obtain ⟨T, hapart⟩ := hparts.replace (hcall ps hparts.left hps) hrun
  exact ⟨⟨f, T, e.language⟩ :: qs, hapart, .cons ⟨rfl, rfl⟩ hqs⟩

/-- **The fragments of the pool are apart, and each has the language of its tree.** -/
theorem apart (h : Assembly a b pool) :
    ∃ parts, b.Apart parts ∧ List.Forall₂ Fits pool parts := by
  induction h with
  | start => exact ⟨[], ⟨fun _ hp => absurd hp List.not_mem_nil, .nil⟩, .nil⟩
  | reorder _ hperm ih =>
    obtain ⟨parts, hparts, hfits⟩ := ih
    obtain ⟨parts', hfits', hperm'⟩ := List.perm_comp_forall₂ hperm.symm hfits
    refine ⟨parts', ⟨fun p hp => hparts.holds p (hperm'.mem_iff.mp hp), ?_⟩, hfits'⟩
    exact (hperm'.pairwise_iff fun h => h.symm).mpr hparts.disjoint
  | symbol text _ hrun ih => exact apart_call (compiles_symbol text) hrun ih
  | ruleRef name _ hrun ih => exact apart_call (compiles_ruleRef name) hrun ih
  | epsilon _ hrun ih => exact apart_call compiles_epsilon hrun ih
  | sequence used _ hrun ih => exact apart_call (compiles_sequence used) hrun ih
  | alternation used _ hrun ih => exact apart_call (compiles_alternation used) hrun ih
  | optional inner _ hrun ih => exact apart_call (compiles_optional inner) hrun ih
  | zeroOrMore inner _ hrun ih => exact apart_call (compiles_zeroOrMore inner) hrun ih
  | oneOrMore inner _ hrun ih => exact apart_call (compiles_oneOrMore inner) hrun ih

/-- A combinator can always be called on fragments of the pool. -/
theorem exists_run (hcall : Compiles m b used e) (h : Assembly a b (used ++ pool)) :
    ∃ f c, m.run b = .ok (f, c) := by
  obtain ⟨parts, hparts, hfits⟩ := h.apart
  obtain ⟨ps, qs, rfl, hps, -⟩ := split_fits hfits
  obtain ⟨f, c, hrun, -⟩ := hcall ps hparts.left hps
  exact ⟨f, c, hrun⟩

end Assembly

/-! ## From the leaves up -/

namespace Expression

mutual

/-- Compiles a tree: first its children, from left to right, then the node. -/
def build : Expression → Build Fragment
  | symbol text => Build.symbol text
  | ruleRef name => Build.ruleRef name
  | epsilon => Build.epsilon
  | sequence parts => do Build.sequence (← buildAll parts)
  | alternation parts => do Build.alternation (← buildAll parts)
  | optional inner => do Build.optional (← inner.build)
  | zeroOrMore inner => do Build.zeroOrMore (← inner.build)
  | oneOrMore inner => do Build.oneOrMore (← inner.build)

/-- Compiles trees from left to right. -/
def buildAll : List Expression → Build (List Fragment)
  | [] => return []
  | part :: parts => do
    let f ← part.build
    return f :: (← buildAll parts)

end

mutual

/-- **Compiling a tree succeeds, and it is an assembly.** -/
theorem build_assembly (e : Expression) {a b : Automaton} {pool : List Made}
    (h : Assembly a b pool) :
    ∃ f c, e.build.run b = .ok (f, c) ∧ Assembly a c (⟨e, f⟩ :: pool) := by
  cases e with
  | symbol text =>
    obtain ⟨f, c, hrun⟩ := Assembly.exists_run (Made.compiles_symbol text) h
    exact ⟨f, c, hrun, .symbol text h hrun⟩
  | ruleRef name =>
    obtain ⟨f, c, hrun⟩ := Assembly.exists_run (Made.compiles_ruleRef name) h
    exact ⟨f, c, hrun, .ruleRef name h hrun⟩
  | epsilon =>
    obtain ⟨f, c, hrun⟩ := Assembly.exists_run Made.compiles_epsilon h
    exact ⟨f, c, hrun, .epsilon h hrun⟩
  | sequence parts =>
    obtain ⟨made, c, hrun, rfl, h⟩ := buildAll_assembly parts h
    obtain ⟨f, d, hrun'⟩ := Assembly.exists_run (Made.compiles_sequence made) h
    refine ⟨f, d, ?_, .sequence made h hrun'⟩
    rw [build, Build.run_bind hrun, hrun']
  | alternation parts =>
    obtain ⟨made, c, hrun, rfl, h⟩ := buildAll_assembly parts h
    obtain ⟨f, d, hrun'⟩ := Assembly.exists_run (Made.compiles_alternation made) h
    refine ⟨f, d, ?_, .alternation made h hrun'⟩
    rw [build, Build.run_bind hrun, hrun']
  | optional inner =>
    obtain ⟨f, c, hrun, h⟩ := build_assembly inner h
    obtain ⟨g, d, hrun'⟩ := Assembly.exists_run (Made.compiles_optional ⟨inner, f⟩) h
    refine ⟨g, d, ?_, .optional ⟨inner, f⟩ h hrun'⟩
    rw [build, Build.run_bind hrun, hrun']
  | zeroOrMore inner =>
    obtain ⟨f, c, hrun, h⟩ := build_assembly inner h
    obtain ⟨g, d, hrun'⟩ := Assembly.exists_run (Made.compiles_zeroOrMore ⟨inner, f⟩) h
    refine ⟨g, d, ?_, .zeroOrMore ⟨inner, f⟩ h hrun'⟩
    rw [build, Build.run_bind hrun, hrun']
  | oneOrMore inner =>
    obtain ⟨f, c, hrun, h⟩ := build_assembly inner h
    obtain ⟨g, d, hrun'⟩ := Assembly.exists_run (Made.compiles_oneOrMore ⟨inner, f⟩) h
    refine ⟨g, d, ?_, .oneOrMore ⟨inner, f⟩ h hrun'⟩
    rw [build, Build.run_bind hrun, hrun']

theorem buildAll_assembly (parts : List Expression) {a b : Automaton} {pool : List Made}
    (h : Assembly a b pool) :
    ∃ made c, (buildAll parts).run b = .ok (made.map (·.fragment), c) ∧
      made.map (·.expression) = parts ∧ Assembly a c (made ++ pool) := by
  cases parts with
  | nil => exact ⟨[], b, rfl, rfl, h⟩
  | cons part parts =>
    obtain ⟨f, c, hrun, h⟩ := build_assembly part h
    obtain ⟨made, d, hrun', rfl, h⟩ := buildAll_assembly parts h
    refine ⟨⟨part, f⟩ :: made, d, ?_, rfl, h.reorder List.perm_middle⟩
    rw [buildAll, Build.run_bind hrun, Build.run_bind hrun']
    rfl

end

/-- **The words of a rule are those of its body.**  A body can be compiled into
any automaton, and however it was put together there, its definition under a name
gives start and stop states between which exactly the words of its language are
spelled. -/
theorem words_of_definition (a : Automaton) (name : Text) (e : Expression) :
    (∃ f b, e.build.run a = .ok (f, b) ∧ Assembly a b [⟨e, f⟩]) ∧
    ∀ f b pool, Assembly a b (⟨e, f⟩ :: pool) →
      ∃ ends c, (Build.defineRule name f).run b = .ok (ends, c) ∧ c.rule? name = some ends ∧
        ∀ w, Spells c.steps ends.start w ends.stop ↔ w ∈ e.language := by
  refine ⟨build_assembly e .start, fun f b pool h => ?_⟩
  obtain ⟨parts, hparts, hfits⟩ := h.apart
  cases hfits with
  | cons hfit _ =>
    have hbody := hparts.head
    rw [hfit.1, hfit.2] at hbody
    exact Build.defineRule_words name hbody

/-- A repeated symbol, as a rule of an automaton without states: two of it are
among its words, nothing is not. -/
theorem words_of_repeated_symbol :
    ∃ f b ends c, (oneOrMore (symbol ['x'])).build.run {} = .ok (f, b) ∧
      (Build.defineRule ['r'] f).run b = .ok (ends, c) ∧
      Spells c.steps ends.start [.symbol ['x'], .symbol ['x']] ends.stop ∧
      ¬ Spells c.steps ends.start [] ends.stop := by
  obtain ⟨⟨f, b, hrun, h⟩, hwords⟩ := words_of_definition {} ['r'] (oneOrMore (symbol ['x']))
  obtain ⟨ends, c, hdefine, -, hiff⟩ := hwords f b [] h
  refine ⟨f, b, ends, c, hrun, hdefine, (hiff _).mpr ?_, fun hnil => ?_⟩
  · refine Language.mem_mul.mpr ⟨[.symbol ['x']], rfl, [.symbol ['x']], ?_, rfl⟩
    refine Language.mem_kstar.mpr ⟨[[.symbol ['x']]], rfl, fun w hw => ?_⟩
    obtain rfl := List.mem_singleton.mp hw
    rfl
  · obtain ⟨w, hw, v, -, happend⟩ := Language.mem_mul.mp ((hiff _).mp hnil)
    obtain ⟨rfl, -⟩ := List.append_eq_nil_iff.mp happend
    exact List.cons_ne_nil _ _ (hw : [] = [Letter.symbol ['x']]).symm

end Expression
end GrammarAtlas
