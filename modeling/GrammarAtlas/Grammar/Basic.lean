import GrammarAtlas.Grammar.Scan
import GrammarAtlas.Token.Lexing

/-!
# Grammars

A grammar is what one source says: its tokens, its rules in order of
declaration, and the references between rules.  A rule that has no colon is left
out and reported.  Of several rules under one name the first is the one that the
name stands for.

References are kept in one list for the whole grammar, and a rule knows its
stretch of it.  Asking a grammar about a rule of an older grammar is allowed; a
stretch that the list does not have reads as empty.
-/

namespace GrammarAtlas

/-- An identifier in a rule's body that names a rule of the grammar. -/
structure Reference where
  /-- Index of the identifier's token. -/
  token : Nat
  /-- Index of the named rule. -/
  rule : Nat
  deriving DecidableEq, Repr

/-- The rules of a source and the references between them. -/
structure Grammar where
  stream : TokenStream
  rules : List Rule
  references : List Reference
  deriving DecidableEq, Repr

namespace Grammar

/-- The grammar of an empty source. -/
def empty : Grammar := ⟨.empty, [], []⟩

/-- The index of the first rule with a name. -/
def indexOf? (rules : List Rule) (name : Text) : Option Nat := rules.findIdx? (·.name = name)

/-- Enters a name with an index, unless the table has the name. -/
def enter (table : List (Text × Nat)) (name : Text) (i : Nat) : List (Text × Nat) :=
  if (table.lookup name).isSome then table else table ++ [(name, i)]

/-- Enters the names of some rules, the first of which has the index `i`. -/
def enterAll (table : List (Text × Nat)) (i : Nat) : List Rule → List (Text × Nat)
  | [] => table
  | r :: rules => enterAll (enter table r.name i) (i + 1) rules

/-- The references among some tokens, each given with its index. -/
def referencesAmong (s : TokenStream) (rules : List Rule) :
    List (Nat × Token) → Except ReadFault (List Reference)
  | [] => return []
  | (i, t) :: ts => do
    if t.kind = .id then
      let target := indexOf? rules (← s.text t)
      return (target.map (⟨i, ·⟩)).toList ++ (← referencesAmong s rules ts)
    else referencesAmong s rules ts

/-- The references between a rule's colon and its semicolon. -/
def referencesIn (s : TokenStream) (rules : List Rule) (r : Rule) :
    Except ReadFault (List Reference) :=
  referencesAmong s rules (s.indexed (r.span.colon + 1) r.span.stop)

/-- Gives each rule its stretch of the list of references.  `start` is where the
stretch of the first begins. -/
def allot (start : Nat) : List (Rule × List Reference) → List Rule
  | [] => []
  | (r, refs) :: rest =>
    { r with references := ⟨start, start + refs.length⟩ } :: allot (start + refs.length) rest

/-- The rules with their references. -/
def link (s : TokenStream) (rules : List Rule) : Except ReadFault Grammar := do
  let made ← rules.mapM fun r => return (r, ← referencesIn s rules r)
  return ⟨s, allot 0 made, made.flatMap (·.2)⟩

/-- The grammar of a stream, and what is malformed in it. -/
def ofStream (s : TokenStream) : Except ReadFault (Grammar × Diagnostics) := do
  let visits ← s.scanFrom 0
  let g ← link s (visits.flatMap (·.rules))
  return (g, visits.flatMap (·.reports))

/-- The grammar of a source, and what was reported by lexing and by scanning.  The
tokens of a source can be read, so the stream never makes a fault. -/
def parse (source : Text) : Grammar × Diagnostics :=
  match ofStream (.lex source) with
  | .ok (g, found) => (g, TokenStream.lexDiagnostics source ++ found)
  | .error _ => (⟨.lex source, [], []⟩, TokenStream.lexDiagnostics source)

/-- The source text. -/
def source (g : Grammar) : Text := g.stream.source

/-- The table of the names, each with the index of a rule, as it is filled with one rule after
the other. -/
def byName (g : Grammar) : List (Text × Nat) := enterAll [] 0 g.rules

/-- The first rule with a name. -/
def rule? (g : Grammar) (name : Text) : Option Rule := g.rules.find? (·.name = name)

/-- The rules in order of their names. -/
def rulesByName (g : Grammar) : List Rule := g.rules.mergeSort fun a b => a.name.atMost b.name

/-- The first rule that an offset lies in. -/
def ruleAtOffset? (g : Grammar) (offset : Nat) : Option Rule :=
  g.rules.find? (·.containsOffset g.stream offset)

/-- The references made in a rule's body, in source order. -/
def referencesOf (g : Grammar) (r : Rule) : List Reference :=
  if r.references.stop ≤ g.references.length then
    (g.references.take r.references.stop).drop r.references.start
  else []

/-- The names of the rules that a rule refers to, in source order, with repeats. -/
def referencedNames (g : Grammar) (r : Rule) : List Text :=
  (g.referencesOf r).filterMap fun ref => (g.rules[ref.rule]?).map (·.name)

end Grammar
end GrammarAtlas
