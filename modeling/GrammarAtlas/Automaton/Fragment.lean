import GrammarAtlas.Automaton.Basic

/-!
# Building automata from fragments

A fragment is a part of an automaton with one entry and one exit state.  The
combinators join fragments by epsilon transitions into larger ones: in sequence,
as alternatives, optional, repeated.  A fragment that is handed to a combinator
becomes part of the result; a sequence or alternation of one fragment is that
fragment.

Building is a state computation on the automaton that stops at the first
transition out of a missing state.
-/

namespace GrammarAtlas

/-- A part of an automaton between two states. -/
structure Fragment where
  entry : StateId
  exit : StateId
  deriving DecidableEq, Repr

/-- The fragment of one state. -/
def Fragment.single (id : StateId) : Fragment := ⟨id, id⟩

/-- A computation that extends an automaton. -/
abbrev Build := StateT Automaton (Except MissingState)

namespace Build

/-- A new state. -/
def addState : Build StateId := do
  let a ← get
  set a.push
  return a.size

/-- A new transition. -/
def connect (source target : StateId) (label : Label) : Build Unit := do
  let a ← get
  if source < a.size then set (a.link source ⟨label, target⟩) else throw ⟨source⟩

/-- Two new states and a transition between them. -/
def labelled (label : Label) : Build Fragment := do
  let entry ← addState
  let exit ← addState
  connect entry exit label
  return ⟨entry, exit⟩

/-- A terminal. -/
def symbol (text : Text) : Build Fragment := labelled (.symbol text)

/-- A call of a rule. -/
def ruleRef (name : Text) : Build Fragment := labelled (.rule name)

/-- Nothing: a state that is entry and exit. -/
def epsilon : Build Fragment := return .single (← addState)

/-- Joins each fragment to the next and tells the exit of the last.  `exit` is
the exit of the fragment in front. -/
def chain (exit : StateId) : List Fragment → Build StateId
  | [] => return exit
  | f :: fs => do
    connect exit f.entry .epsilon
    chain f.exit fs

/-- One fragment after the other. -/
def sequence : List Fragment → Build Fragment
  | [] => epsilon
  | f :: fs => return ⟨f.entry, ← chain f.exit fs⟩

/-- Joins each fragment to a common entry and exit. -/
def fan (entry exit : StateId) : List Fragment → Build Unit
  | [] => return ()
  | f :: fs => do
    connect entry f.entry .epsilon
    connect f.exit exit .epsilon
    fan entry exit fs

/-- Any one of the fragments. -/
def alternation : List Fragment → Build Fragment
  | [] => epsilon
  | [f] => return f
  | fs => do
    let entry ← addState
    let exit ← addState
    fan entry exit fs
    return ⟨entry, exit⟩

/-- The fragment or nothing. -/
def optional (inner : Fragment) : Build Fragment := do
  let entry ← addState
  let exit ← addState
  connect entry inner.entry .epsilon
  connect entry exit .epsilon
  connect inner.exit exit .epsilon
  return ⟨entry, exit⟩

/-- The fragment any number of times.  The new entry is where the loop comes back
to, and it leads into the fragment and past it. -/
def zeroOrMore (inner : Fragment) : Build Fragment := do
  let branch ← addState
  let exit ← addState
  connect branch inner.entry .epsilon
  connect branch exit .epsilon
  connect inner.exit branch .epsilon
  return ⟨branch, exit⟩

/-- The fragment once or more.  Its own entry stays the entry. -/
def oneOrMore (inner : Fragment) : Build Fragment := do
  let exit ← addState
  connect inner.exit inner.entry .epsilon
  connect inner.exit exit .epsilon
  return ⟨inner.entry, exit⟩

/-- Registers a fragment as a rule, between a new start state and a new stop
state, which accepts.  A later definition of a name replaces an earlier one. -/
def defineRule (name : Text) (body : Fragment) : Build RuleEnds := do
  let start ← addState
  let stop ← addState
  connect start body.entry .epsilon
  connect body.exit stop .epsilon
  modify (·.accept stop)
  modify (·.define name ⟨start, stop⟩)
  return ⟨start, stop⟩

end Build
end GrammarAtlas
