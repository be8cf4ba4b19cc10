import GrammarAtlas.Diagnostic.Basic
import GrammarAtlas.Grammar.Bounds
import GrammarAtlas.Rule.Alternative

/-!
# Scanning a grammar file for its rules

The scan looks at a token, takes it for the first of a header, of settings, of an
action or of a rule, and jumps behind what it has found.  This is no grammar of
grammars; it is only as much as it takes to see where each rule starts, where its
colon is and which semicolon ends it.

Each look at a token is kept as a `Visit`, together with what came of it.  A rule
that has no colon is reported, and so is one that has no semicolon; the latter
takes in the rest of the file, so the scan ends there.
-/

namespace GrammarAtlas

/-- What the scan takes a token for. -/
inductive Opening where
  /-- The start of `grammar Name;` or `import A, B;`. -/
  | header
  /-- The word `options` or `tokens` in front of a block. -/
  | settings
  /-- The start of `@name`, `scope`, `catch` or `finally` with a block. -/
  | action
  /-- A word that may stand in front of a rule. -/
  | modifier
  /-- The name of a rule. -/
  | rule (name : Text)
  /-- A token that starts nothing. -/
  | stray
  deriving DecidableEq, Repr

namespace Opening

/-- Words that start a header. -/
def headerWords : List Text := ["grammar".toList, "import".toList]

/-- Words that may stand in front of the word `grammar`. -/
def grammarKinds : List Text :=
  ["lexer".toList, "parser".toList, "tree".toList, "combined".toList]

/-- Words that start settings when a block follows. -/
def settingsWords : List Text := ["options".toList, "tokens".toList]

/-- Words that start an action. -/
def actionWords : List Text := ["scope".toList, "catch".toList, "finally".toList]

/-- Words that may stand in front of a rule. -/
def modifiers : List Text :=
  ["fragment".toList, "public".toList, "protected".toList, "private".toList]

end Opening

/-- One look of the scan at a token. -/
structure Visit where
  index : Nat
  opening : Opening
  /-- The rules that were found there. -/
  rules : List Rule
  /-- What was reported there. -/
  reports : Diagnostics
  deriving DecidableEq, Repr

namespace TokenStream

/-- Whether an identifier with a text starts a header. -/
def opensHeader (s : TokenStream) (i : Nat) (text : Text) : Except ReadFault Bool :=
  if text ∈ Opening.headerWords then return true
  else if text ∈ Opening.grammarKinds then return (← s.textAt (i + 1)) = "grammar".toList
  else return false

/-- What the scan takes the token `t` at the index `i` for. -/
def opening (s : TokenStream) (i : Nat) (t : Token) : Except ReadFault Opening := do
  let text ← s.text t
  if t.kind = .atSign then return .action
  else if t.kind ≠ .id then return .stray
  else if ← s.opensHeader i text then return .header
  else if text ∈ Opening.settingsWords ∧ (s.get? (i + 1)).any (·.kind = .block) then
    return .settings
  else if text ∈ Opening.actionWords then return .action
  else if text ∈ Opening.modifiers then return .modifier
  else return .rule text

/-- The report on a rule that reaches from one token to another and has no colon
or no end. -/
def malformed (s : TokenStream) (name : Text) (start last : Nat) : Except ReadFault Diagnostics :=
  match s.get? start, s.get? last with
  | some first, some last => do
    let range ← Span.forward ⟨first.span.start, last.span.stop⟩
    return [.report .malformedRule (some range) (some name)]
  | _, _ => return []

/-- The rule over a span, if the span can delimit one. -/
def declared (s : TokenStream) (name : Text) (span : RuleSpan) : Except ReadFault (List Rule) :=
  match Rule.make name span s with
  | .ok r => return [← r.completed s]
  | .error _ => return []

/-- The look at a rule's name, and where the scan goes on if it does. -/
def visitRule (s : TokenStream) (i : Nat) (name : Text) :
    Except ReadFault (Visit × Option Nat) := do
  match ← s.ruleBounds none (i + 1) with
  | (_, none) => return (⟨i, .rule name, [], ← s.malformed name i (s.size - 1)⟩, none)
  | (some colon, some stop) =>
    return (⟨i, .rule name, ← s.declared name ⟨i, colon, stop⟩, []⟩, some (stop + 1))
  | (none, some stop) => return (⟨i, .rule name, [], ← s.malformed name i stop⟩, some (stop + 1))

/-- The look at the token `t` at the index `i`, and where the scan goes on if it
does. -/
def visit (s : TokenStream) (i : Nat) (t : Token) : Except ReadFault (Visit × Option Nat) := do
  match ← s.opening i t with
  | .header => return (⟨i, .header, [], []⟩, some (← s.skipPastSemi i))
  | .settings => return (⟨i, .settings, [], []⟩, some (i + 2))
  | .action => return (⟨i, .action, [], []⟩, some (s.skipThroughBlock (i + 1)))
  | .modifier => return (⟨i, .modifier, [], []⟩, some (i + 1))
  | .rule name => s.visitRule i name
  | .stray => return (⟨i, .stray, [], []⟩, some (i + 1))

theorem lt_of_visitRule {s : TokenStream} {i j : Nat} {name : Text} {v : Visit}
    (h : s.visitRule i name = .ok (v, some j)) : i < j := by
  obtain ⟨⟨colon, stop⟩, hbounds, h⟩ := exists_of_bind_ok h
  cases stop with
  | none =>
    obtain ⟨reports, -, h⟩ := exists_of_bind_ok h
    cases h
  | some stop =>
    have hle := le_of_ruleBounds hbounds
    cases colon with
    | none =>
      obtain ⟨reports, -, h⟩ := exists_of_bind_ok h
      cases h
      omega
    | some colon =>
      obtain ⟨rules, -, h⟩ := exists_of_bind_ok h
      cases h
      omega

/-- The scan goes on behind the token it looks at. -/
theorem lt_of_visit {s : TokenStream} {i j : Nat} {t : Token} {v : Visit}
    (hi : i < s.size) (h : s.visit i t = .ok (v, some j)) : i < j := by
  obtain ⟨opening, -, h⟩ := exists_of_bind_ok h
  cases opening with
  | header =>
    obtain ⟨next, hnext, h⟩ := exists_of_bind_ok h
    cases h
    exact lt_of_skipPastSemi hi hnext
  | settings =>
    cases h
    omega
  | action =>
    cases h
    exact Nat.lt_of_succ_le (s.le_skipThroughBlock (i + 1))
  | modifier =>
    cases h
    omega
  | rule name => exact lt_of_visitRule h
  | stray =>
    cases h
    omega

/-- The looks of a scan that starts at an index, in order. -/
def scanFrom (s : TokenStream) (i : Nat) : Except ReadFault (List Visit) :=
  match _hget : s.get? i with
  | none => return []
  | some t =>
    match _hvisit : s.visit i t with
    | .error fault => throw fault
    | .ok (v, none) => return [v]
    | .ok (v, some next) => return v :: (← scanFrom s next)
termination_by s.size - i
decreasing_by
  have hi : i < s.size := (List.getElem?_eq_some_iff.mp _hget).1
  have hnext := lt_of_visit hi _hvisit
  omega

end TokenStream
end GrammarAtlas
