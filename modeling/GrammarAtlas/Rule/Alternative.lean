import GrammarAtlas.Rule.Basic
import GrammarAtlas.Rule.Branches

/-!
# Alternatives and left recursion

An alternative is a branch of a rule, given by token indices.  Asking for the
alternatives reads the texts of the rule's tokens up to the colon, and behind it
those of all tokens but blocks; a text that cannot be read is a fault.

A rule is left recursive when an alternative starts with the rule's own name.
Only the first token counts: recursion behind an optional part is not seen.  The
body can then be rewritten: the alternatives that do not recurse form the head,
and what follows the call in the others may be repeated behind it.
-/

namespace GrammarAtlas

/-- One branch of a rule, as token indices in source order. -/
structure Alternative where
  indices : List Nat
  deriving DecidableEq, Repr

namespace Alternative

/-- Number of tokens. -/
def size (a : Alternative) : Nat := a.indices.length

/-- Whether the alternative has no tokens. -/
def isEmpty (a : Alternative) : Bool := a.indices.isEmpty

/-- Index of the first token. -/
def first? (a : Alternative) : Option Nat := a.indices.head?

/-- Index of the last token. -/
def last? (a : Alternative) : Option Nat := a.indices.getLast?

/-- The tokens, as far as the stream has them. -/
def tokens (a : Alternative) (s : TokenStream) : List Token := a.indices.filterMap s.get?

/-- The texts of the tokens. -/
def texts (a : Alternative) (s : TokenStream) : Except ReadFault (List Text) :=
  a.indices.mapM s.textAt

/-- The source from the first token to the last. -/
def text (a : Alternative) (s : TokenStream) : Except ReadFault Text :=
  match a.first?, a.last? with
  | some first, some last => s.textBetween first last
  | _, _ => .ok []

/-- The source behind the first token, if there is more than that token. -/
def suffixText? (a : Alternative) (s : TokenStream) : Except ReadFault (Option Text) :=
  match a.indices with
  | [_, only] => some <$> s.textAt only
  | _ :: second :: third :: rest =>
    some <$> s.textBetween second ((third :: rest).getLastD third)
  | _ => .ok none

/-- Whether the alternative starts with a call of the named rule. -/
def startsWith (a : Alternative) (s : TokenStream) (rule : Text) : Except ReadFault Bool :=
  match a.first? with
  | some i => return (← s.textAt i) = rule
  | none => .ok false

end Alternative

namespace Rule

/-- The first of some tokens that is a colon, and the tokens behind it. -/
def seekColon (s : TokenStream) :
    List (Nat × Token) → Except ReadFault (Option (Nat × List (Nat × Token)))
  | [] => .ok none
  | (i, t) :: ts => do
    if (← s.text t) = [':'] then return some (i, ts) else seekColon s ts

/-- The first colon of the rule and the tokens behind it. -/
def colonAndBody (r : Rule) (s : TokenStream) :
    Except ReadFault (Option (Nat × List (Nat × Token))) :=
  seekColon s (s.indexed r.span.start r.span.stop)

/-- The alternatives of the rule; none without a colon. -/
def alternatives (r : Rule) (s : TokenStream) : Except ReadFault (List Alternative) := do
  match ← r.colonAndBody s with
  | none => return []
  | some (_, body) =>
    let lexemes ← (body.filter (·.2.kind ≠ .block)).mapM fun (i, t) =>
      return ((i, ⟨t.kind, ← s.text t⟩) : IndexedLexeme)
    return (Branches.split 0 [] lexemes).map fun branch => ⟨branch.map (·.1)⟩

/-- The bytes of the body: from the token behind the colon to the one before the
semicolon, if there are such tokens. -/
def bodyRange? (r : Rule) (s : TokenStream) : Except ReadFault (Option Span) := do
  match ← r.colonAndBody s with
  | none => return none
  | some (colon, _) =>
    match s.get? (colon + 1), s.get? (r.span.stop - 1) with
    | some first, some last =>
      if r.span.stop ≤ colon + 1 then return none
      else some <$> Span.forward ⟨first.span.start, last.span.stop⟩
    | _, _ => return none

/-- Whether some alternative starts with the rule's own name. -/
def detectLeftRecursion (r : Rule) (s : TokenStream) : Except ReadFault Bool := do
  (← r.alternatives s).anyM (·.startsWith s r.name)

/-- The rule with its mark for left recursion set from the stream. -/
def completed (r : Rule) (s : TokenStream) : Except ReadFault Rule :=
  return { r with leftRecursive := ← r.detectLeftRecursion s }

/-- Sorts alternatives into the texts of those that do not recurse and the
texts behind the call in those that do. -/
def regroup (r : Rule) (s : TokenStream) :
    List Alternative → Except ReadFault (List Text × List Text)
  | [] => .ok ([], [])
  | a :: as => do
    if a.isEmpty then regroup r s as
    else if ← a.startsWith s r.name then
      let suffix ← a.suffixText? s
      let (heads, tails) ← regroup r s as
      return (heads, suffix.toList ++ tails)
    else
      let head ← a.text s
      let (heads, tails) ← regroup r s as
      return (head :: heads, tails)

/-- The body written without direct left recursion: the heads in parentheses,
then the tails in parentheses, any number of times. -/
def leftRecursionRemoved (r : Rule) (s : TokenStream) : Except ReadFault Text := do
  let (heads, tails) ← regroup r s (← r.alternatives s)
  let bar := " | ".toList
  return '(' :: Text.join bar heads ++ ") (".toList ++ Text.join bar tails ++ ")*".toList

/-- Whether a token, if there is one, is the word `options`. -/
def isOptionsWord (s : TokenStream) : Option Token → Except ReadFault Bool
  | none => .ok false
  | some t => if t.kind = .id then return (← s.text t) = "options".toList else .ok false

/-- The blocks among some tokens, except those that follow the word `options`.
`previous` is the last token that was not left out. -/
def blocksAfter (s : TokenStream) (previous : Option Token) :
    List Token → Except ReadFault (List Token)
  | [] => .ok []
  | t :: ts => do
    if t.kind ≠ .block then blocksAfter s (some t) ts
    else if ← isOptionsWord s previous then blocksAfter s previous ts
    else return t :: (← blocksAfter s (some t) ts)

/-- The blocks of the rule that are action code. -/
def blocks (r : Rule) (s : TokenStream) : Except ReadFault (List Token) :=
  blocksAfter s none (r.tokens s)

end Rule
end GrammarAtlas
