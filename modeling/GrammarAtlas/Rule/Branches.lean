import GrammarAtlas.Lexeme.Basic

/-!
# Branches of a rule's body

The body of a rule is a sequence of branches with pipes between them.  A pipe
inside parentheses belongs to its branch, and blocks of action code are no part
of any branch.  The functions here work on lexemes paired with their token index
and know nothing else about a rule.
-/

namespace GrammarAtlas

/-- A lexeme with the index of its token. -/
abbrev IndexedLexeme := Nat × Lexeme

namespace Branches

/-- The lexeme is a punctuation mark of one character. -/
def isMark (c : Char) (l : IndexedLexeme) : Bool := l.2.text = [c]

/-- Splits at the pipes outside parentheses.  `depth` is the number of
parentheses that are open, `branch` holds what the current branch has so far.
An empty branch in front of a pipe counts, an empty one at the end does not. -/
def split (depth : Int) (branch : List IndexedLexeme) :
    List IndexedLexeme → List (List IndexedLexeme)
  | [] => if branch = [] then [] else [branch]
  | l :: ls =>
    if isMark '(' l then split (depth + 1) (branch ++ [l]) ls
    else if isMark ')' l then split (depth - 1) (branch ++ [l]) ls
    else if isMark '|' l ∧ depth = 0 then branch :: split depth [] ls
    else split depth (branch ++ [l]) ls

end Branches
end GrammarAtlas
