/-!
# Kinds of token

What the pieces of a grammar file can be.  Blanks, line ends and comments are
*trivia*: they separate tokens and are not kept.  An action or options block in
braces is one token with everything inside it; a lone opening brace is a kind of
its own that no lexed file contains, since an opening brace always starts a
block.
-/

namespace GrammarAtlas

/-- What a piece of a grammar file is. -/
inductive TokenKind where
  | parenOpen
  | parenClose
  | braceOpen
  | doubleColon
  | colon
  | semi
  | pipe
  | atSign
  | arrow
  /-- Operators and other punctuation without a structural meaning. -/
  | op
  /-- A literal in single quotes. -/
  | char
  /-- A literal in double quotes. -/
  | string
  | id
  | int
  | whitespace
  | newline
  | lineComment
  | blockComment
  /-- An action or the content of options, with both braces. -/
  | block
  /-- Neighbouring pieces that are nothing else. -/
  | garbage
  deriving DecidableEq, Repr

namespace TokenKind

/-- Whether pieces of this kind only separate others. -/
def isTrivia : TokenKind → Bool
  | .whitespace | .newline | .lineComment | .blockComment => true
  | _ => false

end TokenKind
end GrammarAtlas
