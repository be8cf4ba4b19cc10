import GrammarAtlas.Checksum
import GrammarAtlas.Text.Uppercase

/-!
# Names of rules

The first character of a rule's name says what kind of rule it is: a capital
makes it a lexer rule.  A name also has a number that stays the same from one run
to the next and can be handed to other programs.
-/

namespace GrammarAtlas

/-- What a rule describes: tokens or their arrangement. -/
inductive RuleKind where
  | lexer
  | parser
  deriving DecidableEq, Repr

/-- Whether a name starts with a capital. -/
def isLexerName : Text → Bool
  | [] => false
  | c :: _ => Uppercase.holds c

/-- The kind of the rule with a name. -/
def RuleKind.ofName (name : Text) : RuleKind := if isLexerName name then .lexer else .parser

/-- The number that stands for a name outside the program. -/
def nameNumber (name : Text) : Nat := (Checksum.ofText name).toNat

end GrammarAtlas
