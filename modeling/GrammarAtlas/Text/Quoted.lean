import GrammarAtlas.Text.Basic
import GrammarAtlas.Text.Printable

/-!
# Texts between quotes

How an arbitrary text is shown on one line: between double quotes, with a
backslash before a quote or a backslash, short forms for the tab, the two line
ends and the null character, and the code point in braces for every other
character that has no picture of its own.
-/

namespace GrammarAtlas
namespace Quoted

/-- The code point of a character in lower-case hexadecimal. -/
def codePoint (c : Char) : Text := "\\u\x7b".toList ++ Nat.toDigits 16 c.toNat ++ ['\x7d']

/-- What stands for a character between the quotes. -/
def escape (c : Char) : Text :=
  if c = '"' then ['\\', '"']
  else if c = '\\' then ['\\', '\\']
  else if c = '\t' then ['\\', 't']
  else if c = '\r' then ['\\', 'r']
  else if c = '\n' then ['\\', 'n']
  else if c = '\x00' then ['\\', '0']
  else if Printable.holds c then [c]
  else codePoint c

/-- A text between quotes. -/
def render (t : Text) : Text := '"' :: t.flatMap escape ++ ['"']

end Quoted
end GrammarAtlas
