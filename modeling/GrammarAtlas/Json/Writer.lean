import GrammarAtlas.Json.Strings

/-!
# Writing JSON

Values are written without any blanks.
-/

namespace GrammarAtlas
namespace Json

/-- A list of written values. -/
def writeList (values : List Text) : Text := '[' :: Text.join [','] values ++ [']']

/-- An object of written values. -/
def writeObject (members : List (Text × Text)) : Text :=
  '\x7b' :: Text.join [','] (members.map fun m => writeString m.1 ++ ':' :: m.2) ++ ['\x7d']

/-- A truth value. -/
def writeBool (value : Bool) : Text := (if value then "true" else "false").toList

end Json
end GrammarAtlas
