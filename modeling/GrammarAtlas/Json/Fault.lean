import GrammarAtlas.Text.Quoted

/-!
# What can be wrong with a JSON text

A fault is a cause and a place.  The reader goes through the text once and knows
at every moment how much of it is left, so a place is the number of bytes left
unread.  Some faults are noticed by looking at the next byte, and their place is
behind that byte.

Lines count from one.  The column is the number of bytes of the line in front of
the place.
-/

namespace GrammarAtlas
namespace Json

/-- A value of a type that was not asked for. -/
inductive Found where
  | null
  | boolean (value : Bool)
  | integer (value : Int)
  /-- A number that is written with a point or an exponent, as it is shown. -/
  | floating (text : Text)
  | string (value : Text)
  | sequence
  | map
  deriving DecidableEq, Repr

/-- What was asked for. -/
inductive Expected where
  | string
  | boolean
  | sequence
  | stateId
  /-- A record under its name. -/
  | record (name : Text)
  deriving DecidableEq, Repr

/-- The causes of faults. -/
inductive Cause where
  | endInValue
  | endInString
  | endInList
  | endInObject
  | expectedColon
  | expectedCommaOrBracket
  | expectedCommaOrBrace
  | expectedWord
  | expectedValue
  | keyNotString
  | invalidEscape
  | invalidNumber
  | numberOutOfRange
  | controlCharacter
  | unpairedSurrogate
  | endOfHexEscape
  | trailingComma
  | trailingCharacters
  | invalidType (found : Found) (expected : Expected)
  | invalidValue (found : Found) (expected : Expected)
  | duplicateField (name : Text)
  deriving DecidableEq, Repr

/-- A cause and the number of bytes that were unread when it was noticed. -/
structure Fault where
  cause : Cause
  left : Nat
  deriving DecidableEq, Repr

/-- The wording of what was found. -/
def Found.text : Found → Text
  | .null => "null".toList
  | .boolean value => "boolean `".toList ++ (if value then "true" else "false").toList ++ "`".toList
  | .integer value =>
    "integer `".toList ++ (if value < 0 then ['-'] else []) ++ Text.decimal value.natAbs ++
      "`".toList
  | .floating text => "floating point `".toList ++ text ++ "`".toList
  | .string value => "string ".toList ++ Quoted.render value
  | .sequence => "sequence".toList
  | .map => "map".toList

/-- The wording of what was asked for. -/
def Expected.text : Expected → Text
  | .string => "a string".toList
  | .boolean => "a boolean".toList
  | .sequence => "a sequence".toList
  | .stateId => "u32".toList
  | .record name => "struct ".toList ++ name

/-- The wording of a cause. -/
def Cause.text : Cause → Text
  | .endInValue => "EOF while parsing a value".toList
  | .endInString => "EOF while parsing a string".toList
  | .endInList => "EOF while parsing a list".toList
  | .endInObject => "EOF while parsing an object".toList
  | .expectedColon => "expected `:`".toList
  | .expectedCommaOrBracket => "expected `,` or `]`".toList
  | .expectedCommaOrBrace => "expected `,` or `\x7d`".toList
  | .expectedWord => "expected ident".toList
  | .expectedValue => "expected value".toList
  | .keyNotString => "key must be a string".toList
  | .invalidEscape => "invalid escape".toList
  | .invalidNumber => "invalid number".toList
  | .numberOutOfRange => "number out of range".toList
  | .controlCharacter =>
    "control character (\\u0000-\\u001F) found while parsing a string".toList
  | .unpairedSurrogate => "lone leading surrogate in hex escape".toList
  | .endOfHexEscape => "unexpected end of hex escape".toList
  | .trailingComma => "trailing comma".toList
  | .trailingCharacters => "trailing characters".toList
  | .invalidType found expected =>
    "invalid type: ".toList ++ found.text ++ ", expected ".toList ++ expected.text
  | .invalidValue found expected =>
    "invalid value: ".toList ++ found.text ++ ", expected ".toList ++ expected.text
  | .duplicateField name => "duplicate field `".toList ++ name ++ "`".toList

/-- A fault at the place that is reached when `rest` is left. -/
def Fault.here (cause : Cause) (rest : Text) : Fault := ⟨cause, Text.byteSize rest⟩

/-- A fault behind the next byte of what is left. -/
def Fault.ahead (cause : Cause) (rest : Text) : Fault := ⟨cause, Text.byteSize rest - 1⟩

/-- A fault at the end of the text. -/
def Fault.atEnd (cause : Cause) : Fault := ⟨cause, 0⟩

/-- Line and column behind some bytes of a text, where the text starts at the
given line and column. -/
def place (line column : Nat) : Nat → Text → Nat × Nat
  | _, [] => (line, column)
  | offset, c :: t =>
    if offset < c.utf8Size then (line, column + offset)
    else if c = '\n' then place (line + 1) 0 (offset - 1) t
    else place line (column + c.utf8Size) (offset - c.utf8Size) t

/-- The wording of a fault in a text. -/
def Fault.message (whole : Text) (f : Fault) : Text :=
  let (line, column) := place 1 0 (Text.byteSize whole - f.left) whole
  f.cause.text ++ " at line ".toList ++ Text.decimal line ++ " column ".toList ++
    Text.decimal column

/-- A reader takes a value off the front of a text and leaves the rest. -/
abbrev Reader (α : Type) := Text → Except Fault (α × Text)

/-- Characters that may stand between the parts of a JSON text. -/
def isBlank (c : Char) : Bool := c = ' ' || c = '\n' || c = '\t' || c = '\r'

/-- A text without the blanks at its front. -/
def skipBlanks (t : Text) : Text := t.dropWhile isBlank

/-- Takes the letters of a word off the front. -/
def word : Text → Text → Except Fault Text
  | [], t => .ok t
  | _ :: _, [] => .error (.atEnd .endInValue)
  | w :: ws, c :: t => if c = w then word ws t else .error (.ahead .expectedWord (c :: t))

end Json
end GrammarAtlas
