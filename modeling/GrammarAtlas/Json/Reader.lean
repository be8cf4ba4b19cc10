import GrammarAtlas.Json.Number
import GrammarAtlas.Json.Skip

/-!
# Reading JSON by type

Readers are made for the type that is wanted, so a value of another type is a
fault at the place where it stands.  The fault is behind a value that is read as
a whole and in front of the bracket of a list or object.

A record is read from an object, whose members may come in any order, or from a
list of its fields.  Fields that are missing keep the value they have in the
record that reading starts from; members that are no fields are passed over; a
field may not be given twice.
-/

namespace GrammarAtlas
namespace Json

/-- The fault of a value of another type than the one that is expected. -/
def mismatch (expected : Expected) (t : Text) : Fault :=
  let fault (found : Found) (rest : Except Fault Text) : Fault :=
    match rest with
    | .ok rest => .here (.invalidType found expected) rest
    | .error f => f
  let ofNumber (result : Except Fault (Number × Text)) : Fault :=
    match result with
    | .ok (n, rest) => .here (.invalidType n.found expected) rest
    | .error f => f
  match t with
  | [] => .atEnd .expectedValue
  | c :: u =>
    if c = 'n' then fault .null (word "ull".toList u)
    else if c = 't' then fault (.boolean true) (word "rue".toList u)
    else if c = 'f' then fault (.boolean false) (word "alse".toList u)
    else if c = '-' then ofNumber (number true u)
    else if c.isDigit then ofNumber (number false t)
    else if c = '"' then
      match stringTail u with
      | .ok (s, rest) => .here (.invalidType (.string s) expected) rest
      | .error f => f
    else if c = '[' then .here (.invalidType .sequence expected) t
    else if c = '\x7b' then .here (.invalidType .map expected) t
    else .ahead .expectedValue t

/-- A string. -/
def string : Reader Text := fun t =>
  match skipBlanks t with
  | [] => .error (.atEnd .endInValue)
  | c :: u => if c = '"' then stringTail u else .error (mismatch .string (c :: u))

/-- A truth value. -/
def boolean : Reader Bool := fun t =>
  match skipBlanks t with
  | [] => .error (.atEnd .endInValue)
  | c :: u =>
    if c = 't' then return (true, ← word "rue".toList u)
    else if c = 'f' then return (false, ← word "alse".toList u)
    else .error (mismatch .boolean (c :: u))

/-- The ids of states are below this number. -/
def stateLimit : Nat := 0x100000000

/-- A number as the id of a state, which has to be a natural number of 32 bits. -/
def asStateId (n : Number) (rest : Text) : Except Fault (Nat × Text) :=
  match n with
  | .natural n =>
    if n < stateLimit then .ok (n, rest)
    else .error (.here (.invalidValue (.integer n) .stateId) rest)
  | .negative n => .error (.here (.invalidValue (.integer n) .stateId) rest)
  | .floating _ _ => .error (.here (.invalidType n.found .stateId) rest)

/-- The id of a state. -/
def stateId : Reader Nat := fun t =>
  match skipBlanks t with
  | [] => .error (.atEnd .endInValue)
  | c :: u =>
    if c = '-' then do
      let (n, rest) ← number true u
      asStateId n rest
    else if c.isDigit then do
      let (n, rest) ← number false (c :: u)
      asStateId n rest
    else .error (mismatch .stateId (c :: u))

/-- Whether a list goes on, and the text at its next element or behind its
closing bracket.  `first` tells that no element precedes. -/
def nextElement (first : Bool) (t : Text) : Except Fault (Bool × Text) :=
  match skipBlanks t with
  | [] => .error (.atEnd .endInList)
  | c :: u =>
    if c = ']' then .ok (false, u)
    else if first then .ok (true, c :: u)
    else if c = ',' then
      match skipBlanks u with
      | [] => .error (.atEnd .endInValue)
      | d :: v => if d = ']' then .error (.ahead .trailingComma (d :: v)) else .ok (true, d :: v)
    else .error (.ahead .expectedCommaOrBracket (c :: u))

/-- The elements of a list.  Each takes something off the text, which bounds
their number. -/
def elements {α : Type} (element : Reader α) : Nat → Bool → Text → Except Fault (List α × Text)
  | 0, _, t => .error (.here .trailingCharacters t)
  | bound + 1, first, t => do
    let (more, u) ← nextElement first t
    if more then
      let (x, rest) ← element u
      let (xs, rest) ← elements element bound false rest
      return (x :: xs, rest)
    else return ([], u)

/-- A list. -/
def list {α : Type} (element : Reader α) : Reader (List α) := fun t =>
  match skipBlanks t with
  | [] => .error (.atEnd .endInValue)
  | c :: u =>
    if c = '[' then elements element (u.length + 1) true u
    else .error (mismatch .sequence (c :: u))

/-- A field of a record: its name and how it is read into the record. -/
structure Field (α : Type) where
  name : Text
  read : α → Reader α

/-- A field that a reader gives the value of. -/
def Field.of {α β : Type} (name : Text) (value : Reader β) (set : α → β → α) : Field α :=
  ⟨name, fun record t => return (← value t).map (set record) id⟩

/-- What follows a record in form of a list, all of whose fields were given. -/
def listEnd (t : Text) : Except Fault Text :=
  match skipBlanks t with
  | [] => .error (.atEnd .endInList)
  | c :: u =>
    if c = ']' then .ok u
    else if c = ',' then
      match skipBlanks u with
      | d :: v =>
        .error (.ahead (if d = ']' then .trailingComma else .trailingCharacters) (d :: v))
      | [] => .error (.atEnd .trailingCharacters)
    else .error (.ahead .trailingCharacters (c :: u))

/-- A record in form of a list, behind its opening bracket. -/
def positional {α : Type} : List (Field α) → Bool → α → Reader α
  | [], _, record, t => return (record, ← listEnd t)
  | field :: fields, first, record, t => do
    let (more, u) ← nextElement first t
    if more then
      let (record, rest) ← field.read record u
      positional fields false record rest
    else return (record, u)

/-- The text behind the quote of an object's next key, or behind its closing
brace with no key.  `first` tells that no member precedes. -/
def nextKey (first : Bool) (t : Text) : Except Fault (Bool × Text) :=
  match skipBlanks t with
  | [] => .error (.atEnd .endInObject)
  | c :: u =>
    if c = '\x7d' then .ok (false, u)
    else if first then
      if c = '"' then .ok (true, u) else .error (.ahead .keyNotString (c :: u))
    else if c = ',' then
      match skipBlanks u with
      | [] => .error (.atEnd .endInValue)
      | d :: v =>
        if d = '"' then .ok (true, v)
        else if d = '\x7d' then .error (.ahead .trailingComma (d :: v))
        else .error (.ahead .keyNotString (d :: v))
    else .error (.ahead .expectedCommaOrBrace (c :: u))

/-- What follows the colon behind a key. -/
def colon (t : Text) : Except Fault Text :=
  match skipBlanks t with
  | [] => .error (.atEnd .endInObject)
  | c :: u => if c = ':' then .ok u else .error (.ahead .expectedColon (c :: u))

/-- The fault of a field that is given again.  It is noticed behind the key, and
behind the closing brace if the object ends there. -/
def duplicate (name : Text) (t : Text) : Fault :=
  let next := skipBlanks t
  .here (.duplicateField name) (if next.head? = some '\x7d' then next.tail else next)

/-- The members of an object, read into a record.  `given` are the fields that
were given before. -/
def members {α : Type} (fields : List (Field α)) :
    Nat → Bool → List Text → α → Text → Except Fault (α × Text)
  | 0, _, _, _, t => .error (.here .trailingCharacters t)
  | bound + 1, first, given, record, t => do
    let (more, u) ← nextKey first t
    if more then
      let (key, rest) ← stringTail u
      match fields.find? (·.name = key) with
      | some field =>
        if key ∈ given then throw (duplicate key rest)
        let (record, rest) ← field.read record (← colon rest)
        members fields bound false (key :: given) record rest
      | none =>
        members fields bound false given record (← skipValue (← colon rest))
    else return (record, u)

/-- A record under a name, as an object or as a list of its fields.  Fields that
are not given are those of `start`. -/
def record {α : Type} (name : Text) (fields : List (Field α)) (start : α) : Reader α := fun t =>
  match skipBlanks t with
  | [] => .error (.atEnd .endInValue)
  | c :: u =>
    if c = '[' then positional fields true start u
    else if c = '\x7b' then members fields (u.length + 1) true [] start u
    else .error (mismatch (.record name) (c :: u))

/-- A whole text as one value; only blanks may follow it. -/
def whole {α : Type} (value : Reader α) (t : Text) : Except Fault α := do
  let (x, rest) ← value t
  if (skipBlanks rest).isEmpty then return x
  else throw (.ahead .trailingCharacters (skipBlanks rest))

end Json
end GrammarAtlas
