import GrammarAtlas.Json.Strings

/-!
# Passing over JSON values

A value that nobody asked for is passed over, however deeply it nests.  It is
still checked to be JSON; numbers are checked for their form only.  The lists and
objects that are open are kept in a list of frames, the innermost first.
-/

namespace GrammarAtlas
namespace Json

/-- What follows the exponent of a number, behind the letter that starts it. -/
def skipExponent (t : Text) : Except Fault Text :=
  let unsigned := match t with
    | '+' :: u => u
    | '-' :: u => u
    | _ => t
  match unsigned with
  | [] => .error (.atEnd .invalidNumber)
  | c :: u =>
    if c.isDigit then .ok (u.dropWhile Char.isDigit) else .error (.ahead .invalidNumber (c :: u))

/-- What follows an exponent, if there is one. -/
def skipOptionalExponent : Text → Except Fault Text
  | 'e' :: t => skipExponent t
  | 'E' :: t => skipExponent t
  | t => .ok t

/-- What follows the digits behind a point. -/
def skipFraction (t : Text) : Except Fault Text :=
  match t with
  | c :: u =>
    if c.isDigit then skipOptionalExponent (u.dropWhile Char.isDigit)
    else .error (.ahead .invalidNumber t)
  | [] => .error (.atEnd .invalidNumber)

/-- What follows the digits of a number, or the point and exponent behind them. -/
def skipNumberTail : Text → Except Fault Text
  | '.' :: t => skipFraction t
  | t => skipOptionalExponent t

/-- What follows a number, behind its sign. -/
def skipNumber : Text → Except Fault Text
  | [] => .error (.atEnd .invalidNumber)
  | c :: t =>
    if c = '0' then
      match t with
      | d :: _ => if d.isDigit then .error (.ahead .invalidNumber t) else skipNumberTail t
      | [] => .ok []
    else if c.isDigit then skipNumberTail (t.dropWhile Char.isDigit)
    else .error (.ahead .invalidNumber (c :: t))

/-- An open list or object. -/
inductive Frame where
  | list
  | object
  deriving DecidableEq, Repr

namespace Frame

/-- The bracket that closes it. -/
def closing : Frame → Char
  | .list => ']'
  | .object => '\x7d'

/-- The fault of a text that ends in it. -/
def ended : Frame → Cause
  | .list => .endInList
  | .object => .endInObject

/-- The fault of something behind an element that is neither a comma nor the
closing bracket. -/
def unclosed : Frame → Cause
  | .list => .expectedCommaOrBracket
  | .object => .expectedCommaOrBrace

end Frame

/-- The front of a value: a value that is complete, or the opening of a list or
object; and what follows. -/
def skipFront (t : Text) : Except Fault (Option Frame × Text) := do
  match skipBlanks t with
  | [] => throw (.atEnd .endInValue)
  | c :: u =>
    if c = 'n' then return (none, ← word "ull".toList u)
    else if c = 't' then return (none, ← word "rue".toList u)
    else if c = 'f' then return (none, ← word "alse".toList u)
    else if c = '-' then return (none, ← skipNumber u)
    else if c.isDigit then return (none, ← skipNumber (c :: u))
    else if c = '"' then return (none, ← skipString u)
    else if c = '[' then return (some .list, u)
    else if c = '\x7b' then return (some .object, u)
    else throw (.ahead .expectedValue (c :: u))

/-- The key in front of a member's value, with the colon. -/
def skipKey (t : Text) : Except Fault Text := do
  match skipBlanks t with
  | [] => throw (.atEnd .endInObject)
  | c :: u =>
    if c = '"' then
      match skipBlanks (← skipString u) with
      | [] => throw (.atEnd .endInObject)
      | d :: v => if d = ':' then return v else throw (.ahead .expectedColon (d :: v))
    else throw (.ahead .keyNotString (c :: u))

/-- Where passing over a value stands. -/
inductive SkipState where
  /-- A value comes next. -/
  | value
  /-- The key of a member or an element of the innermost frame comes next. -/
  | element
  /-- The innermost frame may close.  An element precedes, or else the frame has
  just been opened. -/
  | close (afterElement : Bool)
  deriving DecidableEq, Repr

/-- What follows a value.  Every step but the one to an element takes something
off the text, which bounds their number. -/
def skipSteps : Nat → SkipState → List Frame → Text → Except Fault Text
  | 0, _, _, t => .error (.here .expectedValue t)
  | bound + 1, .value, frames, t => do
    match ← skipFront t with
    | (some frame, u) => skipSteps bound (.close false) (frame :: frames) u
    | (none, u) => if frames.isEmpty then return u else skipSteps bound (.close true) frames u
  | bound + 1, .element, frames, t =>
    match frames with
    | .object :: _ => do skipSteps bound .value frames (← skipKey t)
    | _ => skipSteps bound .value frames t
  | _ + 1, .close _, [], t => .ok t
  | bound + 1, .close afterElement, frame :: frames, t =>
    match skipBlanks t with
    | [] => .error (.atEnd frame.ended)
    | c :: u =>
      if c = ',' ∧ afterElement then skipSteps bound .element (frame :: frames) u
      else if c = frame.closing then
        if frames.isEmpty then .ok u else skipSteps bound (.close true) frames u
      else if afterElement then .error (.ahead frame.unclosed (c :: u))
      else skipSteps bound .element (frame :: frames) (c :: u)

/-- What follows the value at the front of a text. -/
def skipValue (t : Text) : Except Fault Text := skipSteps (3 * t.length + 3) .value [] t

end Json
end GrammarAtlas
