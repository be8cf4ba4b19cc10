import GrammarAtlas.Decimal.Shortest
import GrammarAtlas.Json.Fault

/-!
# Numbers in JSON

A number without point and exponent is an integer as long as it fits into 64
bits; minus zero and all other numbers are taken in binary floating point.  Their
value is only ever shown, in the message that a number was not asked for.

Floating-point numbers are rounded three times at most: the digits as an integer
of 64 bits, further digits left out; then the product or quotient with a power of
ten, which is rounded itself.  What rounds to more than the largest number of the
format is out of range.
-/

namespace GrammarAtlas
namespace Json

/-- A number as it is taken from a text. -/
inductive Number where
  | natural (value : Nat)
  | negative (value : Int)
  /-- The size of a number in binary floating point, and its sign. -/
  | floating (isNegative : Bool) (size : Rat)
  deriving DecidableEq, Repr

namespace Number

/-- How a number that was not asked for is shown. -/
def found : Number → Found
  | .natural n => .integer n
  | .negative n => .integer n
  | .floating isNegative size =>
    .floating ((if isNegative then ['-'] else []) ++ Binary64.text size)

end Number

/-- The numbers of 64 bits are below this one. -/
def wordLimit : Nat := 0x10000000000000000

/-- Whether a number with one more digit still fits into 64 bits. -/
def fits (significand digit : Nat) : Bool := significand * 10 + digit < wordLimit

/-- The value of a digit. -/
def digitValue (c : Char) : Nat := c.toNat - '0'.toNat

/-- A number times a power of ten that is in the format; none if it is out of
range. -/
def scaleUp (x : Rat) (exponent : Nat) : Option Rat := do
  Binary64.round (x * (← Binary64.round (Binary64.power 10 exponent)))

/-- A number divided by a power of ten that is in the format. -/
def scaleDown (x : Rat) (exponent : Nat) : Rat :=
  ((do Binary64.round (x / (← Binary64.round (Binary64.power 10 exponent)))) : Option Rat).getD 0

/-- A number times a power of ten.  A negative exponent below the powers of the
format is taken in steps, until the number has become zero; `steps` bounds their
number. -/
def scale (x : Rat) (exponent : Int) : Nat → Option Rat
  | 0 => some 0
  | steps + 1 =>
    if exponent.natAbs ≤ 308 then
      if 0 ≤ exponent then scaleUp x exponent.toNat
      else some (scaleDown x exponent.natAbs)
    else if x = 0 then some 0
    else if 0 ≤ exponent then none
    else scale (scaleDown x 308) (exponent + 308) steps

/-- The floating-point number with some digits and a power of ten.  `rest` is
what follows it. -/
def floating (isNegative : Bool) (significand : Nat) (exponent : Int) (rest : Text) :
    Except Fault (Number × Text) :=
  match (Binary64.round significand).bind fun x => scale x exponent 8 with
  | some size => .ok (.floating isNegative size, rest)
  | none => .error (.here .numberOutOfRange rest)

/-- Exponents that are read digit by digit are below this number. -/
def exponentLimit : Nat := 0x80000000

/-- An exponent behind its first digits, which have a value already.  An exponent
that is too large decides the number at once. -/
def exponentDigits (isNegative : Bool) (significand : Nat) (start : Int) (down : Bool)
    (exponent : Nat) : Text → Except Fault (Number × Text)
  | [] => floating isNegative significand (if down then start - exponent else start + exponent) []
  | c :: t =>
    if c.isDigit then
      let longer := exponent * 10 + digitValue c
      if longer < exponentLimit then
        exponentDigits isNegative significand start down longer t
      else if significand ≠ 0 ∧ ¬ down then .error (.here .numberOutOfRange t)
      else .ok (.floating isNegative 0, t.dropWhile Char.isDigit)
    else
      floating isNegative significand (if down then start - exponent else start + exponent) (c :: t)

/-- An exponent behind its sign. -/
def exponentUnsigned (isNegative : Bool) (significand : Nat) (start : Int) (down : Bool) :
    Text → Except Fault (Number × Text)
  | [] => .error (.atEnd .endInValue)
  | c :: t =>
    if c.isDigit then exponentDigits isNegative significand start down (digitValue c) t
    else .error (.ahead .invalidNumber (c :: t))

/-- An exponent behind the letter that starts it. -/
def exponentPart (isNegative : Bool) (significand : Nat) (start : Int) :
    Text → Except Fault (Number × Text)
  | '+' :: t => exponentUnsigned isNegative significand start false t
  | '-' :: t => exponentUnsigned isNegative significand start true t
  | t => exponentUnsigned isNegative significand start false t

/-- What may follow the digits of a floating-point number. -/
def afterDigits (isNegative : Bool) (significand : Nat) (exponent : Int) :
    Text → Except Fault (Number × Text)
  | 'e' :: t => exponentPart isNegative significand exponent t
  | 'E' :: t => exponentPart isNegative significand exponent t
  | t => floating isNegative significand exponent t

/-- The digits behind a point.  `exponent` goes down by one with each, and `any`
tells whether there was one.  Digits that no longer fit are left out. -/
def fraction (isNegative : Bool) (significand : Nat) (exponent : Int) (any : Bool) :
    Text → Except Fault (Number × Text)
  | [] =>
    if any then afterDigits isNegative significand exponent []
    else .error (.atEnd .endInValue)
  | c :: t =>
    if c.isDigit then
      if fits significand (digitValue c) then
        fraction isNegative (significand * 10 + digitValue c) (exponent - 1) true t
      else afterDigits isNegative significand exponent (t.dropWhile Char.isDigit)
    else if any then afterDigits isNegative significand exponent (c :: t)
    else .error (.ahead .invalidNumber (c :: t))

/-- The digits of an integer that no longer fit.  `exponent` counts them. -/
def longInteger (isNegative : Bool) (significand : Nat) (exponent : Nat) :
    Text → Except Fault (Number × Text)
  | [] => floating isNegative significand exponent []
  | c :: t =>
    if c.isDigit then longInteger isNegative significand (exponent + 1) t
    else if c = '.' then fraction isNegative significand exponent false t
    else if c = 'e' ∨ c = 'E' then exponentPart isNegative significand exponent t
    else floating isNegative significand exponent (c :: t)

/-- A number without point and exponent.  A negative one that is zero, or below
the negative numbers of 64 bits, is a floating-point number. -/
def integer (isNegative : Bool) (significand : Nat) (rest : Text) :
    Except Fault (Number × Text) :=
  if ¬ isNegative then .ok (.natural significand, rest)
  else if significand = 0 ∨ 0x8000000000000000 < significand then floating true significand 0 rest
  else .ok (.negative (-(significand : Int)), rest)

/-- A number behind its first digits. -/
def numberTail (isNegative : Bool) (significand : Nat) : Text → Except Fault (Number × Text)
  | [] => integer isNegative significand []
  | c :: t =>
    if c.isDigit then
      if fits significand (digitValue c) then
        numberTail isNegative (significand * 10 + digitValue c) t
      else longInteger isNegative significand 0 (c :: t)
    else if c = '.' then fraction isNegative significand 0 false t
    else if c = 'e' ∨ c = 'E' then exponentPart isNegative significand 0 t
    else integer isNegative significand (c :: t)

/-- A number behind its sign.  Nothing may follow a zero but a point or an
exponent. -/
def number (isNegative : Bool) : Text → Except Fault (Number × Text)
  | [] => .error (.atEnd .endInValue)
  | c :: t =>
    if c = '0' then
      match t with
      | d :: _ =>
        if d.isDigit then .error (.ahead .invalidNumber t) else numberTail isNegative 0 t
      | [] => numberTail isNegative 0 t
    else if c.isDigit then numberTail isNegative (digitValue c) t
    else .error (.ahead .invalidNumber (c :: t))

end Json
end GrammarAtlas
