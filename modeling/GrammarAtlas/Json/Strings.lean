import GrammarAtlas.Json.Fault

/-!
# Strings in JSON

A string stands between double quotes.  It is written with short escapes for the
quote, the backslash and five controls, with hexadecimal escapes for the other
controls, and with every other character as it is.  The reader takes all escapes
that JSON has: a character beyond the sixteen-bit range may be escaped as a pair
of surrogates, and a surrogate without its partner is a fault.
-/

namespace GrammarAtlas
namespace Json

/-! ## Writing -/

/-- The escape of a control character by its code in hexadecimal. -/
def hexEscape (c : Char) : Text :=
  "\\u00".toList ++ [Nat.digitChar (c.toNat / 16), Nat.digitChar (c.toNat % 16)]

/-- How a character is written in a string. -/
def writeChar (c : Char) : Text :=
  if c = '"' then ['\\', '"']
  else if c = '\\' then ['\\', '\\']
  else if c = '\x08' then ['\\', 'b']
  else if c = '\x0c' then ['\\', 'f']
  else if c = '\n' then ['\\', 'n']
  else if c = '\r' then ['\\', 'r']
  else if c = '\t' then ['\\', 't']
  else if c.toNat < 32 then hexEscape c
  else [c]

/-- A string as it is written. -/
def writeString (t : Text) : Text := '"' :: t.flatMap writeChar ++ ['"']

/-! ## Reading -/

/-- The value of a hexadecimal digit. -/
def hexValue? (c : Char) : Option Nat :=
  if '0' ≤ c ∧ c ≤ '9' then some (c.toNat - '0'.toNat)
  else if 'a' ≤ c ∧ c ≤ 'f' then some (c.toNat - 'a'.toNat + 10)
  else if 'A' ≤ c ∧ c ≤ 'F' then some (c.toNat - 'A'.toNat + 10)
  else none

/-- The value of four hexadecimal digits at the front of a text. -/
def hexNumber? : Text → Option Nat
  | a :: b :: c :: d :: _ =>
    match hexValue? a, hexValue? b, hexValue? c, hexValue? d with
    | some a, some b, some c, some d => some (((a * 16 + b) * 16 + c) * 16 + d)
    | _, _, _, _ => none
  | _ => none

/-- The value of four hexadecimal digits at the front of a text.  Without them
the fault is behind the next four bytes, or at the end of a text that has fewer. -/
def hexNumber (t : Text) : Except Fault Nat :=
  match hexNumber? t with
  | some n => .ok n
  | none =>
    if Text.byteSize t < 4 then .error (.atEnd .endInString)
    else .error ⟨.invalidEscape, Text.byteSize t - 4⟩

/-- A sixteen-bit unit that starts a pair. -/
def isHighSurrogate (n : Nat) : Bool := 0xD800 ≤ n && n ≤ 0xDBFF

/-- A sixteen-bit unit that ends a pair. -/
def isLowSurrogate (n : Nat) : Bool := 0xDC00 ≤ n && n ≤ 0xDFFF

/-- The character of a pair of units. -/
def pairChar (high low : Nat) : Char :=
  Char.ofNat ((high - 0xD800) * 0x400 + (low - 0xDC00) + 0x10000)

/-- The end of a pair: the escape of a unit, behind the unit that starts it. -/
def lowSurrogate (t : Text) : Except Fault Nat :=
  match t with
  | [] => .error (.atEnd .endInString)
  | '\\' :: u =>
    match u with
    | [] => .error (.atEnd .endInString)
    | 'u' :: v => do
      let n ← hexNumber v
      if isLowSurrogate n then return n else throw (.here .unpairedSurrogate (v.drop 4))
    | _ => .error (.ahead .endOfHexEscape u)
  | _ => .error (.ahead .endOfHexEscape t)

/-- The character that an escape by code stands for and the number of characters
of the escape, behind the letter that starts it. -/
def unicodeEscape (t : Text) : Except Fault (Char × Nat) := do
  let n ← hexNumber t
  if isLowSurrogate n then throw (.here .unpairedSurrogate (t.drop 4))
  if isHighSurrogate n then
    let low ← lowSurrogate (t.drop 4)
    return (pairChar n low, 10)
  return (Char.ofNat n, 4)

/-- The character that a short escape stands for. -/
def shortEscape? (c : Char) : Option Char :=
  if c = '"' ∨ c = '\\' ∨ c = '/' then some c
  else if c = 'b' then some '\x08'
  else if c = 'f' then some '\x0c'
  else if c = 'n' then some '\n'
  else if c = 'r' then some '\r'
  else if c = 't' then some '\t'
  else none

/-- The character that an escape stands for and the number of characters of the
escape, behind the backslash. -/
def escape : Text → Except Fault (Char × Nat)
  | [] => .error (.atEnd .endInString)
  | c :: t =>
    match shortEscape? c with
    | some d => .ok (d, 1)
    | none =>
      if c = 'u' then return (← unicodeEscape t).map id (· + 1)
      else .error (.ahead .invalidEscape (c :: t))

/-- The rest of a string, behind its opening quote. -/
def stringTail : Text → Except Fault (Text × Text)
  | [] => .error (.atEnd .endInString)
  | c :: t =>
    if c = '"' then .ok ([], t)
    else if c = '\\' then do
      let (d, n) ← escape t
      let (s, rest) ← stringTail (t.drop n)
      return (d :: s, rest)
    else if c.toNat < 32 then .error (.here .controlCharacter t)
    else do
      let (s, rest) ← stringTail t
      return (c :: s, rest)
termination_by t => t.length
decreasing_by all_goals simp only [List.length_cons, List.length_drop]; omega

/-- The number of characters of an escape that is only passed over, behind the
backslash.  Surrogates need no partner. -/
def skipEscape : Text → Except Fault Nat
  | [] => .error (.atEnd .endInString)
  | c :: t =>
    if (shortEscape? c).isSome then .ok 1
    else if c = 'u' then do
      discard (hexNumber t)
      return 5
    else .error (.ahead .invalidEscape (c :: t))

/-- What follows a string that is only passed over, behind its opening quote.
The fault for a control character is in front of it. -/
def skipString : Text → Except Fault Text
  | [] => .error (.atEnd .endInString)
  | c :: t =>
    if c = '"' then .ok t
    else if c = '\\' then do
      let n ← skipEscape t
      skipString (t.drop n)
    else if c.toNat < 32 then .error (.here .controlCharacter (c :: t))
    else skipString t
termination_by t => t.length
decreasing_by all_goals simp only [List.length_cons, List.length_drop]; omega

end Json
end GrammarAtlas
