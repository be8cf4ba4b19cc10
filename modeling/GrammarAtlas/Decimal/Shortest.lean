import GrammarAtlas.Decimal.Binary64
import GrammarAtlas.Text.Basic

/-!
# The shortest decimal of a binary number

A number of the binary format is written with the fewest decimal digits that
round to it again, and of those decimals with the nearest.  The search goes
through the decimal grids from coarse to fine; on each grid only the two
neighbours of the number need to be tried.
-/

namespace GrammarAtlas

/-- The decimal `digits * 10 ^ exponent`. -/
structure Decimal where
  digits : Nat
  exponent : Int
  deriving DecidableEq, Repr

namespace Decimal

/-- The number. -/
def value (d : Decimal) : Rat := d.digits * Binary64.power 10 d.exponent

/-- The same number without trailing zeros among the digits.  The first argument
bounds how many are removed. -/
def trim : Nat → Decimal → Decimal
  | 0, d => d
  | bound + 1, d =>
    if d.digits ≠ 0 ∧ d.digits % 10 = 0 then trim bound ⟨d.digits / 10, d.exponent + 1⟩ else d

/-- How far the decimal point of a number below one has to move to the right to
stand behind the first digit, counted from `n` on and at most `bound` further. -/
def leadingZeros (x : Rat) : Nat → Nat → Nat
  | 0, n => n
  | bound + 1, n => if 1 ≤ x * Binary64.power 10 n then n else leadingZeros x bound (n + 1)

/-- The greatest `e` with `10 ^ e ≤ x`, for a positive number of the format. -/
def floorLog10 (x : Rat) : Int :=
  if 1 ≤ x then ((Nat.toDigits 10 x.floor.toNat).length : Int) - 1
  else -(leadingZeros x 330 1 : Int)

/-- Whether `y` rounds to the positive number `x` of the format. -/
def roundsTo (x y : Rat) : Bool := Binary64.round y = some x

/-- The decimal with `n` digits nearest to `x` that rounds to it. -/
def onGrid? (x : Rat) (n : Nat) : Option Decimal :=
  let exponent := floorLog10 x - (n - 1)
  let below := (x / Binary64.power 10 exponent).floor.toNat
  let candidates := ([below, below + 1].map fun d => (⟨d, exponent⟩ : Decimal)).filter
    (roundsTo x ·.value)
  match candidates with
  | [a, b] =>
    let left := x - a.value
    let right := b.value - x
    some (if left < right ∨ left = right ∧ a.digits % 2 = 0 then a else b)
  | a :: _ => some a
  | [] => none

/-- The shortest decimal that rounds to the positive number `x` of the format;
seventeen digits always do. -/
def shortest (x : Rat) : Decimal :=
  trim 20 (((List.range 17).findSome? fun n => onGrid? x (n + 1)).getD ⟨0, 0⟩)

/-- Some zeros. -/
def zeros (n : Nat) : Text := List.replicate n '0'

/-- A positive decimal as text: positional while at most sixteen digits stand in
front of the point, or at most four zeros between the point and the first digit,
and with a signed power of ten otherwise.  Positional text always has a point. -/
def text (d : Decimal) : Text :=
  let digits := Text.decimal d.digits
  let point : Int := digits.length + d.exponent
  if 0 ≤ d.exponent ∧ point ≤ 16 then digits ++ zeros d.exponent.toNat ++ ['.', '0']
  else if 0 < point ∧ point ≤ 16 then
    digits.take point.toNat ++ '.' :: digits.drop point.toNat
  else if -5 < point ∧ point ≤ 0 then ['0', '.'] ++ zeros (-point).toNat ++ digits
  else
    let sign := if point - 1 < 0 then '-' else '+'
    digits.take 1 ++ (if digits.length = 1 then [] else '.' :: digits.drop 1) ++ 'e' :: sign ::
      Text.decimal (point - 1).natAbs

end Decimal

/-- The text of a number of the binary format that is not negative. -/
def Binary64.text (x : Rat) : Text :=
  if x = 0 then ['0', '.', '0'] else (Decimal.shortest x).text

end GrammarAtlas
