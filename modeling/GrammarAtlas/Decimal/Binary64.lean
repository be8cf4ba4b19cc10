/-!
# Rounding to binary floating point

The positive finite numbers of the 64-bit binary format are the multiples
`m * 2 ^ q` with `m < 2 ^ 53` and `-1074 ≤ q ≤ 971`.  They are taken as exact
rational numbers here, and rounding goes to the nearest of them, a tie to the one
with the even multiple.  Numbers from `2 ^ 1024` on have no finite neighbour
above and do not round.
-/

namespace GrammarAtlas
namespace Binary64

/-- A power with an exponent of either sign. -/
def power (base : Nat) (exponent : Int) : Rat :=
  if 0 ≤ exponent then (Nat.pow base exponent.toNat : Rat)
  else 1 / (Nat.pow base (-exponent).toNat : Rat)

/-- The greatest `e` with `2 ^ e ≤ x`, for a positive `x`. -/
def floorLog2 (x : Rat) : Int :=
  let e : Int := x.num.toNat.log2 - x.den.log2
  if power 2 e ≤ x then e else e - 1

/-- The nearest integer, a half going to the even one. -/
def nearest (x : Rat) : Int :=
  let below := x.floor
  let rest := x - below
  if rest < 1 / 2 ∨ rest = 1 / 2 ∧ below % 2 = 0 then below else below + 1

/-- The exponent `q` of the multiples among which a positive number lies. -/
def unitExponent (x : Rat) : Int := max (floorLog2 x - 52) (-1074)

/-- The nearest number of the format to a number that is not negative. -/
def round (x : Rat) : Option Rat :=
  if x = 0 then some 0
  else
    let unit := power 2 (unitExponent x)
    let y := nearest (x / unit) * unit
    if y < power 2 1024 then some y else none

end Binary64
end GrammarAtlas
