import CallCoordination.Text.Double

/-!
# Decimal numerals

Numerals are kept as they were written. The one question asked about their value is whether it
exceeds what a double holds, and that is decided in exact arithmetic.
-/

namespace CallCoordination.Text

def push (n : Nat) (digit : Char) : Nat := 10 * n + (digit.toNat - 48)

def decimal (ds : List Char) : Nat := ds.foldl push 0

/-- A numeral without its sign: digits before and after the point, and a power of ten. -/
structure Numeral where
  whole : List Char
  fraction : List Char := []
  exponent : Int := 0
  deriving DecidableEq

namespace Numeral

/-- Whether the number is at least `Double.limit`. Its order of magnitude settles that alone, except
for numbers from `10 ^ 308` to `10 ^ 309`. -/
def exceedsDouble (n : Numeral) : Bool :=
  let digits := (n.whole ++ n.fraction).dropWhile (· = '0')
  let exponent := n.exponent - n.fraction.length
  let magnitude := digits.length + exponent
  if digits.isEmpty then false
  else if magnitude < 309 then false
  else if magnitude > 309 then true
  else if exponent < 0 then Double.limit * Nat.pow 10 exponent.natAbs ≤ decimal digits
  else Double.limit ≤ decimal digits * Nat.pow 10 exponent.natAbs

end Numeral

end CallCoordination.Text
