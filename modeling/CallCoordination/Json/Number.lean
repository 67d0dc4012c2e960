import CallCoordination.Text.Decimal

/-!
# The size of JSON numbers

A number is evaluated as a significand of 64 bits times a power of ten, both rounded to doubles.
Digits that the significand has no room for count as zeros before the point and not at all behind
it. Close to the largest double, that can put a number out of range that all its digits would not.
-/

namespace CallCoordination.Json

structure Scientific where
  significand : Nat
  exponent : Int
  deriving DecidableEq

namespace Scientific

/-- A significand followed by as many of the digits as it has room for, and how many are left. -/
def fill (significand : Nat) : List Char → Nat × Nat
  | [] => (significand, 0)
  | d :: ds =>
    if Text.push significand d < 1 <<< 64 then fill (Text.push significand d) ds
    else (significand, ds.length + 1)

def ofNumeral (n : Text.Numeral) : Scientific :=
  let (whole, dropped) := fill 0 n.whole
  let (significand, ignored) := fill whole n.fraction
  ⟨significand, n.exponent + dropped - (n.fraction.length - ignored)⟩

/-- Whether the number is out of the range of doubles. Powers of ten up to `10 ^ 308` are in it. -/
def overflows (x : Scientific) : Bool :=
  if x.significand = 0 ∨ x.exponent < 0 then false
  else if 308 < x.exponent then true
  else
    Text.Double.limit ≤
      Text.Double.nearest x.significand * Text.Double.nearest (Nat.pow 10 x.exponent.toNat)

end Scientific

end CallCoordination.Json
