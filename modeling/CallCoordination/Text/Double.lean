/-!
# Doubles

A double holds 53 significant bits. A natural number is rounded to the nearest double, and of two
that are equally near to the one whose last bit is zero.
-/

namespace CallCoordination.Text.Double

/-- From here on a number rounds to infinity: half a unit above the largest double. -/
def limit : Nat := (1 <<< 1024) - (1 <<< 970)

/-- The distance between doubles around `n`. -/
def unit (n : Nat) : Nat := 1 <<< (n.log2 - 52)

/-- The double nearest to `n`, were there no limit. -/
def nearest (n : Nat) : Nat :=
  let below := n / unit n
  let rest := 2 * (n % unit n)
  if unit n < rest ∨ (rest = unit n ∧ below % 2 = 1) then (below + 1) * unit n
  else below * unit n

end CallCoordination.Text.Double
