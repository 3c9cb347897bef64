import GraphQuery.Number.Binary64

/-!
# Shortest decimal text

A finite binary64 number is written with the fewest decimal digits that read back as the same number.
Among the candidates of that length the one nearest to the number is taken, and of two equally near
ones the larger. The digits are always written out in positions, never with an exponent.

The search works on exact natural numbers. The reals that round to `m * 2 ^ q` form an interval around
it, with its ends included when `m` is even. Decimal grids are tried from coarse to fine; on each grid
only the two neighbours of the number can lie in the interval.
-/

namespace GraphQuery

/-- A decimal number `digits * 10 ^ exponent`. -/
structure Decimal where
  digits : Nat
  exponent : Int

namespace Decimal

/-- The digits written out in positions: zeros are filled in up to the decimal point. -/
def text (d : Decimal) : String :=
  let ds := (toString d.digits).toList
  let places := (-d.exponent).toNat
  if 0 ≤ d.exponent then
    String.ofList (ds ++ List.replicate d.exponent.toNat '0')
  else if places < ds.length then
    String.ofList (ds.take (ds.length - places) ++ '.' :: ds.drop (ds.length - places))
  else
    String.ofList ('0' :: '.' :: (List.replicate (places - ds.length) '0' ++ ds))

end Decimal

/-- The reals between two bounds, all of them over the unit `2 ^ power`. -/
structure RoundingInterval where
  low : Nat
  value : Nat
  high : Nat
  power : Int
  closed : Bool

namespace RoundingInterval

/-- The reals that round to a finite number other than zero, in quarters of its last place. Below a power
of two the next number is only half as far away. -/
def ofBinary64 (x : Binary64) : RoundingInterval :=
  let m := x.significand
  { low := if m = Nat.pow 2 52 then 4 * m - 1 else 4 * m - 2
    value := 4 * m
    high := 4 * m + 2
    power := x.power - 2
    closed := m % 2 = 0 }

/-- The candidate on the grid of multiples of `10 ^ exponent`: a neighbour of the value that lies in the
interval, the nearer one when both do. -/
def onGrid? (i : RoundingInterval) (exponent : Int) : Option Decimal :=
  let scale := Nat.pow 2 i.power.toNat * Nat.pow 10 (-exponent).toNat
  let step := Nat.pow 2 (-i.power).toNat * Nat.pow 10 exponent.toNat
  let below := i.value * scale / step
  let rest := i.value * scale % step
  let belowFits :=
    if i.closed then i.low * scale ≤ below * step else i.low * scale < below * step
  let aboveFits :=
    if i.closed then (below + 1) * step ≤ i.high * scale else (below + 1) * step < i.high * scale
  if belowFits && !(aboveFits && step ≤ 2 * rest) then some ⟨below, exponent⟩
  else if aboveFits then some ⟨below + 1, exponent⟩
  else none

/-- Tries the grids from `10 ^ exponent` downwards. -/
def search (i : RoundingInterval) : Nat → Int → Decimal
  | 0, exponent => ⟨0, exponent⟩
  | steps + 1, exponent =>
    match i.onGrid? exponent with
    | some d => d
    | none => i.search steps (exponent - 1)

/-- The shortest decimal in the interval. The first grid is coarser than the value, and a grid with
seventeen digits always has a point in the interval, so that few steps are needed. -/
def shortest (i : RoundingInterval) : Decimal :=
  let bits : Int := Nat.log2 i.value + 1 + i.power
  i.search 24 (bits * 30103 / 100000 + 2)

end RoundingInterval

namespace Binary64

/-- The shortest decimal text that reads back as the number. -/
def text (x : Binary64) : String :=
  if x.isNaN then "NaN"
  else
    let magnitude :=
      if !x.isFinite then "inf"
      else if x.isZero then "0"
      else (RoundingInterval.ofBinary64 x).shortest.text
    if x.isNegative then "-" ++ magnitude else magnitude

end Binary64

end GraphQuery
