/-
The shortest decimal that reads back as a given double.

* `RoundingInterval` — the reals that round to one positive double, as
  fractions over one denominator;
* `RoundingInterval.nearestMultiple?` — of the multiples of a power of ten in
  the interval, the one nearest to the double;
* `RoundingInterval.shortest` — the multiple found on the coarsest grid that
  has one.

Design notes: the value `m · 2 ^ q` is kept in quarters of its last place, so
the half-way points to both neighbours are whole numbers; below a power of two
the neighbour is twice as near.  The interval is closed exactly if `m` is even,
because a reader rounds half-way decimals to the even neighbour.  All
arithmetic is exact.  On a grid the only multiples to try are the two around
the value: if any multiple lies in the interval, one of these does.
-/
import Linewise.Number.Binary

namespace Linewise.Number

/-- The decimal `digits · 10 ^ exponent`. -/
structure Decimal where
  digits : Nat
  exponent : Int
deriving DecidableEq, Repr

/-- The positive reals that round to one double: those between `low / unit` and
`high / unit`, with the ends if `closed`; the double itself is `value / unit`. -/
structure RoundingInterval where
  low : Nat
  value : Nat
  high : Nat
  unit : Nat
  closed : Bool
deriving DecidableEq, Repr

/-- How many decimal digits a number has; zero has none. -/
def digitCount (n : Nat) : Nat :=
  if n = 0 then 0 else (Nat.toDigits 10 n).length

namespace RoundingInterval

/-- The interval of the absolute value of a finite double that is not zero. -/
def ofBinary (b : Binary) : RoundingInterval :=
  -- Below a power of two the next double is twice as near.
  let gapBelow := if b.fraction = 0 ∧ 1 < b.biased then 1 else 2
  let scale := Nat.pow 2 (b.place - 1077)
  { low := (4 * b.mantissa - gapBelow) * scale
    value := 4 * b.mantissa * scale
    high := (4 * b.mantissa + 2) * scale
    unit := Nat.pow 2 (1077 - b.place)
    closed := b.mantissa % 2 == 0 }

/-- The same reals, counted in multiples of `10 ^ exponent`. -/
def inMultiplesOf (exponent : Int) (i : RoundingInterval) : RoundingInterval :=
  match exponent with
  | .ofNat k => { i with unit := i.unit * Nat.pow 10 k }
  | .negSucc k =>
    { i with
      low := i.low * Nat.pow 10 (k + 1)
      value := i.value * Nat.pow 10 (k + 1)
      high := i.high * Nat.pow 10 (k + 1) }

/-- Whether the whole number `n` lies in the interval. -/
def contains (i : RoundingInterval) (n : Nat) : Bool :=
  if i.closed then decide (i.low ≤ n * i.unit) && decide (n * i.unit ≤ i.high)
  else decide (i.low < n * i.unit) && decide (n * i.unit < i.high)

/-- The whole number in the interval that is nearest to the value; of two
equally near ones the even one. -/
def nearestWhole? (i : RoundingInterval) : Option Nat :=
  let n := i.value / i.unit
  match i.contains n, i.contains (n + 1) with
  | true, false => some n
  | false, true => some (n + 1)
  | true, true =>
    -- Twice the value against the middle of the two.
    match compare (2 * i.value) ((2 * n + 1) * i.unit) with
    | .lt => some n
    | .gt => some (n + 1)
    | .eq => if n % 2 = 0 then some n else some (n + 1)
  | false, false => none

/-- The multiple of `10 ^ exponent` in the interval that is nearest to the value. -/
def nearestMultiple? (i : RoundingInterval) (exponent : Int) : Option Decimal :=
  (i.inMultiplesOf exponent).nearestWhole?.map (⟨·, exponent⟩)

/-- The exponent of the value's first digit: `e` with `10 ^ e ≤ value < 10 ^ (e + 1)`. -/
def leadingExponent (i : RoundingInterval) : Int :=
  if i.unit ≤ i.value then (digitCount (i.value / i.unit) : Int) - 1
  else -(digitCount ((i.unit + i.value - 1) / i.value - 1) : Int)

/-- The decimal of fewest digits in the interval, nearest to the value among
those.  Seventeen digits always suffice for a double. -/
def shortest (i : RoundingInterval) : Decimal :=
  let lead := i.leadingExponent
  let grids := (List.range 17).map fun (n : Nat) => lead - n
  (grids.findSome? i.nearestMultiple?).getD
    ⟨(i.inMultiplesOf (lead - 16)).value / (i.inMultiplesOf (lead - 16)).unit, lead - 16⟩

end RoundingInterval

end Linewise.Number
