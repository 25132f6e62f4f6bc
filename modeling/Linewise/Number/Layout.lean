/-
How a number is written.

* `Layout` — the choices that a written form makes: which decimals are written
  with a point and which with an exponent, and how zero, the infinities and the
  undefined number look;
* `Layout.write` — the written form of a double;
* `text` — the form that the program shows.

Design notes: a decimal is laid out by its digits without trailing zeros and by
the place of its point, counted from its first digit.
-/
import Linewise.Number.Shortest

namespace Linewise.Number

namespace Decimal

/-- The place of the point, counted from the first digit: `1` in `1.5`, `0` in
`0.15`, `3` in `150`. -/
def point (d : Decimal) : Int :=
  (digitCount d.digits : Int) + d.exponent

/-- The digits from the first to the last one that is not zero. -/
def significant (d : Decimal) : List Char :=
  ((Nat.toDigits 10 d.digits).reverse.dropWhile (· == '0')).reverse

end Decimal

/-- The choices of a written form. -/
structure Layout where
  /-- The least place of the point that is written without an exponent. -/
  leastPoint : Int
  /-- The greatest place of the point that is written without an exponent. -/
  greatestPoint : Int
  /-- Whether a negative zero keeps its sign. -/
  signedZero : Bool
  /-- The undefined number. -/
  undefined : String
  /-- The positive infinity; the negative one has a minus before it. -/
  infinity : String
deriving DecidableEq, Repr

namespace Layout

/-- Digits with the point at a given place, filled up with zeros. -/
def positional (digits : List Char) (point : Int) : List Char :=
  if point ≤ 0 then
    '0' :: '.' :: List.replicate point.natAbs '0' ++ digits
  else
    let whole := point.toNat
    if digits.length ≤ whole then digits ++ List.replicate (whole - digits.length) '0'
    else digits.take whole ++ '.' :: digits.drop whole

/-- Digits with one of them before the point, and a signed exponent. -/
def scientific (digits : List Char) (point : Int) : List Char :=
  let exponent := point - 1
  let sign := if exponent < 0 then '-' else '+'
  let mantissa :=
    match digits with
    | [] => []
    | [d] => [d]
    | d :: rest => d :: '.' :: rest
  mantissa ++ 'e' :: sign :: Nat.toDigits 10 exponent.natAbs

/-- A positive decimal in this layout. -/
def writeDecimal (l : Layout) (d : Decimal) : List Char :=
  if l.leastPoint ≤ d.point ∧ d.point ≤ l.greatestPoint then positional d.significant d.point
  else scientific d.significant d.point

/-- A double in this layout, with the fewest digits that read back. -/
def write (l : Layout) (x : Float) : String :=
  let b := Binary.ofFloat x
  let sign := if b.negative then ['-'] else []
  if b.isZero then String.ofList ((if l.signedZero then sign else []) ++ ['0'])
  else if b.isFinite then
    String.ofList (sign ++ l.writeDecimal (RoundingInterval.ofBinary b).shortest)
  else if b.fraction = 0 then String.ofList (sign ++ l.infinity.toList)
  else l.undefined

end Layout

/-- Numbers are shown without an exponent from a millionth up to twenty-one
digits before the point, and zero has no sign. -/
def shown : Layout where
  leastPoint := -5
  greatestPoint := 21
  signedZero := false
  undefined := "NaN"
  infinity := "Infinity"

/-- The text that the program shows for a number. -/
def text (x : Float) : String := shown.write x

example : text 0.1 = "0.1" := by decide +kernel

example : text (0.1 + 0.2) = "0.30000000000000004" := by decide +kernel

example : text 1e20 = "100000000000000000000" := by decide +kernel

example : text 1e21 = "1e+21" := by decide +kernel

example : text 0.000001 = "0.000001" := by decide +kernel

example : text 1.5e-7 = "1.5e-7" := by decide +kernel

example : text (-0.0) = "0" := by decide +kernel

end Linewise.Number
