/-
Numerals: the decimal texts that read as numbers.

* `Numeral` — a sign, digits before and after the point, and an exponent;
* `Numeral.read?` — the numeral that a text spells: an optional sign, digits
  with at most one point among or after them or before the last of them, and an
  optional exponent;
* `Numeral.value` — the double nearest to it.

Design notes: `ofDecimal` decides overflow and underflow from the number of
digits before it computes a power of ten, so an exponent of any size is read at
once.
-/
import Linewise.Number.Shortest

namespace Linewise.Number

/-- The number that a list of decimal digits spells. -/
def natOfDigits (ds : List Char) : Nat :=
  ds.foldl (fun n d => 10 * n + (d.toNat - '0'.toNat)) 0

/-- The double nearest to `digits · 10 ^ exponent`; the doubles end near
`10 ^ 308` above and near `10 ^ -324` below. -/
def ofDecimal (d : Decimal) : Float :=
  let point := (digitCount d.digits : Int) + d.exponent
  -- The decimal is less than `10 ^ point` and at least a tenth of that.
  if d.digits = 0 ∨ point < -330 then 0.0
  else if 310 < point then Float.ofScientific 1 false 400
  else Float.ofScientific d.digits (d.exponent < 0) d.exponent.natAbs

/-- A decimal numeral, by its parts. -/
structure Numeral where
  negative : Bool
  whole : List Char
  fraction : List Char
  exponent : Int
deriving DecidableEq, Repr

namespace Numeral

/-- Splits off an optional sign: whether it is a minus, and the rest. -/
def readSign : List Char → Bool × List Char
  | '-' :: rest => (true, rest)
  | '+' :: rest => (false, rest)
  | cs => (false, cs)

/-- The exponent that ends a numeral: nothing, or the letter `e` in either case,
an optional sign and at least one digit. -/
def readExponent? : List Char → Option Int
  | [] => some 0
  | e :: rest =>
    let (negative, digits) := readSign rest
    if (e == 'e' || e == 'E') && !digits.isEmpty && digits.all Char.isDigit then
      some (if negative then -(natOfDigits digits : Int) else natOfDigits digits)
    else none

/-- The digits after an optional point, and what follows them. -/
def readFraction : List Char → List Char × List Char
  | '.' :: rest => (rest.takeWhile Char.isDigit, rest.dropWhile Char.isDigit)
  | cs => ([], cs)

/-- The numeral that a list of characters spells as a whole. -/
def readChars? (cs : List Char) : Option Numeral :=
  let (negative, unsigned) := readSign cs
  let whole := unsigned.takeWhile Char.isDigit
  let (fraction, rest) := readFraction (unsigned.dropWhile Char.isDigit)
  if whole.isEmpty && fraction.isEmpty then none
  else (readExponent? rest).map (⟨negative, whole, fraction, ·⟩)

/-- The numeral that a text spells as a whole. -/
def read? (s : String) : Option Numeral := readChars? s.toList

/-- The decimal of a numeral, without its sign. -/
def decimal (n : Numeral) : Decimal :=
  ⟨natOfDigits (n.whole ++ n.fraction), n.exponent - n.fraction.length⟩

/-- The double nearest to a numeral; a minus gives a negative zero too. -/
def value (n : Numeral) : Float :=
  if n.negative then -(ofDecimal n.decimal) else ofDecimal n.decimal

end Numeral

/-- The double that a text spells, if it is a numeral. -/
def read? (s : String) : Option Float :=
  (Numeral.read? s).map Numeral.value

end Linewise.Number
