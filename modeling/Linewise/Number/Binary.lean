/-
The parts of a double.

* `Binary` — a double by its sign, biased exponent and fraction;
* `Binary.ofFloat` — the parts of a double, from its sixty-four bits;
* `Binary.mantissa`, `Binary.place` — a finite double is, but for its sign,
  `mantissa · 2 ^ (place - 1075)`;
* `Binary.whole?` — the integer that a double is, if it is one.

Design notes: the least exponent has no hidden leading bit, and its place is
that of the next one.  The greatest exponent stands for the infinities and the
undefined number.
-/
namespace Linewise.Number

/-- The parts of a double: eleven bits of a biased exponent and fifty-two of a
fraction. -/
structure Binary where
  negative : Bool
  biased : Nat
  fraction : Nat
deriving DecidableEq, Repr

namespace Binary

/-- The parts of a double. -/
def ofFloat (x : Float) : Binary :=
  let bits := x.toBits
  { negative := bits >>> 63 == 1
    biased := ((bits >>> 52) &&& 0x7FF).toNat
    fraction := (bits &&& 0xFFFFFFFFFFFFF).toNat }

/-- Whether a double is a zero. -/
def isZero (b : Binary) : Bool := b.biased == 0 && b.fraction == 0

/-- Whether a double is neither an infinity nor the undefined number. -/
def isFinite (b : Binary) : Bool := b.biased != 0x7FF

/-- The digits of a finite double in base two, as a whole number. -/
def mantissa (b : Binary) : Nat :=
  if b.biased = 0 then b.fraction else b.fraction + 0x10000000000000

/-- The place of the last digit in base two, counted from one. -/
def place (b : Binary) : Nat :=
  if b.biased = 0 then 1 else b.biased

/-- The integer that a double is.  The infinities and the undefined number are
not whole. -/
def whole? (b : Binary) : Option Int :=
  let scaled := b.mantissa * Nat.pow 2 (b.place - 1075)
  let divisor := Nat.pow 2 (1075 - b.place)
  if b.isFinite && scaled % divisor == 0 then
    let n : Int := Int.ofNat (scaled / divisor)
    some (if b.negative then -n else n)
  else none

end Binary

/-- The integer that a double is, if it is one. -/
def whole? (x : Float) : Option Int := (Binary.ofFloat x).whole?

end Linewise.Number
