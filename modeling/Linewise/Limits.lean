/-
Limits on one line: its length and the nesting of its expression.

* `LimitChoices` — limits as a user gives them, each of them or none;
* `Limits.ofChoices` — the limits in force, with the standard ones for those
  that are not given.

Design notes: a limit counts units of text or levels, so it is a whole number here,
negative ones included.  Where a program sets limits for itself it could give any double;
fractions, NaN and the infinities are left out.
-/
namespace Linewise

/-- The limits in force. -/
structure Limits where
  /-- The greatest length of a line, in UTF-16 units. -/
  maxLineLength : Int
  /-- The greatest depth of parentheses, signs, negations and chains of operators. -/
  maxNestingDepth : Int
deriving DecidableEq, Repr

/-- The limits that a user gives. -/
structure LimitChoices where
  maxLineLength : Option Int := none
  maxNestingDepth : Option Int := none
deriving DecidableEq, Repr

namespace Limits

/-- The limits where none are given. -/
def standard : Limits := ⟨10000, 200⟩

/-- The limits in force for what a user gives. -/
def ofChoices (choices : Option LimitChoices) : Limits :=
  match choices with
  | none => standard
  | some c =>
    ⟨c.maxLineLength.getD standard.maxLineLength, c.maxNestingDepth.getD standard.maxNestingDepth⟩

end Limits

end Linewise
