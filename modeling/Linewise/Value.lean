/-
Values and the conversions between their types.

* `Value` — a number, a truth value or a text;
* `Value.toNumber`, `Value.toBoolean` — conversions that a text can fail;
* `Value.toText` — the text of any value, as it is printed.

Design notes: two values are equal exactly if they are of one type and hold the
same datum, so the undefined number equals itself and the two zeros differ; the
comparison operators of the language have rules of their own.
-/
import Linewise.Error
import Linewise.Number.Numeral
import Linewise.Text.Blank

namespace Linewise

/-- What an expression evaluates to. -/
inductive Value
  | number (x : Float)
  | boolean (b : Bool)
  | text (s : String)
deriving DecidableEq, Repr

namespace Value

/-- The name of a value's type. -/
def typeName : Value → String
  | number _ => "number"
  | boolean _ => "boolean"
  | text _ => "text"

/-- A value as a number: a truth value counts as one or zero, and a text has to
be a numeral, with blanks around it at most. -/
def toNumber : Value → Except EvalError Float
  | number x => .ok x
  | boolean b => .ok (if b then 1 else 0)
  | text s =>
    match Number.read? (Text.trim s) with
    | some x => .ok x
    | none => .error (.notNumeric s)

/-- A value as a truth value: every number but zero is true, and a text has to
be one of the two words, in any case of its letters and with blanks around it
at most.  No letter outside ASCII has one of theirs as its lower case. -/
def toBoolean : Value → Except EvalError Bool
  | number x => .ok (x != 0)
  | boolean b => .ok b
  | text s =>
    match (Text.trim s).toList.map Char.toLower with
    | ['t', 'r', 'u', 'e'] => .ok true
    | ['f', 'a', 'l', 's', 'e'] => .ok false
    | _ => .error (.notBoolean s)

/-- The text of a value. -/
def toText : Value → String
  | number x => Number.text x
  | boolean true => "True"
  | boolean false => "False"
  | text s => s

/-- Whether a value is a text. -/
def isText : Value → Bool
  | text _ => true
  | _ => false

end Value

end Linewise
