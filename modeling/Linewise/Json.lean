/-
JSON values.

* `Json` — the values, with the members of an object in order;
* `Json.ofMembers` — an object of the given members, in canonical order: of two
  members of one name the later value stands in the earlier place, and the names
  that are array indices come first, in ascending order;
* `Json.compact` — the text of a value without blanks.
-/
import Linewise.Entries
import Linewise.Number.Layout
import Linewise.Text.Quoted

namespace Linewise

/-- A JSON value. -/
inductive Json
  | null
  | bool (b : Bool)
  | number (x : Float)
  | string (s : String)
  | array (items : List Json)
  | object (members : List (String × Json))

namespace Json

/-- The index that a member's name spells, if it is a decimal without leading
zeros that is less than `2 ^ 32 - 1`. -/
def index? (name : String) : Option Nat :=
  let digits := name.toList
  let n := digits.foldl (fun n d => 10 * n + (d.toNat - '0'.toNat)) 0
  if digits.all Char.isDigit && Nat.toDigits 10 n == digits && decide (n < 4294967295) then some n
  else none

/-- The members of an object in canonical order. -/
def canonicalMembers (members : List (String × Json)) : List (String × Json) :=
  let entries := Entries.ofList members
  let indexed := entries.filterMap fun m => (index? m.1).map fun i => (i, m)
  let named := entries.filter fun m => (index? m.1).isNone
  (indexed.mergeSort fun a b => decide (a.1 ≤ b.1)).map Prod.snd ++ named

/-- An object of the given members. -/
def ofMembers (members : List (String × Json)) : Json :=
  object (canonicalMembers members)

/-- The name of a value's type, as messages write it. -/
def typeName : Json → String
  | null => "null"
  | bool _ => "boolean"
  | number _ => "number"
  | string _ => "string"
  | array _ => "array"
  | object _ => "object"

mutual

/-- The text of a value.  A number that is not finite has none of its own and
is written as null. -/
def compact : Json → String
  | null => "null"
  | bool true => "true"
  | bool false => "false"
  | number x => if x.isFinite then Number.text x else "null"
  | string s => Text.quote s
  | array items => "[" ++ compactItems items ++ "]"
  | object members => "\x7b" ++ compactMembers members ++ "\x7d"

/-- The texts of the items of an array, with commas between them. -/
def compactItems : List Json → String
  | [] => ""
  | [item] => item.compact
  | item :: rest => item.compact ++ "," ++ compactItems rest

/-- The texts of the members of an object, with commas between them. -/
def compactMembers : List (String × Json) → String
  | [] => ""
  | [(name, value)] => Text.quote name ++ ":" ++ value.compact
  | (name, value) :: rest => Text.quote name ++ ":" ++ value.compact ++ "," ++ compactMembers rest

end

end Json

end Linewise
