/-
Checks of JSON values.

* `Violation` — a rule that a value breaks, with its wording;
* `Checked` — a value, or the issues that stand in its way, with a check for each kind
  of value and for the members of an object.

Design notes: these are the checks of the schema library that the program describes its
configuration with, as far as it uses them.  The library is not part of the program, so
what its checks do and how it words a broken rule is written out from its documentation.
Issues are collected and never cut short by the first one.
-/
import Linewise.Json.Reader

namespace Linewise

/-- A rule that a value breaks. -/
inductive Violation
  | wrongType (expected received : String)
  | notWhole
  | notPositive
  | unknownNames (names : List String)
deriving DecidableEq, Repr

/-- The text of a broken rule. -/
def Violation.text : Violation → String
  | wrongType expected received => s!"Expected {expected}, received {received}"
  | notWhole => "Expected integer, received float"
  | notPositive => "Number must be greater than 0"
  | unknownNames names =>
    "Unrecognized key(s) in object: " ++ ", ".intercalate (names.map fun n => "'" ++ n ++ "'")

/-- A place of a value, by the names that lead to it, and the rule broken there. -/
structure Issue where
  path : List String
  violation : Violation
deriving DecidableEq, Repr

/-- A value, or all issues that stand in its way. -/
abbrev Checked (α : Type) := Except (List Issue) α

namespace Checked

/-- Two values, or the issues of both. -/
def both {α β : Type} (a : Checked α) (b : Checked β) : Checked (α × β) :=
  match a, b with
  | .ok x, .ok y => .ok (x, y)
  | .ok _, .error issues => .error issues
  | .error issues, .ok _ => .error issues
  | .error first, .error second => .error (first ++ second)

/-- Nothing, or the given issues if there are any. -/
def ofIssues (issues : List Issue) : Checked Unit :=
  if issues.isEmpty then .ok () else .error issues

/-- A value that has to be true or false. -/
def flag (path : List String) : Json → Checked Bool
  | .bool b => .ok b
  | j => .error [⟨path, .wrongType "boolean" j.typeName⟩]

/-- A value that has to be a positive whole number. -/
def count (path : List String) : Json → Checked Int
  | .number x =>
    let positive := if 0 < x then [] else [⟨path, .notPositive⟩]
    match Number.whole? x with
    | some n => (ofIssues positive).map fun _ => n
    | none => .error (⟨path, .notWhole⟩ :: positive)
  | j => .error [⟨path, .wrongType "number" j.typeName⟩]

/-- The member of a name, if the object has it. -/
def member? {α : Type} (members : List (String × Json)) (path : List String) (name : String)
    (check : List String → Json → Checked α) : Checked (Option α) :=
  match members.lookup name with
  | none => .ok none
  | some value => (check (path ++ [name]) value).map some

/-- No member but those of the given names. -/
def onlyNames (members : List (String × Json)) (path : List String) (known : List String) :
    Checked Unit :=
  match (members.map Prod.fst).filter (!known.contains ·) with
  | [] => .ok ()
  | unknown => .error [⟨path, .unknownNames unknown⟩]

end Checked

end Linewise
