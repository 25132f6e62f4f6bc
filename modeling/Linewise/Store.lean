/-
The variables of a session.

* `Store` — names with their values, each name once, in the order in which the
  names were first set;
* `Store.get?`, `Store.set`, `Store.size` — reading and writing;
* `get?_set`, `names_set` — what a write changes: the value of one name, and
  the list of names only if the name is new.
-/
import Linewise.Entries
import Linewise.Value

namespace Linewise

/-- Names with their values, oldest name first. -/
structure Store where
  entries : List (String × Value)
  /-- No name occurs twice. -/
  distinct : (Entries.names entries).Nodup
deriving DecidableEq

namespace Store

/-- No variables. -/
def empty : Store := ⟨[], by simp [Entries.names]⟩

/-- The value of a name, if it has one. -/
def get? (s : Store) (name : String) : Option Value := s.entries.lookup name

/-- The value of a name; a name without one is an error. -/
def get (s : Store) (name : String) : Except EvalError Value :=
  match s.get? name with
  | some value => .ok value
  | none => .error (.undefinedVariable name)

/-- Gives a name a value. -/
def set (s : Store) (name : String) (value : Value) : Store where
  entries := Entries.set name value s.entries
  distinct := Entries.nodup_names_set name value s.distinct

/-- Whether a name has a value. -/
def contains (s : Store) (name : String) : Bool := (s.get? name).isSome

/-- The number of variables. -/
def size (s : Store) : Nat := s.entries.length

/-- The names that have a value, oldest first. -/
def names (s : Store) : List String := Entries.names s.entries

/-- The store after the given writes, in turn. -/
def ofList (writes : List (String × Value)) : Store :=
  writes.foldl (fun s w => s.set w.1 w.2) empty

@[simp] theorem get?_empty (name : String) : empty.get? name = none := rfl

theorem get?_set (s : Store) (name other : String) (value : Value) :
    (s.set name value).get? other = if other = name then some value else s.get? other :=
  Entries.lookup_set name other value s.entries

theorem names_set (s : Store) (name : String) (value : Value) :
    (s.set name value).names = if name ∈ s.names then s.names else s.names ++ [name] :=
  Entries.names_set name value s.entries

end Store

end Linewise
