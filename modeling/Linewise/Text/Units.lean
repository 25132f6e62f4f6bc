/-
Lengths and columns in UTF-16 units.

* `unitWidth` — how many UTF-16 units a character takes;
* `unitLength` — the length of a list of characters in these units, with
  `unitLength_append` for the column at which a second part starts.
-/
namespace Linewise.Text

/-- A character takes one UTF-16 unit up to U+FFFF and two beyond. -/
def unitWidth (c : Char) : Nat :=
  if c.toNat < 0x10000 then 1 else 2

/-- The length of a list of characters in UTF-16 units. -/
def unitLength : List Char → Nat
  | [] => 0
  | c :: cs => unitWidth c + unitLength cs

theorem unitWidth_pos (c : Char) : 0 < unitWidth c := by
  unfold unitWidth
  split <;> decide

@[simp] theorem unitLength_nil : unitLength [] = 0 := rfl

@[simp] theorem unitLength_cons (c : Char) (cs : List Char) :
    unitLength (c :: cs) = unitWidth c + unitLength cs := rfl

@[simp] theorem unitLength_append (cs ds : List Char) :
    unitLength (cs ++ ds) = unitLength cs + unitLength ds := by
  induction cs with
  | nil => simp
  | cons c cs ih => simp [ih, Nat.add_assoc]

end Linewise.Text
