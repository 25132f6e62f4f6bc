/-
Blank characters and the cutting of blanks from a text.

* `isBlank` — the white space that separates tokens and that `trim` removes;
* `dropBlankStart`, `dropBlankEnd` — characters without the blanks at one end;
* `trim` — a text without the blanks at both ends.

Design notes: the set is the five control characters from tab to carriage
return, every space separator, the two separators of lines and paragraphs, and
the byte order mark.  The next-line control, the zero width space and the
information separators are not blank.
-/
namespace Linewise.Text

/-- The code points of the blank characters, in ascending order. -/
def blanks : List Nat := [
  0x09, 0x0A, 0x0B, 0x0C, 0x0D, 0x20, 0xA0, 0x1680, 0x2000, 0x2001, 0x2002, 0x2003, 0x2004,
  0x2005, 0x2006, 0x2007, 0x2008, 0x2009, 0x200A, 0x2028, 0x2029, 0x202F, 0x205F, 0x3000, 0xFEFF]

/-- The characters that separate tokens. -/
def isBlank (c : Char) : Bool :=
  blanks.contains c.toNat

/-- A list of characters without the blanks at its start. -/
def dropBlankStart (cs : List Char) : List Char :=
  cs.dropWhile isBlank

/-- A list of characters without the blanks at its end. -/
def dropBlankEnd (cs : List Char) : List Char :=
  (cs.reverse.dropWhile isBlank).reverse

/-- The text without the blanks at either end. -/
def trim (s : String) : String :=
  String.ofList (dropBlankEnd (dropBlankStart s.toList))

theorem isBlank_eq_true_iff {c : Char} : isBlank c = true ↔ c.toNat ∈ blanks := by
  simp [isBlank]

theorem isDigit_eq_false_of_isBlank {c : Char} (h : isBlank c = true) : c.isDigit = false := by
  have outside : ∀ n ∈ blanks, ¬ (48 ≤ n ∧ n ≤ 57) := by decide
  rw [Bool.eq_false_iff]
  intro hd
  simp only [Char.isDigit, Bool.and_eq_true, decide_eq_true_eq, UInt32.le_iff_toNat_le] at hd
  exact outside _ (isBlank_eq_true_iff.mp h) hd

end Linewise.Text
