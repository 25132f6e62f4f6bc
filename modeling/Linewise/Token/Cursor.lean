/-
Reading the tokens of a line one at a time.

* `Cursor` — a place in a line: the token that comes next, which is read already, and the
  text after it;
* `Cursor.current`, `Cursor.advance` — looking at the next token, and going on to the one
  after it;
* `Cursor.replies` — what calls of the two in any order return;
* `Cursor.drain` — the tokens that come before the end of a line or an error, and that end.

Design notes: a cursor reads no further than the one token that it shows.  At the end of the
line, and at an error, it stays where it is, so that both are shown for ever.
-/
import Linewise.Token.Stream

namespace Linewise

open Text

/-- A place in a line: what comes next, and what comes after it. -/
structure Cursor where
  next : Except LexError Token
  /-- The column at which the rest of the line starts. -/
  column : Nat
  rest : List Char

namespace Cursor

/-- Reads the first token of the characters from the given column on. -/
def scan (column : Nat) : List Char → Cursor
  | [] => ⟨.ok ⟨.endOfLine, column⟩, column, []⟩
  | c :: rest =>
    if isBlank c then scan (column + unitWidth c) rest
    else
      match readKind c rest with
      | .error fault => ⟨.error ⟨fault, column⟩, column, c :: rest⟩
      | .ok (kind, after) => ⟨.ok ⟨kind, column⟩, column + kind.width, after⟩

/-- The place at the start of a line. -/
def ofString (line : String) : Cursor := scan 0 line.toList

/-- The next token, or the error at this place. -/
def current (c : Cursor) : Except LexError Token := c.next

/-- The place after the next token, if there is one. -/
def advance (c : Cursor) : Cursor :=
  match c.next with
  | .ok t => if t.kind = .endOfLine then c else scan c.column c.rest
  | .error _ => c

/-- What can be asked of a cursor. -/
inductive Call
  | current
  | advance
deriving DecidableEq, Repr

/-- The cursor after a call. -/
def call (c : Cursor) : Call → Cursor
  | .current => c
  | .advance => c.advance

/-- What calls return, one after the other: the token that comes next after each of them. -/
def replies (c : Cursor) : List Call → List (Except LexError Token)
  | [] => []
  | request :: calls => (c.call request).current :: (c.call request).replies calls

/-- The number of characters that further tokens can come from, and one for the next token. -/
def left (c : Cursor) : Nat :=
  match c.next with
  | .ok t => if t.kind = .endOfLine then 0 else c.rest.length + 1
  | .error _ => 0

theorem left_scan_le (column : Nat) (cs : List Char) : (scan column cs).left ≤ cs.length := by
  fun_induction scan column cs with
  | case1 column => simp [left]
  | case2 column c rest hblank ih => exact Nat.le_succ_of_le ih
  | case3 column c rest hblank fault hread => simp [left]
  | case4 column c rest hblank kind after hread =>
    have hshorter := length_le_of_readKind hread
    simp only [left, List.length_cons]
    split <;> omega

/-- Reads on to the end of the line or to an error: the tokens before it, and what comes
there. -/
def drain (c : Cursor) : List Token × Except LexError Token :=
  match _next : c.next with
  | .error error => ([], .error error)
  | .ok t =>
    if t.kind = .endOfLine then ([], .ok t)
    else
      let following := (scan c.column c.rest).drain
      (t :: following.1, following.2)
termination_by c.left
decreasing_by
  have hleft : c.left = c.rest.length + 1 := by simp [left, _next, ‹t.kind ≠ .endOfLine›]
  rw [hleft]
  exact Nat.lt_succ_of_le (left_scan_le c.column c.rest)

end Cursor

end Linewise
