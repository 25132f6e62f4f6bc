/-
Lines of a text.

* `lines` — the lines of a text, without the line feeds that end them and
  without a carriage return directly before one;
* `unlines` — a text of the given lines, each ended by a line feed.

Design notes: a text has one line more than it has line feeds, so a text that
ends with a line feed has an empty last line.
-/
namespace Linewise.Text

/-- The lines of a list of characters. -/
def splitLines : List Char → List (List Char)
  | [] => [[]]
  | '\n' :: rest => [] :: splitLines rest
  | '\r' :: '\n' :: rest => [] :: splitLines rest
  | c :: rest =>
    match splitLines rest with
    | [] => [[c]]
    | line :: more => (c :: line) :: more

/-- The lines of a text. -/
def lines (s : String) : List String :=
  (splitLines s.toList).map String.ofList

/-- The lines of a text that is read to its end: nothing after the last line
feed is no line. -/
def completeLines (s : String) : List String :=
  let all := lines s
  if all.getLast? = some "" then all.dropLast else all

/-- The text of the given lines. -/
def unlines (ls : List String) : String :=
  String.join (ls.map (· ++ "\n"))

theorem splitLines_ne_nil (cs : List Char) : splitLines cs ≠ [] := by
  fun_cases splitLines cs <;> simp_all

end Linewise.Text
