/-
Tokens: the words, literals and signs of one line.

* `Kind` — what a token is, with the text or truth value that it carries;
* `Kind.spelling` — the source text of a token;
* `Kind.describe` — how an error message names it.

Design notes: the two connectives can be written as a word or as a sign, and
the token remembers which, because messages show it.  The end of the line is a
token too, so that an error can point at it; its spelling is empty.
-/
import Linewise.Text.Units

namespace Linewise

/-- The two ways to write a connective: `and` or `&`, `or` or `|`. -/
inductive Connective
  | word
  | sign
deriving DecidableEq, Repr

/-- What a token is.  A number keeps its digits and points as written, a text
the characters between its quotes. -/
inductive Kind
  | number (spelling : String)
  | text (contents : String)
  | boolean (value : Bool)
  | name (name : String)
  | print
  | plus
  | minus
  | star
  | slash
  | leftParen
  | rightParen
  | semicolon
  | assign
  | equal
  | notEqual
  | less
  | greater
  | and (style : Connective)
  | or (style : Connective)
  | not
  | endOfLine
deriving DecidableEq, Repr

namespace Kind

/-- The source text of a token of this kind. -/
def spelling : Kind → String
  | number s => s
  | text s => "\"" ++ s ++ "\""
  | boolean true => "true"
  | boolean false => "false"
  | name s => s
  | print => "print"
  | plus => "+"
  | minus => "-"
  | star => "*"
  | slash => "/"
  | leftParen => "("
  | rightParen => ")"
  | semicolon => ";"
  | assign => "="
  | equal => "=="
  | notEqual => "!="
  | less => "<"
  | greater => ">"
  | and .word => "and"
  | and .sign => "&"
  | or .word => "or"
  | or .sign => "|"
  | not => "!"
  | endOfLine => ""

/-- How messages name a token: literals and names with a word for what they
are, everything else by its spelling in quotes. -/
def describe : Kind → String
  | number s => "number " ++ s
  | text s => "string \"" ++ s ++ "\""
  | name s => "identifier '" ++ s ++ "'"
  | endOfLine => "end of input"
  | k => "'" ++ k.spelling ++ "'"

/-- The number of UTF-16 units that a token of this kind takes. -/
def width (k : Kind) : Nat :=
  Text.unitLength k.spelling.toList

/-- The token kind of a word: five words have a meaning of their own, every
other one is a name. -/
def ofWord (word : String) : Kind :=
  match word with
  | "true" => boolean true
  | "false" => boolean false
  | "and" => and .word
  | "or" => or .word
  | "print" => print
  | _ => name word

theorem spelling_ofWord (word : String) : (ofWord word).spelling = word := by
  unfold ofWord
  split <;> rfl

end Kind

/-- A token and the column of its first character, in UTF-16 units from the
start of the line. -/
structure Token where
  kind : Kind
  column : Nat
deriving DecidableEq, Repr

end Linewise
