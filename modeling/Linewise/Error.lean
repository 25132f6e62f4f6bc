/-
What can go wrong with a line.

* `LexError`, `ParseError`, `EvalError` — the causes, by the stage that finds
  them, each with its code and its message;
* `LineError` — any of them, or a line that is too long;
* `Report` — an error as it is shown: stage, code, message and column, with
  `Report.format` for its one-line text;
* `Report.furthest` — of the errors of two attempts at one line, the one of
  the attempt that got further.

Design notes: causes hold data and no wording; all wording is in the `message`
functions.  An evaluation error means that the whole line was read, so it
counts as further than any column; an error without a column is at the start.
-/
import Linewise.Token
import Linewise.Expr
import Linewise.Number.Layout

namespace Linewise

/-- The stage at which an error is found. -/
inductive Stage
  | lex
  | parse
  | eval
deriving DecidableEq, Repr

namespace Stage

/-- The stage in lower case, as logs name it. -/
def name : Stage → String
  | lex => "lex"
  | parse => "parse"
  | eval => "eval"

/-- The stage as the first word of a message. -/
def title : Stage → String
  | lex => "Lex"
  | parse => "Parse"
  | eval => "Eval"

end Stage

/-- An error as it is shown.  The column counts from zero. -/
structure Report where
  stage : Stage
  code : String
  message : String
  column : Option Nat
deriving DecidableEq, Repr

namespace Report

/-- The one-line text of an error; columns are shown from one. -/
def format (r : Report) : String :=
  match r.column with
  | none => s!"{r.stage.title} error: {r.message}"
  | some column => s!"{r.stage.title} error at column {column + 1}: {r.message}"

/-- How far into the line the failed attempt got: `none` is past its end. -/
def reached (r : Report) : Option Nat :=
  match r.stage, r.column with
  | .eval, _ => none
  | _, none => some 0
  | _, some column => some (column + 1)

/-- Whether `second` got further into the line than `first`. -/
def isFurther (first second : Report) : Bool :=
  match first.reached, second.reached with
  | none, _ => false
  | some _, none => true
  | some a, some b => decide (a < b)

/-- The error of the attempt that got further; the first one on a tie. -/
def furthest (first second : Report) : Report :=
  if first.isFurther second then second else first

end Report

/-- Why a token cannot be read. -/
inductive LexFault
  | unexpectedCharacter (c : Char)
  | unterminatedText
deriving DecidableEq, Repr

/-- A character at which no token can be read. -/
structure LexError where
  fault : LexFault
  column : Nat
deriving DecidableEq, Repr

namespace LexFault

/-- The code of a fault, by which programs tell faults apart. -/
def code : LexFault → String
  | unexpectedCharacter _ => "unexpected-character"
  | unterminatedText => "unterminated-string"

/-- The wording of a fault. -/
def message : LexFault → String
  | unexpectedCharacter c => "Unexpected character: " ++ c.toString
  | unterminatedText => "Unterminated string literal"

end LexFault

/-- Why a token cannot continue the line, with the kind of token that was met. -/
inductive ParseFault
  | unexpectedToken (got : Kind)
  | missingTerminator (got : Kind)
  | mismatchedParentheses (got : Kind)
  | unrecognizedStatement (got : Kind)
  | missingAssignment (name : String) (got : Kind)
  | invalidNumber (spelling : String)
  | trailingInput (got : Kind)
  | nestingTooDeep (limit : Int)
deriving DecidableEq, Repr

/-- A token that cannot continue the line. -/
structure ParseError where
  fault : ParseFault
  column : Nat
deriving DecidableEq, Repr

/-- A limit in a message, written as a number. -/
def limitText (limit : Int) : String :=
  Number.text (Float.ofInt limit)

namespace ParseFault

/-- The code of a fault, by which programs tell faults apart. -/
def code : ParseFault → String
  | unexpectedToken _ => "unexpected-token"
  | missingTerminator _ => "missing-terminator"
  | mismatchedParentheses _ => "mismatched-parentheses"
  | unrecognizedStatement _ => "unrecognized-statement"
  | missingAssignment _ _ => "missing-assignment"
  | invalidNumber _ => "invalid-number"
  | trailingInput _ => "trailing-input"
  | nestingTooDeep _ => "nesting-too-deep"

/-- The wording of a fault. -/
def message : ParseFault → String
  | unexpectedToken got => s!"Unexpected {got.describe}"
  | missingTerminator got => s!"Expected ';' after statement, got {got.describe}"
  | mismatchedParentheses got => s!"Mismatched parentheses: expected ')', got {got.describe}"
  | unrecognizedStatement got => s!"Expected assignment or print statement, got {got.describe}"
  | missingAssignment name got => s!"Expected '=' after '{name}', got {got.describe}"
  | invalidNumber spelling => s!"Invalid numeric literal: {spelling}"
  | trailingInput got => s!"Unexpected {got.describe} after end of input was expected"
  | nestingTooDeep limit => s!"Expression nested deeper than {limitText limit} levels"

end ParseFault

/-- Why an expression has no value. -/
inductive EvalError
  | undefinedVariable (name : String)
  | mixedComparison
  | textOperator (op : BinaryOp)
  | notNumeric (text : String)
  | notBoolean (text : String)
deriving DecidableEq, Repr

namespace EvalError

/-- The code of an error; both failed conversions have the same one. -/
def code : EvalError → String
  | undefinedVariable _ => "undefined-variable"
  | mixedComparison => "type-mismatch"
  | textOperator _ => "unsupported-operator"
  | notNumeric _ => "invalid-conversion"
  | notBoolean _ => "invalid-conversion"

/-- The wording of an error. -/
def message : EvalError → String
  | undefinedVariable name => s!"Variable '{name}' is not defined"
  | mixedComparison => "Cannot compare a string with a non-string"
  | textOperator op => s!"Operator '{op.symbol}' cannot be applied to strings"
  | notNumeric text => s!"Cannot convert text \"{text}\" to a number"
  | notBoolean text => s!"Cannot convert text \"{text}\" to a boolean"

end EvalError

/-- Why a line fails. -/
inductive LineError
  | lex (e : LexError)
  | parse (e : ParseError)
  | eval (e : EvalError)
  | tooLong (limit : Int)
deriving DecidableEq, Repr

namespace LineError

/-- The error as it is shown.  A line that is too long is refused before it is
read, so that error has no column. -/
def report : LineError → Report
  | lex e => ⟨.lex, e.fault.code, e.fault.message, some e.column⟩
  | parse e => ⟨.parse, e.fault.code, e.fault.message, some e.column⟩
  | eval e => ⟨.eval, e.code, e.message, none⟩
  | tooLong limit =>
    ⟨.parse, "line-too-long", s!"Line exceeds maximum length of {limitText limit} characters", none⟩

/-- Of the errors of two attempts at one line, the one that got further; the
first one on a tie. -/
def furthest (first second : LineError) : LineError :=
  if first.report.isFurther second.report then second else first

end LineError

end Linewise
