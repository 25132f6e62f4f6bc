/-
The shell: a session whose input can also be a command.

* `ShellInput` — a source line, or a command after a colon;
* `ShellInput.ofString` — which of them an input is;
* `Session.handle` — the reply to an input.

Design notes: a command starts with a colon after blanks at most and ends at
the first space; what follows, without blanks at its end, is its argument.  A
source line runs as it was given, with its blanks.  Commands leave the session
as it is.
-/
import Linewise.Expr.Form
import Linewise.Log

namespace Linewise

/-- An input of the shell. -/
inductive ShellInput
  | source (line : String)
  | quit
  | help
  | vars
  | tokens (line : String)
  | tree (line : String)
  | unknown (command : String)
deriving DecidableEq, Repr

/-- The input that a line spells. -/
def ShellInput.ofString (input : String) : ShellInput :=
  let trimmed := (Text.trim input).toList
  if trimmed.head? = some ':' then
    let command := String.ofList (trimmed.takeWhile (· != ' '))
    let argument := String.ofList ((trimmed.dropWhile (· != ' ')).drop 1)
    match command with
    | ":quit" => quit
    | ":q" => quit
    | ":help" => help
    | ":vars" => vars
    | ":tokens" => tokens argument
    | ":ast" => tree argument
    | _ => unknown command
  else source input

/-- What the shell answers to an input. -/
structure Reply where
  stdout : String
  stderr : String
  quit : Bool
deriving DecidableEq, Repr

/-- A reply, the session after it and what happened. -/
structure ReplyRun where
  reply : Reply
  session : Session
  events : List Event

/-- The text that lists the commands. -/
def shellHelp : List String := [
  "Enter a statement (x = 1; or print x;) or an expression to evaluate.",
  "",
  "Commands:",
  "  :vars           list assigned variables",
  "  :tokens <line>  show the tokens of a line",
  "  :ast <line>     show the syntax tree of a line",
  "  :help           show this message",
  "  :quit           leave the shell"]

namespace Reply

/-- A reply of the given lines. -/
def lines (ls : List String) : Reply := ⟨Text.unlines ls, "", false⟩

/-- A reply that is a complaint. -/
def complaint (message : String) : Reply := ⟨"", Text.unlines [message], false⟩

/-- The reply to a source line. -/
def ofOutcome (o : Outcome) : Reply :=
  match o.error? with
  | none => lines o.output
  | some e => complaint e.report.format

/-- The list of the variables with their values and types. -/
def ofStore (s : Store) : Reply :=
  if s.entries.isEmpty then lines ["(no variables)"]
  else lines (s.entries.map fun (name, value) => s!"{name} = {value.toText} ({value.typeName})")

/-- The tokens of a line, each with its column counted from one. -/
def ofTokens (line : String) : Reply :=
  match tokenize line with
  | .error e => complaint (LineError.lex e).report.format
  | .ok tokens => lines (tokens.map fun t => s!"{t.column + 1}\t{t.kind.describe}")

end Reply

/-- The phrase that a line spells: a statement or else an expression; of two
failures the one that got further. -/
def Phrase.ofLine (limit : Int) (line : String) : Except LineError Phrase :=
  match Statement.ofLine limit line with
  | .ok s => .ok (.statement s)
  | .error first =>
    match Expr.ofLine limit line with
    | .ok e => .ok (.expression e)
    | .error second => .error (first.furthest second)

/-- The tree of a line. -/
def Reply.ofTree (limit : Int) (line : String) : Reply :=
  match Phrase.ofLine limit line with
  | .ok p => lines [p.form]
  | .error e => complaint e.report.format

/-- The reply of a session to an input. -/
def Session.handle (s : Session) (input : String) : ReplyRun :=
  match ShellInput.ofString input with
  | .source line =>
    let run := s.runLine line
    ⟨.ofOutcome run.outcome, run.session, run.events⟩
  | .quit => ⟨⟨"", "", true⟩, s, []⟩
  | .help => ⟨.lines shellHelp, s, []⟩
  | .vars => ⟨.ofStore s.store, s, []⟩
  | .tokens line => ⟨.ofTokens line, s, []⟩
  | .tree line => ⟨.ofTree s.settings.limits.maxNestingDepth line, s, []⟩
  | .unknown command => ⟨.complaint s!"Unknown command: {command} (try :help)", s, []⟩

end Linewise
