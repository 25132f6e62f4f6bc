/-
Sessions: lines that share their variables.

* `Session` — the settings and the variables;
* `Outcome` — what became of one line;
* `Session.runLine` — the outcome of a line and the session after it;
* `Session.exec` — a whole text, line by line, with `Execution.stdout`,
  `Execution.stderr` and `Execution.exitCode` read off the outcomes.

Design notes: a line that is neither blank nor a comment is tried as a
statement and, if that fails, as an expression; of two failures the one that
got further into the line is reported.  An attempt has no effect before it
succeeds, so a line that fails leaves the variables as they were.  What a log
may show of a run is part of its result.
-/
import Linewise.Eval
import Linewise.Reader
import Linewise.Text.Lines

namespace Linewise

/-- How a session treats lines. -/
structure Settings where
  limits : Limits := Limits.standard
  /-- Whether comments are part of the output. -/
  echoComments : Bool := true
  /-- Whether a line that is no statement may be an expression. -/
  expressionFallback : Bool := true
deriving DecidableEq, Repr

/-- The settings of a session and its variables. -/
structure Session where
  settings : Settings
  store : Store
deriving DecidableEq

/-- What became of one line. -/
inductive Outcome
  | blank
  | comment (text : String) (echoed : Bool)
  | statement (s : Statement) (value : Option Value) (printed : List String)
  | expression (e : Expr) (value : Value)
  | error (e : LineError)
deriving DecidableEq, Repr

namespace Outcome

/-- The lines that a line puts out. -/
def output : Outcome → List String
  | blank => []
  | comment text true => ["Comment: " ++ text]
  | comment _ false => []
  | statement _ _ printed => printed
  | expression _ value => [value.toText]
  | error _ => []

/-- The error of a line that failed. -/
def error? : Outcome → Option LineError
  | error e => some e
  | _ => none

end Outcome

/-- What a log can show of a session. -/
inductive Event
  | line (text : String)
  | fallback (text : String) (reason : String)
  | error (stage : Stage) (code : String)
  | exit (code : Nat)
deriving DecidableEq, Repr

/-- The outcome of one line, the session after it and what happened. -/
structure LineRun where
  outcome : Outcome
  session : Session
  events : List Event

/-- The outcomes of a text, line by line, the session after it and what happened. -/
structure Execution where
  outcomes : List Outcome
  session : Session
  events : List Event

namespace Session

/-- A session without variables. -/
def fresh (settings : Settings) : Session := ⟨settings, Store.empty⟩

/-- Tries a line as a statement. -/
def tryStatement (s : Session) (line : String) : Except LineError (Statement × Effect) := do
  let statement ← Statement.ofLine s.settings.limits.maxNestingDepth line
  let effect ← (statement.run s.store).mapError .eval
  return (statement, effect)

/-- Tries a line as an expression. -/
def tryExpression (s : Session) (line : String) : Except LineError (Expr × Value) := do
  let e ← Expr.ofLine s.settings.limits.maxNestingDepth line
  let value ← (e.eval s.store).mapError .eval
  return (e, value)

/-- The run of a line that fails. -/
def failure (s : Session) (earlier : List Event) (e : LineError) : LineRun :=
  ⟨.error e, s, earlier ++ [.error e.report.stage e.report.code]⟩

/-- Runs a line that is neither blank nor a comment. -/
def runCode (s : Session) (line : String) : LineRun :=
  let limit := s.settings.limits.maxLineLength
  -- A line that is too long is not read at all.
  if limit < Text.unitLength line.toList then s.failure [.line line] (.tooLong limit)
  else
    match s.tryStatement line with
    | .ok (statement, effect) =>
      ⟨.statement statement effect.value effect.printed, { s with store := effect.store },
        [.line line]⟩
    | .error first =>
      if s.settings.expressionFallback then
        let events := [.line line, .fallback line first.report.message]
        match s.tryExpression line with
        | .ok (e, value) => ⟨.expression e value, s, events⟩
        | .error second => s.failure events (first.furthest second)
      else s.failure [.line line] first

/-- Runs one line. -/
def runLine (s : Session) (line : String) : LineRun :=
  match Text.dropBlankStart line.toList with
  | [] => ⟨.blank, s, []⟩
  | '/' :: '/' :: text => ⟨.comment (String.ofList text) s.settings.echoComments, s, []⟩
  | _ => s.runCode line

/-- Runs lines in turn. -/
def runLines (s : Session) : List String → Execution
  | [] => ⟨[], s, []⟩
  | line :: rest =>
    let first := s.runLine line
    let others := first.session.runLines rest
    ⟨first.outcome :: others.outcomes, others.session, first.events ++ others.events⟩

end Session

/-- The exit code of a run: one if a line failed, zero if none did. -/
def Outcome.exitCode (outcomes : List Outcome) : Nat :=
  if outcomes.any fun o => o.error?.isSome then 1 else 0

/-- Runs a text, line by line. -/
def Session.exec (s : Session) (source : String) : Execution :=
  let run := s.runLines (Text.lines source)
  { run with events := run.events ++ [.exit (Outcome.exitCode run.outcomes)] }

namespace Execution

/-- What the lines put out. -/
def stdout (x : Execution) : String :=
  Text.unlines (x.outcomes.flatMap Outcome.output)

/-- The message for a line that failed, with its number. -/
def complaint (number : Nat) (e : LineError) : String :=
  s!"line {number}: {e.report.format}"

/-- The messages for the lines that failed; lines are numbered from one. -/
def stderr (x : Execution) : String :=
  Text.unlines <| (x.outcomes.zipIdx 1).filterMap fun (o, number) =>
    o.error?.map (complaint number)

/-- One if a line failed, zero if none did. -/
def exitCode (x : Execution) : Nat := Outcome.exitCode x.outcomes

end Execution

end Linewise
