/-
Logs.

* `LogEntry` — one line of a log: a level, a message and data;
* `LogEntry.render` — its text;
* `Event.entry` — the entry for an event of a session.
-/
import Linewise.Json
import Linewise.Session

namespace Linewise

/-- How much an entry of a log matters. -/
inductive LogLevel
  | info
  | debug
deriving DecidableEq, Repr

/-- The name of a level. -/
def LogLevel.name : LogLevel → String
  | info => "info"
  | debug => "debug"

/-- An entry of a log; the data are named values, if there are any. -/
structure LogEntry where
  level : LogLevel
  message : String
  data : Option (List (String × Json))

/-- The text of an entry: its level, its message and its data as an object. -/
def LogEntry.render (e : LogEntry) : String :=
  let head := "[" ++ e.level.name ++ "] " ++ e.message
  match e.data with
  | none => head
  | some data => head ++ " " ++ (Json.ofMembers data).compact

/-- The entry for an event. -/
def Event.entry : Event → LogEntry
  | line text => ⟨.debug, "line", some [("line", .string text)]⟩
  | fallback text reason =>
    ⟨.debug, "fallback", some [("line", .string text), ("reason", .string reason)]⟩
  | error stage code =>
    ⟨.info, "error", some [("kind", .string stage.name), ("code", .string code)]⟩
  | exit code => ⟨.info, "exit", some [("exitCode", .number (Float.ofNat code))]⟩

/-- The log lines for the events of a session. -/
def logLines (events : List Event) : List String :=
  events.map fun e => e.entry.render

end Linewise
