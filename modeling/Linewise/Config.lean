/-
The configuration file.

* `Config` — the settings that a file can give, each of them or none;
* `Config.ofJson` — the settings of a JSON value, or all its issues;
* `Issue.text`, `ConfigError.message` — how issues are reported;
* `Config.ofText` — the settings of a file's text, or why it has none.

Design notes: issues come in the order of the settings, those of the limits at the
limits' place, and the unknown members of an object after its known ones.
-/
import Linewise.Limits
import Linewise.Schema

namespace Linewise

/-- The settings that a configuration file can give. -/
structure Config where
  echoComments : Option Bool := none
  expressionFallback : Option Bool := none
  verbose : Option Bool := none
  executionLimits : Option LimitChoices := none
deriving DecidableEq, Repr

/-- The limits that a JSON value gives, or all its issues. -/
def LimitChoices.ofJson (path : List String) : Json → Checked LimitChoices
  | .object members =>
    let length := Checked.member? members path "maxLineLength" Checked.count
    let depth := Checked.member? members path "maxNestingDepth" Checked.count
    let others := Checked.onlyNames members path ["maxLineLength", "maxNestingDepth"]
    ((length.both depth).both others).map fun ((length, depth), _) => ⟨length, depth⟩
  | j => .error [⟨path, .wrongType "object" j.typeName⟩]

/-- The settings that a JSON value gives, or all its issues. -/
def Config.ofJson : Json → Checked Config
  | .object members =>
    let echo := Checked.member? members [] "echoComments" Checked.flag
    let fallback := Checked.member? members [] "expressionFallback" Checked.flag
    let verbose := Checked.member? members [] "verbose" Checked.flag
    let limits := Checked.member? members [] "executionLimits" LimitChoices.ofJson
    let others := Checked.onlyNames members []
      ["echoComments", "expressionFallback", "verbose", "executionLimits"]
    ((((echo.both fallback).both verbose).both limits).both others).map
      fun ((((echo, fallback), verbose), limits), _) => ⟨echo, fallback, verbose, limits⟩
  | j => .error [⟨[], .wrongType "object" j.typeName⟩]

/-- The text of an issue: its place and the rule. -/
def Issue.text (i : Issue) : String :=
  let place := if i.path.isEmpty then "(root)" else ".".intercalate i.path
  place ++ ": " ++ i.violation.text

/-- Why a file gives no settings. -/
inductive ConfigError
  | unreadable (reason : String)
  | notJson (fault : JsonFault)
  | invalid (issues : List Issue)
deriving DecidableEq, Repr

/-- The message for the configuration called `source`; every issue has a line of
its own. -/
def ConfigError.message (source : String) : ConfigError → String
  | unreadable reason => source ++ ": " ++ reason
  | notJson fault => source ++ ": invalid JSON: " ++ fault.message
  | invalid issues =>
    source ++ ": invalid config\n  " ++ "\n  ".intercalate (issues.map Issue.text)

/-- The settings of a file's text. -/
def Config.ofText (text : String) : Except ConfigError Config :=
  match Json.ofString text with
  | .error fault => .error (.notJson fault)
  | .ok j => (ofJson j).mapError .invalid

end Linewise
