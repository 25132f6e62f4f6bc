/-
The arguments of the programs.

* `Args` — what the arguments ask for;
* `Args.ofList` — the arguments as a whole, or the first one that is wrong;
* `Options` — the arguments and the configuration file put together.

Design notes: an argument that starts with a hyphen is an option, unless it is
the file name after `--config`.  An option that is given wins over the file.
-/
import Linewise.Config
import Linewise.Log

namespace Linewise

/-- What the arguments ask for. -/
structure Args where
  file : Option String := none
  configPath : Option String := none
  noComments : Bool := false
  noFallback : Bool := false
  verbose : Bool := false
  help : Bool := false
deriving DecidableEq, Repr

/-- An argument that is wrong. -/
inductive ArgsError
  | missingConfigPath
  | unknownOption (arg : String)
  | unexpectedArgument (arg : String)
deriving DecidableEq, Repr

/-- The wording of a complaint about the arguments. -/
def ArgsError.message : ArgsError → String
  | missingConfigPath => "--config requires a file argument"
  | unknownOption arg => "Unknown option: " ++ arg
  | unexpectedArgument arg => "Unexpected argument: " ++ arg

/-- How the programs are called. -/
def usage : List String := [
  "Usage: linescript [options] [file]",
  "",
  "Options:",
  "  --config <file>  read options from a JSON config file",
  "  --no-comments    do not echo // comment lines",
  "  --no-fallback    do not retry failed statements as expressions",
  "  --verbose        log session activity to stderr",
  "  --help           show this message"]

namespace Args

/-- The arguments after `given`. -/
def readFrom (given : Args) : List String → Except ArgsError Args
  | [] => .ok given
  | "--config" :: path :: rest => readFrom { given with configPath := some path } rest
  | "--config" :: [] => .error .missingConfigPath
  | "--no-comments" :: rest => readFrom { given with noComments := true } rest
  | "--no-fallback" :: rest => readFrom { given with noFallback := true } rest
  | "--verbose" :: rest => readFrom { given with verbose := true } rest
  | "--help" :: rest => readFrom { given with help := true } rest
  | "-h" :: rest => readFrom { given with help := true } rest
  | arg :: rest =>
    if arg.toList.head? = some '-' then .error (.unknownOption arg)
    else if given.file.isSome then .error (.unexpectedArgument arg)
    else readFrom { given with file := some arg } rest

/-- What a list of arguments asks for. -/
def ofList (args : List String) : Except ArgsError Args := readFrom {} args

end Args

/-- How a program runs lines. -/
structure Options where
  executionLimits : Option LimitChoices
  echoComments : Bool
  expressionFallback : Bool
  /-- Whether a log is written. -/
  verbose : Bool
deriving DecidableEq, Repr

namespace Options

/-- The arguments and a configuration put together. -/
def ofArgs (args : Args) (config : Config) : Options where
  executionLimits := config.executionLimits
  echoComments := !args.noComments && config.echoComments.getD true
  expressionFallback := !args.noFallback && config.expressionFallback.getD true
  verbose := args.verbose || config.verbose.getD false

/-- The settings of a session. -/
def settings (o : Options) : Settings where
  limits := Limits.ofChoices o.executionLimits
  echoComments := o.echoComments
  expressionFallback := o.expressionFallback

/-- What of the log is written. -/
def shownLog (o : Options) (events : List Event) : List String :=
  if o.verbose then logLines events else []

end Options

end Linewise
