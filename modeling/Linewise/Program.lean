/-
The programs: running a file, and a shell that reads its standard input.

* `FileSystem` — what reading a file gives, with `FileSystem.ofList`;
* `Console` — what a program writes, asks and exits with;
* `Plan` — what is to be done before a file's name is known;
* `runFile` — the program that runs a file;
* `runShell` — the shell program.

Design notes: both programs look at their arguments first, then at the request
for help, then at the configuration file.  The log of a file's run is written
before its output and its messages; the shell writes the log of an input before
its reply.
-/
import Linewise.Args
import Linewise.Shell

namespace Linewise

/-- What reading a file gives: its text, or why it cannot be read. -/
abbrev FileSystem := String → Except String String

/-- A file system that has the given files and no other. -/
def FileSystem.ofList (files : List (String × String)) : FileSystem := fun path =>
  match files.lookup path with
  | some text => .ok text
  | none => .error s!"ENOENT: no such file or directory, open '{path}'"

/-- What a program writes, the questions that it asks, and its exit code. -/
structure Console where
  stdout : String
  stderr : String
  questions : List String
  exit : Nat
deriving DecidableEq, Repr

/-- The exit code for wrong arguments and configurations. -/
def badUsage : Nat := 2

namespace Console

/-- A program that ends with one message. -/
def complaint (exit : Nat) (lines : List String) : Console :=
  ⟨"", Text.unlines lines, [], exit⟩

/-- A program that ends with the help text. -/
def help : Console := ⟨Text.unlines usage, "", [], 0⟩

/-- A program that has asked a question before. -/
def asked (question : String) (c : Console) : Console :=
  { c with questions := question :: c.questions }

end Console

/-- The options that the arguments and the file that they name give. -/
def loadOptions (files : FileSystem) (args : Args) : Except Console Options :=
  match args.configPath with
  | none => .ok (.ofArgs args {})
  | some path =>
    let config :=
      match files path with
      | .ok text => Config.ofText text
      | .error reason => .error (.unreadable reason)
    match config with
    | .ok config => .ok (.ofArgs args config)
    | .error e => .error (.complaint badUsage [e.message path])

/-- What the arguments ask for, unless they are wrong or ask for help. -/
def checkArgs (args : List String) : Except Console Args :=
  match Args.ofList args with
  | .error e => .error (.complaint badUsage (e.message :: usage))
  | .ok args => if args.help then .error .help else .ok args

/-- Runs the text of a file. -/
def runSource (options : Options) (source : String) : Console :=
  let run := (Session.fresh options.settings).exec source
  ⟨run.stdout, Text.unlines (options.shownLog run.events) ++ run.stderr, [], run.exitCode⟩

/-- Runs the file of a name. -/
def runNamed (files : FileSystem) (options : Options) (name : String) : Console :=
  if name.isEmpty then .complaint 1 ["No source file given"]
  else
    match files name with
    | .ok source => runSource options source
    | .error reason => .complaint 1 [s!"Cannot read {name}: {reason}"]

/-- The question for a file name. -/
def fileQuestion : String := "Enter source file name: "

/-- What the program that runs a file has to do, once it knows its arguments and
its configuration. -/
inductive Plan
  /-- Nothing more. -/
  | stop (console : Console)
  | run (options : Options) (name : String)
  /-- Ask for the name of the file, and run that file. -/
  | ask (options : Options)

/-- What the arguments and the configuration file ask for. -/
def Plan.ofArgs (files : FileSystem) (args : List String) : Plan :=
  match checkArgs args with
  | .error console => .stop console
  | .ok args =>
    match loadOptions files args with
    | .error console => .stop console
    | .ok options =>
      match args.file with
      | some name => .run options name
      | none => .ask options

/-- The program that runs a file.  Without a file argument it asks for the name;
`answer` is the answer. -/
def runFile (files : FileSystem) (args : List String) (answer : String) : Console :=
  match Plan.ofArgs files args with
  | .stop console => console
  | .run options name => runNamed files options name
  | .ask options => (runNamed files options (Text.trim answer)).asked fileQuestion

/-- Gives inputs to a session, up to the one that leaves the shell. -/
def handleInputs (options : Options) (s : Session) : List String → Console
  | [] => ⟨"", "", [], 0⟩
  | input :: rest =>
    let run := s.handle input
    let written := Text.unlines (options.shownLog run.events) ++ run.reply.stderr
    if run.reply.quit then ⟨run.reply.stdout, written, [], 0⟩
    else
      let later := handleInputs options run.session rest
      { later with stdout := run.reply.stdout ++ later.stdout, stderr := written ++ later.stderr }

/-- The shell program on the whole of its standard input. -/
def runShell (files : FileSystem) (args : List String) (input : String) : Console :=
  match checkArgs args with
  | .error console => console
  | .ok args =>
    if args.file.isSome then
      .complaint badUsage ["The shell reads from stdin and takes no file argument"]
    else
      match loadOptions files args with
      | .error console => console
      | .ok options =>
        handleInputs options (Session.fresh options.settings) (Text.completeLines input)

end Linewise
