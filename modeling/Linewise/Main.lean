/-
The command line: runs a file, or the shell after `--shell`.

Design notes: what the programs do is decided in `runFile` and `runShell`; here
files are read, the question for a file name is asked, and what the programs
write is written.  Files and the input of the shell are bytes, which need not
spell a text; the answer to the question has to.
-/
import Linewise.Program
import Linewise.Text.Utf8

namespace Linewise.CommandLine

/-- Why a file cannot be read. -/
def reason (path : String) (e : IO.Error) : String :=
  match e with
  | .noFileOrDirectory .. => s!"ENOENT: no such file or directory, open '{path}'"
  | .permissionDenied .. => s!"EACCES: permission denied, open '{path}'"
  | e => e.toString

/-- The text of a file, or why it cannot be read. -/
def readText (path : String) : IO (Except String String) := do
  try return .ok (Text.decode (← IO.FS.readBinFile path))
  catch e => return .error (reason path e)

/-- The files of the given paths. -/
def readFiles (paths : List String) : IO FileSystem := do
  let texts ← paths.mapM fun path => do return (path, ← readText path)
  return fun path => (texts.lookup path).getD (.error "the file was not read")

/-- The paths that arguments name. -/
def namedPaths (args : List String) : List String :=
  match Args.ofList args with
  | .ok args => args.configPath.toList ++ args.file.toList
  | .error _ => []

/-- Writes what a program writes; its exit code is the result. -/
def write (c : Console) : IO UInt32 := do
  (← IO.getStdout).putStr c.stdout
  (← IO.getStderr).putStr c.stderr
  return c.exit.toUInt32

/-- Runs a file, after asking for its name if the arguments have none. -/
def fileMain (args : List String) : IO UInt32 := do
  let paths := namedPaths args
  let files ← readFiles paths
  match Plan.ofArgs files args with
  | .ask _ =>
    (← IO.getStdout).putStr fileQuestion
    (← IO.getStdout).flush
    let answer ← (← IO.getStdin).getLine
    let files ← readFiles (paths ++ [Text.trim answer])
    write (runFile files args answer)
  | _ => write (runFile files args "")

/-- Runs the shell on the standard input. -/
def shellMain (args : List String) : IO UInt32 := do
  let files ← readFiles (namedPaths args)
  let input ← (← IO.getStdin).readBinToEnd
  write (runShell files args (Text.decode input))

end Linewise.CommandLine

def main (args : List String) : IO UInt32 :=
  match args with
  | "--shell" :: rest => Linewise.CommandLine.shellMain rest
  | _ => Linewise.CommandLine.fileMain args
