/-
The log of a program is put before its messages, and changes nothing else.

* `Args.readFrom_append`, `Args.ofList_verbose` — arguments that are good are read on, so
  after them the word for the log does what it says;
* `Options.hiddenLog` — the part of a log that is written only if it is asked for;
* `Console.logged` — what a program writes, with a log before its messages;
* `runNamed_verbose` — the run of a file with its log;
* `runFile_verbose` — what that means for the program that runs a file.

Design notes: the events of a run do not depend on whether they are shown, so the two runs
compared here are one run whose events are rendered in one of them.
-/
import Linewise.Proofs.Args
import Linewise.Proofs.Log
import Linewise.Proofs.Program.Ends

namespace Linewise

/-! ### Arguments -/

namespace Args

theorem readFrom_append {given read : Args} {xs : List String} (ys : List String)
    (h : readFrom given xs = .ok read) : readFrom given (xs ++ ys) = readFrom read ys := by
  fun_induction readFrom given xs with
  | case1 given =>
    obtain rfl := Except.ok.inj h
    rfl
  | case3 | case9 | case10 => exact absurd h (by simp)
  | case2 given path rest ih => exact ih h
  | case4 given rest ih => exact ih h
  | case5 given rest ih => exact ih h
  | case6 given rest ih => exact ih h
  | case7 given rest ih => exact ih h
  | case8 given rest ih => exact ih h
  | case11 given arg rest _ _ _ _ _ _ _ hoption hfile ih =>
    rw [List.cons_append, readFrom_file _ hoption (by simpa using hfile)]
    exact ih h

/-- After good arguments the word for the log asks for it and for nothing else. -/
theorem ofList_verbose {args : List String} {given : Args} (h : ofList args = .ok given) :
    ofList (args ++ ["--verbose"]) = .ok { given with verbose := true } :=
  readFrom_append ["--verbose"] h

end Args

/-! ### Options -/

namespace Options

/-- The log of events that is not shown, though it would be if it was asked for. -/
def hiddenLog (o : Options) (events : List Event) : List String :=
  if o.verbose then [] else logLines events

theorem ofArgs_verbose (given : Args) (config : Config) :
    ofArgs { given with verbose := true } config =
      { ofArgs given config with verbose := true } := rfl

theorem hiddenLog_nil (o : Options) : o.hiddenLog [] = [] := by
  unfold hiddenLog
  split <;> rfl

theorem shownLog_verbose (o : Options) (events : List Event) :
    { o with verbose := true }.shownLog events = o.hiddenLog events ++ o.shownLog events := by
  cases hverbose : o.verbose <;> simp [hiddenLog, shownLog, hverbose]

theorem ofLog_of_mem_hiddenLog {o : Options} {events : List Event} {line : String}
    (h : line ∈ o.hiddenLog events) : OfLog line := by
  unfold hiddenLog at h
  split at h
  · exact absurd h (by simp)
  · exact ofLog_of_mem_logLines h

end Options

/-! ### Programs -/

/-- What a program writes, with lines before its messages. -/
def Console.logged (log : List String) (c : Console) : Console :=
  { c with stderr := Text.unlines log ++ c.stderr }

theorem Console.logged_nil (c : Console) : c.logged [] = c := by
  simp [logged, Text.unlines]

/-- A question is asked before anything is written, so it does not meet the log. -/
theorem Args.ask_logged (given : Args) (log : List String) (c : Console) :
    given.ask (c.logged log) = (given.ask c).logged log := by
  unfold ask
  split <;> rfl

/-- What happens while the file of a name runs: nothing, if there is no source. -/
def runEvents (files : FileSystem) (options : Options) (name : String) : List Event :=
  if name.isEmpty then []
  else
    match files name with
    | .ok source => ((Session.fresh options.settings).exec source).events
    | .error _ => []

theorem runEvents_of_source {files : FileSystem} (options : Options) {name source : String}
    (hname : name ≠ "") (h : files name = .ok source) : runEvents files options name =
      ((Session.fresh options.settings).exec source).events := by
  have hnonempty : name.isEmpty = false := by simpa using hname
  simp only [runEvents, hnonempty, h, Bool.false_eq_true, if_false]

theorem runSource_verbose (options : Options) (source : String) :
    runSource { options with verbose := true } source =
      (runSource options source).logged
        (options.hiddenLog ((Session.fresh options.settings).exec source).events) := by
  simp only [runSource, Console.logged, Options.shownLog_verbose, Text.unlines_append,
    String.append_assoc]
  rfl

/-- The run of a file with its log is the run without it, after the log. -/
theorem runNamed_verbose (files : FileSystem) (options : Options) (name : String) :
    runNamed files { options with verbose := true } name =
      (runNamed files options name).logged
        (options.hiddenLog (runEvents files options name)) := by
  unfold runNamed runEvents
  split
  · rw [Options.hiddenLog_nil, Console.logged_nil]
  · cases files name with
    | ok source => exact runSource_verbose options source
    | error reason => rw [Options.hiddenLog_nil, Console.logged_nil]

section Runs

variable {files : FileSystem} {args : List String} {given : Args} {config : Config}

/-- The word for the log does not change which settings are found. -/
theorem Proceeds.verbose (h : Proceeds files args given config) :
    Proceeds files (args ++ ["--verbose"]) { given with verbose := true } config :=
  ⟨Args.ofList_verbose h.args, h.help, h.config⟩

/-- A program that proceeds adds the log of the run to its messages. -/
theorem Proceeds.runFile_append_verbose (h : Proceeds files args given config) (answer : String) :
    let options := Options.ofArgs given config
    Linewise.runFile files (args ++ ["--verbose"]) answer =
      (Linewise.runFile files args answer).logged
        (options.hiddenLog (runEvents files options (given.fileName answer))) := by
  intro options
  rw [h.verbose.runFile, h.runFile, ← given.ask_logged, ← runNamed_verbose,
    Options.ofArgs_verbose]
  rfl

/-- A program that does not proceed ends before there is anything to log. -/
theorem runFile_verbose_of_not_proceeds (answer : String) (hargs : Args.ofList args = .ok given)
    (h : ∀ config, ¬ Proceeds files args given config) :
    runFile files (args ++ ["--verbose"]) answer = runFile files args answer := by
  have hverbose := Args.ofList_verbose hargs
  cases hhelp : given.help with
  | true => rw [runFile_of_help answer hargs hhelp, runFile_of_help answer hverbose hhelp]
  | false =>
    cases hconfig : Config.ofFile files given.configPath with
    | ok config => exact absurd ⟨hargs, hhelp, hconfig⟩ (h config)
    | error e =>
      -- The complaint names the path of the configuration, which is the same.
      obtain ⟨path, hpath, hload⟩ := loadOptions_of_ofFile_error hconfig
      have hconfig' : Config.ofFile files { given with verbose := true }.configPath = .error e :=
        hconfig
      obtain ⟨path', hpath', hload'⟩ := loadOptions_of_ofFile_error hconfig'
      obtain rfl := Option.some.inj (hpath.symm.trans hpath')
      rw [runFile_of_loadOptions_error answer hargs hhelp hload,
        runFile_of_loadOptions_error answer hverbose hhelp hload']

end Runs

/-- The word for the log, after arguments that are good, changes neither the exit code nor
the output nor the questions of the program.  It puts lines of a log before its messages:
those of the events of the run, if a source is run and its log was not written before. -/
theorem runFile_verbose (files : FileSystem) {args : List String} {given : Args}
    (answer : String) (hargs : Args.ofList args = .ok given) :
    let run := runFile files args answer
    let observed := runFile files (args ++ ["--verbose"]) answer
    observed.exit = run.exit ∧ observed.stdout = run.stdout ∧
    observed.questions = run.questions ∧
    ∃ log : List String,
      (∀ line ∈ log, ("[info] ".toList <+: line.toList ∨ "[debug] ".toList <+: line.toList) ∧
        '\n' ∉ line.toList) ∧
      observed.stderr = Text.unlines log ++ run.stderr ∧
      ∀ config source, Proceeds files args given config → given.fileName answer ≠ "" →
        files (given.fileName answer) = .ok source →
        let options := Options.ofArgs given config
        log = options.hiddenLog ((Session.fresh options.settings).exec source).events := by
  intro run observed
  by_cases hstart : ∃ config, Proceeds files args given config
  · obtain ⟨config, hstart⟩ := hstart
    have hobserved : observed = run.logged _ := hstart.runFile_append_verbose answer
    rw [hobserved]
    refine ⟨rfl, rfl, rfl, _, fun line hline => ?_, rfl, ?_⟩
    · have hlog := Options.ofLog_of_mem_hiddenLog hline
      exact ⟨hlog.level, hlog.newline_notMem⟩
    · intro config' source hstart' hname hfile options
      obtain ⟨-, rfl⟩ := hstart.unique hstart'
      rw [runEvents_of_source _ hname hfile]
  · have hnone : ∀ config, ¬ Proceeds files args given config :=
      fun config h => hstart ⟨config, h⟩
    have hobserved : observed = run := runFile_verbose_of_not_proceeds answer hargs hnone
    rw [hobserved]
    refine ⟨rfl, rfl, rfl, [], by simp, by simp [Text.unlines], ?_⟩
    exact fun config source h => absurd h (hnone config)

/-- The name of the file is asked for, and four events are logged before the complaint
about its second line: this line, the second attempt at it, its error and the exit. -/
theorem runFile_verbose_asked :
    let files := FileSystem.ofList [("p.ls", "// a\n\"b")]
    let args := ["--no-comments"]
    let observed := runFile files (args ++ ["--verbose"]) " p.ls\n"
    Args.ofList args = .ok { noComments := true } ∧
    observed.exit = 1 ∧ observed.stdout = "" ∧ observed.questions = [fileQuestion] ∧
    ∃ log : List String, log.length = 4 ∧ (∀ line ∈ log, '\n' ∉ line.toList) ∧
      observed.stderr = Text.unlines log ++
        "line 2: Lex error at column 1: Unterminated string literal\n" := by
  intro files args observed
  have hargs : Args.ofList args = .ok { noComments := true } := rfl
  have hrun : runFile files args " p.ls\n" =
      ⟨"", "line 2: Lex error at column 1: Unterminated string literal\n", [fileQuestion], 1⟩ := by
    decide +kernel
  have hstart : Proceeds files args { noComments := true } {} := ⟨hargs, rfl, rfl⟩
  obtain ⟨hexit, hstdout, hquestions, log, hlines, hstderr, hlog⟩ :=
    runFile_verbose files " p.ls\n" hargs
  rw [hrun] at hexit hstdout hquestions hstderr
  refine ⟨hargs, hexit, hstdout, hquestions, log, ?_, fun line hline => (hlines line hline).2,
    hstderr⟩
  have hname : Args.fileName { noComments := true } " p.ls\n" ≠ "" := by decide
  rw [hlog {} "// a\n\"b" hstart hname rfl]
  decide +kernel

end Linewise
