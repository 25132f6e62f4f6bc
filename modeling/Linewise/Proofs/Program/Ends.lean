/-
How the program that runs a file ends.

* `Config.ofFile` — the settings of the file that the arguments name, if they name one;
* `Proceeds` — arguments and settings with which the program looks for a file to run, and
  `start_cases` what else can become of them;
* `Refused.runFile`, `runFile_of_help`, `Proceeds.runFile` — how the program ends in each of
  these cases;
* `stderr_eq_empty_iff` — a run of a text has messages just if it fails;
* `runFile_consistent` — what that means for the output, the messages, the questions and
  the exit code of the program.
-/
import Linewise.Program
import Linewise.Proofs.Session.Composition

namespace Linewise

theorem Text.unlines_eq_empty_iff {ls : List String} : unlines ls = "" ↔ ls = [] := by
  cases ls with
  | nil => simp [unlines]
  | cons l rest => simp [unlines, String.join_cons]

/-! ### Runs of a text -/

namespace Outcome

theorem exitCode_eq_zero_iff {outcomes : List Outcome} :
    exitCode outcomes = 0 ↔ ∀ o ∈ outcomes, o.error? = none := by
  have hnone : (∀ o ∈ outcomes, o.error? = none) ↔
      ¬ (outcomes.any fun o => o.error?.isSome) = true := by simp
  rw [hnone, exitCode]
  split <;> simp_all

/-- Every line that failed has a message. -/
theorem failures_eq_nil_iff {outcomes : List Outcome} {first : Nat} :
    failures outcomes first = [] ↔ ∀ o ∈ outcomes, o.error? = none := by
  induction outcomes generalizing first with
  | nil => simp [failures]
  | cons o rest ih =>
    rw [failures_cons, List.append_eq_nil_iff, ih, List.forall_mem_cons, Option.toList_eq_nil_iff,
      Option.map_eq_none_iff]

end Outcome

namespace Execution

theorem stderr_eq_empty_iff (x : Execution) : x.stderr = "" ↔ x.exitCode = 0 := by
  rw [x.stderr_eq, Text.unlines_eq_empty_iff, List.map_eq_nil_iff, failures,
    Outcome.failures_eq_nil_iff, exitCode, Outcome.exitCode_eq_zero_iff]

theorem exitCode_le_one (x : Execution) : x.exitCode ≤ 1 := by
  unfold exitCode Outcome.exitCode
  split <;> decide

end Execution

/-! ### Arguments and configuration -/

/-- The settings of the file of a path; without a path there is nothing to be read. -/
def Config.ofFile (files : FileSystem) : Option String → Except ConfigError Config
  | none => .ok {}
  | some path =>
    match files path with
    | .ok text => ofText text
    | .error reason => .error (.unreadable reason)

section Start

variable {files : FileSystem} {args : List String} {given : Args} {config : Config}

theorem loadOptions_of_none (h : given.configPath = none) :
    loadOptions files given = .ok (.ofArgs given {}) := by
  rw [loadOptions, h]

theorem loadOptions_of_some {path : String} (h : given.configPath = some path) :
    loadOptions files given =
      match Config.ofFile files (some path) with
      | .ok config => .ok (.ofArgs given config)
      | .error e => .error (.complaint badUsage [e.message path]) := by
  rw [loadOptions, h]
  rfl

theorem loadOptions_of_ofFile_ok (h : Config.ofFile files given.configPath = .ok config) :
    loadOptions files given = .ok (.ofArgs given config) := by
  cases hpath : given.configPath with
  | none =>
    rw [hpath] at h
    obtain rfl := Except.ok.inj h
    exact loadOptions_of_none hpath
  | some path =>
    rw [hpath] at h
    rw [loadOptions_of_some hpath, h]

theorem loadOptions_of_ofFile_error {e : ConfigError}
    (h : Config.ofFile files given.configPath = .error e) :
    ∃ path, given.configPath = some path ∧
      loadOptions files given = .error (.complaint badUsage [e.message path]) := by
  cases hpath : given.configPath with
  | none =>
    rw [hpath] at h
    exact absurd h (by simp [Config.ofFile])
  | some path =>
    rw [hpath] at h
    exact ⟨path, rfl, by rw [loadOptions_of_some hpath, h]⟩

/-- Arguments that are good and do not ask for help, and the settings of the file that
they name. -/
structure Proceeds (files : FileSystem) (args : List String) (given : Args) (config : Config) :
    Prop where
  args : Args.ofList args = .ok given
  help : given.help = false
  config : Config.ofFile files given.configPath = .ok config

/-- The arguments are wrong, or they do not ask for help and the file that they name gives
no settings. -/
def Refused (files : FileSystem) (args : List String) : Prop :=
  (∃ e, Args.ofList args = .error e) ∨
    ∃ given e, Args.ofList args = .ok given ∧ given.help = false ∧
      Config.ofFile files given.configPath = .error e

/-- The program refuses its arguments, it shows how it is called, or it proceeds. -/
theorem start_cases (files : FileSystem) (args : List String) :
    Refused files args ∨ (∃ given, Args.ofList args = .ok given ∧ given.help = true) ∨
      ∃ given config, Proceeds files args given config := by
  cases hargs : Args.ofList args with
  | error e => exact Or.inl (Or.inl ⟨e, hargs⟩)
  | ok given =>
    cases hhelp : given.help with
    | true => exact Or.inr (Or.inl ⟨given, rfl, hhelp⟩)
    | false =>
      cases hconfig : Config.ofFile files given.configPath with
      | error e => exact Or.inl (Or.inr ⟨given, e, hargs, hhelp, hconfig⟩)
      | ok config => exact Or.inr (Or.inr ⟨given, config, hargs, hhelp, hconfig⟩)

theorem not_refused_of_help (h : Args.ofList args = .ok given) (hhelp : given.help = true) :
    ¬ Refused files args := by
  rintro (⟨e, he⟩ | ⟨given', e, hgiven, hnone, -⟩)
  · exact absurd (h.symm.trans he) (by simp)
  · obtain rfl := Except.ok.inj (h.symm.trans hgiven)
    exact absurd (hhelp.symm.trans hnone) (by simp)

theorem Proceeds.not_refused (h : Proceeds files args given config) : ¬ Refused files args := by
  rintro (⟨e, he⟩ | ⟨given', e, hgiven, -, hconfig⟩)
  · exact absurd (h.args.symm.trans he) (by simp)
  · obtain rfl := Except.ok.inj (h.args.symm.trans hgiven)
    exact absurd (h.config.symm.trans hconfig) (by simp)

theorem Proceeds.not_help (h : Proceeds files args given config) :
    ¬ ∃ given, Args.ofList args = .ok given ∧ given.help = true := by
  rintro ⟨given', hgiven, hhelp⟩
  obtain rfl := Except.ok.inj (h.args.symm.trans hgiven)
  exact absurd (h.help.symm.trans hhelp) (by simp)

theorem Proceeds.unique {given' : Args} {config' : Config} (h : Proceeds files args given config)
    (h' : Proceeds files args given' config') : given = given' ∧ config = config' := by
  obtain rfl := Except.ok.inj (h.args.symm.trans h'.args)
  exact ⟨rfl, Except.ok.inj (h.config.symm.trans h'.config)⟩

/-! ### Ends -/

theorem checkArgs_of_ok (h : Args.ofList args = .ok given) (hhelp : given.help = false) :
    checkArgs args = .ok given := by
  simp only [checkArgs, h, hhelp, Bool.false_eq_true, if_false]

theorem runFile_of_help (answer : String) (h : Args.ofList args = .ok given)
    (hhelp : given.help = true) : runFile files args answer = .help := by
  simp only [runFile, Plan.ofArgs, checkArgs, h, hhelp, if_true]

theorem runFile_of_loadOptions_error (answer : String) {console : Console}
    (h : Args.ofList args = .ok given) (hhelp : given.help = false)
    (hload : loadOptions files given = .error console) : runFile files args answer = console := by
  simp only [runFile, Plan.ofArgs, checkArgs_of_ok h hhelp, hload]

/-- A program that refuses its arguments complains. -/
theorem Refused.runFile (h : Refused files args) (answer : String) :
    ∃ l ls, runFile files args answer = .complaint badUsage (l :: ls) := by
  rcases h with ⟨e, he⟩ | ⟨given, e, hgiven, hhelp, hconfig⟩
  · exact ⟨e.message, usage, by simp only [Linewise.runFile, Plan.ofArgs, checkArgs, he]⟩
  · obtain ⟨path, -, hload⟩ := loadOptions_of_ofFile_error hconfig
    exact ⟨e.message path, [], runFile_of_loadOptions_error answer hgiven hhelp hload⟩

/-- The name of the file to run: that of the arguments, or else the answer. -/
def Args.fileName (given : Args) (answer : String) : String :=
  given.file.getD (Text.trim answer)

/-- A program with these arguments asks for a file before, if they have none. -/
def Args.ask (given : Args) (c : Console) : Console :=
  if given.file.isNone then c.asked fileQuestion else c

section Ask

variable (given : Args) (c : Console)

@[simp] theorem Args.stdout_ask : (given.ask c).stdout = c.stdout := by
  unfold ask
  split <;> rfl

@[simp] theorem Args.stderr_ask : (given.ask c).stderr = c.stderr := by
  unfold ask
  split <;> rfl

@[simp] theorem Args.exit_ask : (given.ask c).exit = c.exit := by
  unfold ask
  split <;> rfl

theorem Args.questions_ask : (given.ask c).questions =
    if given.file.isNone then fileQuestion :: c.questions else c.questions := by
  unfold ask
  split <;> rfl

end Ask

/-- A program that proceeds runs a file, and asks for its name if the arguments have none. -/
theorem Proceeds.runFile (h : Proceeds files args given config) (answer : String) :
    runFile files args answer =
      given.ask (runNamed files (.ofArgs given config) (given.fileName answer)) := by
  have hload := loadOptions_of_ofFile_ok h.config
  simp only [Linewise.runFile, Plan.ofArgs, checkArgs_of_ok h.args h.help, hload]
  unfold Args.ask Args.fileName
  cases given.file with
  | some name => rfl
  | none => rfl

theorem questions_runNamed (files : FileSystem) (options : Options) (name : String) :
    (runNamed files options name).questions = [] := by
  unfold runNamed
  split
  · rfl
  · split <;> rfl

theorem runNamed_of_no_source (options : Options) {name : String}
    (h : name = "" ∨ ∃ reason, files name = .error reason) :
    ∃ message, runNamed files options name = .complaint 1 [message] := by
  unfold runNamed
  split
  · exact ⟨_, rfl⟩
  · next hname =>
    obtain ⟨reason, hreason⟩ := h.resolve_left fun hempty => hname (by simp [hempty])
    exact ⟨s!"Cannot read {name}: {reason}", by rw [hreason]⟩

theorem runNamed_of_source (options : Options) {name source : String} (hname : name ≠ "")
    (h : files name = .ok source) :
    runNamed files options name = runSource options source := by
  have hnonempty : name.isEmpty = false := by simpa using hname
  simp only [runNamed, hnonempty, h, Bool.false_eq_true, if_false]

theorem source_cases (files : FileSystem) (name : String) :
    (name = "" ∨ ∃ reason, files name = .error reason) ∨
      ∃ source, name ≠ "" ∧ files name = .ok source := by
  by_cases hname : name = ""
  · exact Or.inl (Or.inl hname)
  · cases hfile : files name with
    | error reason => exact Or.inl (Or.inr ⟨reason, rfl⟩)
    | ok source => exact Or.inr ⟨source, hname, rfl⟩

/-- Without a log the messages of the program are those of the run. -/
theorem runSource_of_quiet {options : Options} (h : options.verbose = false) (source : String) :
    runSource options source =
      let run := (Session.fresh options.settings).exec source
      ⟨run.stdout, run.stderr, [], run.exitCode⟩ := by
  simp [runSource, Options.shownLog, h, Text.unlines]

theorem exit_runNamed_le_one (files : FileSystem) (options : Options) (name : String) :
    (runNamed files options name).exit ≤ 1 := by
  rcases source_cases files name with hnone | ⟨source, hname, hfile⟩
  · obtain ⟨message, hrun⟩ := runNamed_of_no_source options hnone
    rw [hrun]
    exact Nat.le_refl 1
  · rw [runNamed_of_source options hname hfile]
    exact Execution.exitCode_le_one _

theorem Console.stderr_complaint_ne (exit : Nat) (l : String) (ls : List String) :
    (complaint exit (l :: ls)).stderr ≠ "" := by
  rw [complaint, Ne, Text.unlines_eq_empty_iff]
  exact List.cons_ne_nil l ls

/-- No log is asked for: not by the arguments, and not by the file that they name. -/
theorem verbose_ofArgs (hflag : given.verbose = false) (hconfig : config.verbose ≠ some true) :
    (Options.ofArgs given config).verbose = false := by
  have hfile : config.verbose.getD false = false := by
    cases hverbose : config.verbose with
    | none => rfl
    | some b => simpa [hverbose] using hconfig
  rw [Options.ofArgs, hflag, hfile]
  rfl

theorem Proceeds.stdout_of_no_source (h : Proceeds files args given config) {answer : String}
    (hnone : given.fileName answer = "" ∨ ∃ reason, files (given.fileName answer) = .error reason) :
    (Linewise.runFile files args answer).stdout = "" := by
  obtain ⟨message, hrun⟩ := runNamed_of_no_source (.ofArgs given config) hnone
  rw [h.runFile, Args.stdout_ask, hrun]
  rfl

theorem Proceeds.run_of_source (h : Proceeds files args given config)
    (hquiet : (Options.ofArgs given config).verbose = false) {answer source : String}
    (hname : given.fileName answer ≠ "") (hfile : files (given.fileName answer) = .ok source) :
    let run := Linewise.runFile files args answer
    let x := (Session.fresh (Options.ofArgs given config).settings).exec source
    run.stdout = x.stdout ∧ run.stderr = x.stderr ∧ run.exit = x.exitCode := by
  intro run x
  have hrun : run = given.ask ⟨x.stdout, x.stderr, [], x.exitCode⟩ := by
    rw [← runSource_of_quiet hquiet, ← runNamed_of_source _ hname hfile]
    exact h.runFile answer
  rw [hrun]
  exact ⟨given.stdout_ask _, given.stderr_ask _, given.exit_ask _⟩

variable (files args) (answer : String)

theorem exit_runFile_eq_two_iff : (runFile files args answer).exit = 2 ↔ Refused files args := by
  rcases start_cases files args with hrefused | ⟨given, hgiven, hhelp⟩ | ⟨given, config, hstart⟩
  · obtain ⟨l, ls, hrun⟩ := hrefused.runFile answer
    rw [hrun]
    exact iff_of_true rfl hrefused
  · rw [runFile_of_help answer hgiven hhelp]
    exact iff_of_false (by decide) (not_refused_of_help hgiven hhelp)
  · -- The exit code is that of a run, or of a file that cannot be run.
    refine iff_of_false ?_ hstart.not_refused
    have hexit := exit_runNamed_le_one files (.ofArgs given config) (given.fileName answer)
    rw [hstart.runFile, Args.exit_ask]
    exact Nat.ne_of_lt (Nat.lt_succ_of_le hexit)

/-- The program asks for a file at most, and only if it proceeds and has none. -/
theorem questions_runFile :
    ((runFile files args answer).questions = [] ∨
      (runFile files args answer).questions = [fileQuestion]) ∧
    ((runFile files args answer).questions = [fileQuestion] ↔
      ∃ given config, Proceeds files args given config ∧ given.file = none) := by
  rcases start_cases files args with hrefused | ⟨given, hgiven, hhelp⟩ | ⟨given, config, hstart⟩
  · obtain ⟨l, ls, hrun⟩ := hrefused.runFile answer
    rw [hrun]
    refine ⟨Or.inl rfl, iff_of_false (List.cons_ne_nil _ _).symm ?_⟩
    rintro ⟨given, config, hstart, -⟩
    exact hstart.not_refused hrefused
  · rw [runFile_of_help answer hgiven hhelp]
    refine ⟨Or.inl rfl, iff_of_false (List.cons_ne_nil _ _).symm ?_⟩
    rintro ⟨given', config, hstart, -⟩
    exact hstart.not_help ⟨given, hgiven, hhelp⟩
  · rw [hstart.runFile, Args.questions_ask, questions_runNamed]
    cases hfile : given.file with
    | none => exact ⟨Or.inr rfl, iff_of_true rfl ⟨given, config, hstart, hfile⟩⟩
    | some name =>
      refine ⟨Or.inl rfl, iff_of_false (List.cons_ne_nil _ _).symm ?_⟩
      rintro ⟨given', config', hstart', hnone⟩
      obtain ⟨rfl, -⟩ := hstart.unique hstart'
      exact absurd (hfile.symm.trans hnone) (by simp)

/-- Every end with an exit code other than zero has a message of its own. -/
theorem stderr_runFile_eq_empty_iff (hquiet : ∀ given config, Proceeds files args given config →
      (Options.ofArgs given config).verbose = false) :
    (runFile files args answer).stderr = "" ↔ (runFile files args answer).exit = 0 := by
  rcases start_cases files args with hrefused | ⟨given, hgiven, hhelp⟩ | ⟨given, config, hstart⟩
  · obtain ⟨l, ls, hrun⟩ := hrefused.runFile answer
    rw [hrun]
    exact iff_of_false (Console.stderr_complaint_ne badUsage l ls) (Nat.succ_ne_zero 1)
  · -- Help that was asked for is output and no message.
    rw [runFile_of_help answer hgiven hhelp]
    exact iff_of_true rfl rfl
  · rcases source_cases files (given.fileName answer) with hnone | ⟨source, hname, hfile⟩
    · obtain ⟨message, hrun⟩ := runNamed_of_no_source (.ofArgs given config) hnone
      rw [hstart.runFile, Args.stderr_ask, Args.exit_ask, hrun]
      exact iff_of_false (Console.stderr_complaint_ne 1 message []) Nat.one_ne_zero
    · obtain ⟨-, hstderr, hexit⟩ :=
        hstart.run_of_source (hquiet given config hstart) hname hfile
      rw [hstderr, hexit]
      exact Execution.stderr_eq_empty_iff _

end Start

/-- Without a log, the program that runs a file has messages just if its exit code is not
zero.  The exit code is two just if it refuses its arguments, and then it puts nothing out.
Nor does it without a source, that is, if the name of the file is empty or the file cannot
be read; otherwise output, messages and exit code are those of the run of the source in a
fresh session.  It asks at most one question, and does so just if it proceeds and its
arguments name no file. -/
theorem runFile_consistent (files : FileSystem) (args : List String) (answer : String)
    (hquiet : ∀ given config, Proceeds files args given config →
      given.verbose = false ∧ config.verbose ≠ some true) :
    let run := runFile files args answer
    (run.stderr = "" ↔ run.exit = 0) ∧
    (run.exit = 2 ↔ Refused files args) ∧
    (run.exit = 2 → run.stdout = "") ∧
    (∀ given config, Proceeds files args given config →
      let name := given.fileName answer
      ((name = "" ∨ ∃ reason, files name = .error reason) → run.stdout = "") ∧
      ∀ source, name ≠ "" → files name = .ok source →
        let x := (Session.fresh (Options.ofArgs given config).settings).exec source
        run.stdout = x.stdout ∧ run.stderr = x.stderr ∧ run.exit = x.exitCode) ∧
    (run.questions = [] ∨ run.questions = [fileQuestion]) ∧
    (run.questions = [fileQuestion] ↔
      ∃ given config, Proceeds files args given config ∧ given.file = none) := by
  intro run
  have hverbose : ∀ given config, Proceeds files args given config →
      (Options.ofArgs given config).verbose = false := by
    intro given config hstart
    obtain ⟨hflag, hconfig⟩ := hquiet given config hstart
    exact verbose_ofArgs hflag hconfig
  have hexit := exit_runFile_eq_two_iff files args answer
  refine ⟨stderr_runFile_eq_empty_iff files args answer hverbose, hexit, ?_, ?_,
    questions_runFile files args answer⟩
  · intro htwo
    obtain ⟨l, ls, hrun⟩ := (hexit.mp htwo).runFile answer
    exact congrArg Console.stdout hrun
  · intro given config hstart
    refine ⟨hstart.stdout_of_no_source, fun source hname hfile => ?_⟩
    exact hstart.run_of_source (hverbose given config hstart) hname hfile

/-- The name that is asked for has blanks around it, and the configuration hides the
comment before the line that fails. -/
theorem runFile_consistent_asked :
    let files := FileSystem.ofList
      [("c.json", "\x7b\"echoComments\": false\x7d"), ("p.ls", "// a\n\"b")]
    let args := ["--config", "c.json"]
    let run := runFile files args " p.ls\n"
    (∀ given config, Proceeds files args given config →
      given.verbose = false ∧ config.verbose ≠ some true) ∧
    run.stdout = "" ∧
    run.stderr = "line 2: Lex error at column 1: Unterminated string literal\n" ∧
    run.exit = 1 ∧ run.questions = [fileQuestion] := by
  intro files args run
  have hread : (Config.ofText "\x7b\"echoComments\": false\x7d").toOption =
      some { echoComments := some false } := by decide +kernel
  have hconfig : Config.ofFile files (some "c.json") = .ok { echoComments := some false } :=
    toOption_eq_some_iff.mp hread
  have hstart : Proceeds files args { configPath := some "c.json" }
      { echoComments := some false } := ⟨rfl, rfl, hconfig⟩
  have hquiet : ∀ given config, Proceeds files args given config →
      given.verbose = false ∧ config.verbose ≠ some true := by
    intro given config h
    obtain ⟨rfl, rfl⟩ := hstart.unique h
    exact ⟨rfl, by decide⟩
  obtain ⟨-, -, -, hends, -, hquestions⟩ := runFile_consistent files args " p.ls\n" hquiet
  obtain ⟨hstdout, hstderr, hexit⟩ := (hends _ _ hstart).2 "// a\n\"b" (by decide) rfl
  refine ⟨hquiet, hstdout.trans ?_, hstderr.trans ?_, hexit.trans ?_,
    hquestions.mpr ⟨_, _, hstart, rfl⟩⟩
  · decide +kernel
  · decide +kernel
  · decide +kernel

end Linewise
