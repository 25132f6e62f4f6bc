/-
The shell and the run of a text agree.

* `Session.handleAll` — the replies to inputs in turn;
* `handleAll_eq_runLines` — where no input is a command, these are the outcomes of the
  inputs as lines;
* `Reply.stdout_ofOutcome`, `Reply.numbered_ofOutcome` — what a reply puts out is what its
  outcome adds to the output and to the messages of a run;
* `shell_agrees_with_exec` — so the replies together are the run of the inputs, joined by
  line feeds.

Design notes: whether an input is a command is decided without the blanks around it, but
it is run with them, as a line of a text is.
-/
import Linewise.Shell
import Linewise.Proofs.Session.Failures
import Linewise.Proofs.Text.Lines

namespace Linewise

/-- The replies of a session to inputs in turn, and the session after them. -/
def Session.handleAll (s : Session) : List String → List Reply × Session
  | [] => ([], s)
  | input :: rest =>
    let first := s.handle input
    let others := first.session.handleAll rest
    (first.reply :: others.1, others.2)

theorem ShellInput.ofString_of_not_command {input : String}
    (h : (Text.trim input).toList.head? ≠ some ':') : ofString input = .source input := by
  simp only [ofString]
  exact if_neg h

namespace Reply

theorem quit_ofOutcome (o : Outcome) : (ofOutcome o).quit = false := by
  unfold ofOutcome
  split <;> rfl

/-- The reply to a line puts out what the line does; a line that fails puts nothing out. -/
theorem stdout_ofOutcome (o : Outcome) : (ofOutcome o).stdout = Text.unlines o.output := by
  cases o <;> rfl

/-- The complaint of a reply after the number of its line. -/
def numbered (r : Reply) (number : Nat) : Option String :=
  if r.stderr = "" then none else some (s!"line {number}: " ++ r.stderr)

/-- A reply complains just if the line failed, with the message of the run. -/
theorem numbered_ofOutcome (o : Outcome) (number : Nat) :
    (ofOutcome o).numbered number =
      o.error?.map fun e => Execution.complaint number e ++ "\n" := by
  cases o with
  | error e =>
    have hstderr : (ofOutcome (.error e)).stderr = e.report.format ++ "\n" := by
      simp [ofOutcome, Outcome.error?, complaint, Text.unlines, String.join_cons]
    have hne : e.report.format ++ "\n" ≠ "" := by simp
    rw [numbered, hstderr, if_neg hne]
    simp only [Outcome.error?, Option.map_some, Execution.complaint, String.append_assoc]
    rfl
  | _ => rfl

end Reply

namespace Execution

theorem stdout_eq_join (x : Execution) :
    x.stdout = String.join ((x.outcomes.map Reply.ofOutcome).map Reply.stdout) := by
  rw [stdout, Text.unlines_flatMap, List.map_map]
  exact congrArg String.join (List.map_congr_left fun o _ => (Reply.stdout_ofOutcome o).symm)

theorem stderr_eq_join (x : Execution) :
    x.stderr = String.join (((x.outcomes.map Reply.ofOutcome).zipIdx 1).filterMap fun r =>
      r.1.numbered r.2) := by
  rw [stderr, Text.unlines, List.map_filterMap, List.zipIdx_map, List.filterMap_map]
  refine congrArg String.join (List.filterMap_congr fun r _ => ?_)
  simp [Reply.numbered_ofOutcome, Option.map_map, Function.comp_def]

end Execution

namespace Session

theorem handleAll_eq_runLines (s : Session) {inputs : List String}
    (h : ∀ input ∈ inputs, (Text.trim input).toList.head? ≠ some ':') :
    s.handleAll inputs = ((s.runLines inputs).outcomes.map Reply.ofOutcome,
      (s.runLines inputs).session) := by
  induction inputs generalizing s with
  | nil => rfl
  | cons input rest ih =>
    have hsource := ShellInput.ofString_of_not_command (h input List.mem_cons_self)
    have hhandle : s.handle input = ⟨.ofOutcome (s.runLine input).outcome,
        (s.runLine input).session, (s.runLine input).events⟩ := by
      rw [handle, hsource]
    simp only [handleAll, hhandle, runLines, List.map_cons,
      ih _ fun i hi => h i (List.mem_cons_of_mem input hi)]

/-- The lines of a text that is joined from inputs are these inputs. -/
theorem exec_intercalate (s : Session) {inputs : List String} (hne : inputs ≠ [])
    (hfeed : ∀ input ∈ inputs, '\n' ∉ input.toList)
    (hreturn : ∀ input ∈ inputs.dropLast, input.toList.getLast? ≠ some '\r') :
    (s.exec ("\n".intercalate inputs)).outcomes = (s.runLines inputs).outcomes ∧
      (s.exec ("\n".intercalate inputs)).session = (s.runLines inputs).session := by
  rw [exec, Text.lines_intercalate hne hfeed hreturn]
  exact ⟨rfl, rfl⟩

/-- Inputs without line feeds, of which only the last one may end with a carriage return
and none is a command, do not end the shell.  Its replies together put out what the run of
the inputs as one text does; the messages of that run are those of the replies, each after
the number of its input; and both leave the same session. -/
theorem shell_agrees_with_exec (settings : Settings) {inputs : List String}
    (hfeed : ∀ input ∈ inputs, '\n' ∉ input.toList)
    (hreturn : ∀ input ∈ inputs.dropLast, input.toList.getLast? ≠ some '\r')
    (hcommand : ∀ input ∈ inputs, (Text.trim input).toList.head? ≠ some ':') :
    let shell := (fresh settings).handleAll inputs
    let run := (fresh settings).exec ("\n".intercalate inputs)
    shell.1.length = inputs.length ∧
    (∀ r ∈ shell.1, r.quit = false) ∧
    run.stdout = String.join (shell.1.map Reply.stdout) ∧
    run.stderr = String.join ((shell.1.zipIdx 1).filterMap fun r => r.1.numbered r.2) ∧
    run.session = shell.2 := by
  intro shell run
  by_cases hne : inputs = []
  · -- The text is empty then: one line, which is blank.
    subst hne
    exact ⟨rfl, by simp [shell, handleAll], rfl, rfl, rfl⟩
  · have hshell : shell = _ := (fresh settings).handleAll_eq_runLines hcommand
    obtain ⟨houtcomes, hsession⟩ := (fresh settings).exec_intercalate hne hfeed hreturn
    have hlength := (fresh settings).length_outcomes_runLines inputs
    rw [← houtcomes, ← hsession] at hshell
    rw [← houtcomes] at hlength
    rw [hshell]
    exact ⟨by simpa using hlength, by simp [Reply.quit_ofOutcome], run.stdout_eq_join,
      run.stderr_eq_join, rfl⟩

/-- The carriage return at the end of the last input belongs to its line and makes it too
long; an input of blanks has a number of its own. -/
theorem shell_agrees_with_exec_tooLong :
    let inputs := ["\t//a", " ", "abcd\r"]
    let run := (fresh { limits := ⟨4, 1⟩ }).exec ("\n".intercalate inputs)
    (∀ input ∈ inputs, '\n' ∉ input.toList) ∧
      (∀ input ∈ inputs.dropLast, input.toList.getLast? ≠ some '\r') ∧
      (∀ input ∈ inputs, (Text.trim input).toList.head? ≠ some ':') ∧
      run.stdout = "Comment: a\n" ∧
      run.stderr = Execution.complaint 3 (.tooLong 4) ++ "\n" := by
  intro inputs run
  have hfeed : ∀ input ∈ inputs, '\n' ∉ input.toList := by decide
  have hreturn : ∀ input ∈ inputs.dropLast, input.toList.getLast? ≠ some '\r' := by decide
  have hcommand : ∀ input ∈ inputs, (Text.trim input).toList.head? ≠ some ':' := by decide
  obtain ⟨-, -, hstdout, hstderr, -⟩ :=
    shell_agrees_with_exec { limits := ⟨4, 1⟩ } hfeed hreturn hcommand
  have hreplies : ((fresh { limits := ⟨4, 1⟩ }).handleAll inputs).1 =
      [.ofOutcome (.comment "a" true), .ofOutcome .blank, .ofOutcome (.error (.tooLong 4))] := rfl
  rw [hreplies] at hstdout hstderr
  refine ⟨hfeed, hreturn, hcommand, hstdout, hstderr.trans ?_⟩
  simp [Reply.numbered_ofOutcome, Outcome.error?]

end Session

end Linewise
