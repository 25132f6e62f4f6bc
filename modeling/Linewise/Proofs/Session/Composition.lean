/-
The run of a text is the run of its parts.

* `Outcome.failures` — the errors of some outcomes with the numbers of their lines, and
  `failures_append`, `failures_add` for outcomes after others;
* `Execution.failures` — those of a text, and `stderr_eq` how they are put out;
* `exitCode_append` — a run fails if one of its parts does;
* `exec_append` — a text after a line feed runs in the session that the text before it
  leaves, and its lines are numbered on.
-/
import Linewise.Proofs.Session.Failures
import Linewise.Proofs.Text.Lines

namespace Linewise

namespace Outcome

/-- The errors of outcomes whose lines are numbered from `first`, with their numbers. -/
def failures (outcomes : List Outcome) (first : Nat) : List (Nat × LineError) :=
  (outcomes.zipIdx first).filterMap fun (o, number) => o.error?.map (number, ·)

theorem failures_append (xs ys : List Outcome) (first : Nat) :
    failures (xs ++ ys) first = failures xs first ++ failures ys (first + xs.length) := by
  rw [failures, List.zipIdx_append, List.filterMap_append]
  rfl

theorem failures_cons (o : Outcome) (rest : List Outcome) (first : Nat) :
    failures (o :: rest) first =
      (o.error?.map (first, ·)).toList ++ failures rest (first + 1) := by
  cases ho : o.error? <;> simp [failures, ho]

/-- Numbering from further on moves every number. -/
theorem failures_add (xs : List Outcome) (first offset : Nat) :
    failures xs (first + offset) = (failures xs first).map fun f => (f.1 + offset, f.2) := by
  induction xs generalizing first with
  | nil => rfl
  | cons o rest ih =>
    rw [failures_cons, failures_cons, List.map_append, ← ih, Nat.add_right_comm]
    cases o.error? <;> rfl

theorem exitCode_eq_one_iff {outcomes : List Outcome} :
    exitCode outcomes = 1 ↔ outcomes.any fun o => o.error?.isSome := by
  rw [exitCode]
  split <;> simp_all

theorem exitCode_append (xs ys : List Outcome) :
    exitCode (xs ++ ys) = 1 ↔ exitCode xs = 1 ∨ exitCode ys = 1 := by
  rw [exitCode_eq_one_iff, exitCode_eq_one_iff, exitCode_eq_one_iff, List.any_append,
    Bool.or_eq_true]

end Outcome

namespace Execution

/-- The errors of the lines that failed, with the numbers of the lines from one. -/
def failures (x : Execution) : List (Nat × LineError) := Outcome.failures x.outcomes 1

theorem stderr_eq (x : Execution) :
    x.stderr = Text.unlines (x.failures.map fun f => complaint f.1 f.2) := by
  simp only [stderr, failures, Outcome.failures, List.map_filterMap, Option.map_map]
  rfl

end Execution

/-- A text that does not end with a carriage return, a line feed and another text run as
the two texts do, one after the other: they leave the same session and have the same
outcomes and output, the exit code is one if one of theirs is, and the messages are those
of both, where the number of a line of the second text is greater by the number of lines
of the first one. -/
theorem Session.exec_append (s : Session) {a : String} (b : String)
    (h : a.toList.getLast? ≠ some '\r') :
    let whole := s.exec (a ++ "\n" ++ b)
    let first := s.exec a
    let second := first.session.exec b
    whole.session = second.session ∧
    whole.outcomes = first.outcomes ++ second.outcomes ∧
    whole.stdout = first.stdout ++ second.stdout ∧
    (whole.exitCode = 1 ↔ first.exitCode = 1 ∨ second.exitCode = 1) ∧
    second.stderr =
      Text.unlines (second.failures.map fun f => Execution.complaint f.1 f.2) ∧
    whole.stderr = first.stderr ++ Text.unlines (second.failures.map fun f =>
      Execution.complaint (f.1 + (Text.lines a).length) f.2) := by
  intro whole first second
  have hwhole : s.runLines (Text.lines (a ++ "\n" ++ b)) =
      s.runLines (Text.lines a ++ Text.lines b) := by rw [Text.lines_append b h]
  have hsession : whole.session = second.session := by
    change (s.runLines _).session = _
    rw [hwhole, runLines_append]
    rfl
  have houtcomes : whole.outcomes = first.outcomes ++ second.outcomes := by
    change (s.runLines _).outcomes = _
    rw [hwhole, runLines_append]
    rfl
  have hlength : first.outcomes.length = (Text.lines a).length :=
    s.length_outcomes_runLines (Text.lines a)
  have hfailures : whole.failures = first.failures ++
      second.failures.map fun f => (f.1 + (Text.lines a).length, f.2) := by
    rw [Execution.failures, houtcomes, Outcome.failures_append, hlength, Outcome.failures_add]
    rfl
  refine ⟨hsession, houtcomes, ?_, ?_, second.stderr_eq, ?_⟩
  · rw [Execution.stdout, houtcomes, List.flatMap_append, Text.unlines_append]
    rfl
  · rw [Execution.exitCode, houtcomes]
    exact Outcome.exitCode_append _ _
  · rw [whole.stderr_eq, hfailures, List.map_append, Text.unlines_append, ← first.stderr_eq,
      List.map_map]
    rfl

/-- The line that is too long is the first one of its own text and the third one of both. -/
theorem Session.exec_append_tooLong :
    let s := Session.fresh { limits := ⟨3, 1⟩ }
    "\n// a".toList.getLast? ≠ some '\r' ∧
      (s.exec "abcd").stderr = Text.unlines [Execution.complaint 1 (.tooLong 3)] ∧
      (s.exec ("\n// a" ++ "\n" ++ "abcd")).stderr =
        Text.unlines [Execution.complaint 3 (.tooLong 3)] ∧
      (s.exec ("\n// a" ++ "\n" ++ "abcd")).exitCode = 1 := by
  intro s
  have hlast : "\n// a".toList.getLast? ≠ some '\r' := by decide
  obtain ⟨-, -, -, hexit, -, hstderr⟩ := s.exec_append "abcd" hlast
  have hfirst : (s.exec "\n// a").stderr = "" := rfl
  have hsession : (s.exec "\n// a").session = s := rfl
  have hsecond : (s.exec "abcd").failures = [(1, .tooLong 3)] := rfl
  have hlines : (Text.lines "\n// a").length = 2 := by decide
  rw [hsession, hsecond, hfirst, hlines] at hstderr
  rw [hsession] at hexit
  exact ⟨hlast, rfl, hstderr, hexit.mpr (Or.inr rfl)⟩

end Linewise
