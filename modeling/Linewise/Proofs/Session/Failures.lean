/-
Lines that fail are as if they were absent.

* `Outcome.output_of_failure`, `session_of_failure` — a line that fails puts nothing
  out and leaves the session as it was;
* `Session.succeeded` — the lines of a run that do not fail, with their outcomes;
* `runCalls_succeeded` — these lines alone have the same outcomes, and leave the same
  session;
* `exec_without_failures` — what that means for the run of a text.
-/
import Linewise.Proofs.Session.Replay

namespace Linewise

namespace Outcome

/-- Whether the line of an outcome did not fail. -/
def succeeds (o : Outcome) : Bool := o.error?.isNone

theorem output_of_failure {o : Outcome} (h : o.succeeds = false) : o.output = [] := by
  cases o with
  | error e => rfl
  | _ => simp [succeeds, error?] at h

end Outcome

namespace Session

theorem session_of_failure {s : Session} {line : String}
    (h : (s.runLine line).outcome.succeeds = false) : (s.runLine line).session = s := by
  have hnone : (s.runLine line).outcome.assignment? = none := by
    cases houtcome : (s.runLine line).outcome with
    | error e => rfl
    | _ => simp [houtcome, Outcome.succeeds, Outcome.error?] at h
  rw [s.session_runLine line, Store.replay_singleton_of_none s.store hnone]

theorem length_outcomes_runLines (s : Session) (lines : List String) :
    (s.runLines lines).outcomes.length = lines.length := by
  induction lines generalizing s with
  | nil => rfl
  | cons line rest ih => exact congrArg Nat.succ (ih _)

/-- The lines of a run that do not fail, each with its outcome. -/
def succeeded (s : Session) (lines : List String) : List (String × Outcome) :=
  (lines.zip (s.runLines lines).outcomes).filter fun r => r.2.succeeds

section Cons

variable {s : Session} {line : String} (rest : List String)

theorem succeeded_cons_of_success (h : (s.runLine line).outcome.succeeds = true) :
    s.succeeded (line :: rest) =
      (line, (s.runLine line).outcome) :: (s.runLine line).session.succeeded rest := by
  simp only [succeeded, runLines, List.zip_cons_cons]
  exact List.filter_cons_of_pos h

/-- After a line that fails the others run in the session from before it. -/
theorem succeeded_cons_of_failure (h : (s.runLine line).outcome.succeeds = false) :
    s.succeeded (line :: rest) = s.succeeded rest := by
  simp only [succeeded, runLines, List.zip_cons_cons, session_of_failure h]
  exact List.filter_cons_of_neg (by simp [h])

end Cons

/-- The lines that do not fail have the same outcomes without the others, and leave the
same session. -/
theorem runCalls_succeeded (s : Session) (lines : List String) :
    s.runCalls ((s.succeeded lines).map fun r => .runLine r.1) =
      ((s.succeeded lines).map Prod.snd, (s.runLines lines).session) := by
  induction lines generalizing s with
  | nil => rfl
  | cons line rest ih =>
    have hsession : (s.runLines (line :: rest)).session =
        ((s.runLine line).session.runLines rest).session := rfl
    cases hline : (s.runLine line).outcome.succeeds with
    | true =>
      rw [succeeded_cons_of_success rest hline, List.map_cons, runCalls, Call.run, ih, hsession]
      rfl
    | false =>
      rw [succeeded_cons_of_failure rest hline, ih, hsession, session_of_failure hline]

theorem output_succeeded (s : Session) (lines : List String) :
    ((s.succeeded lines).map Prod.snd).flatMap Outcome.output =
      (s.runLines lines).outcomes.flatMap Outcome.output := by
  induction lines generalizing s with
  | nil => rfl
  | cons line rest ih =>
    have houtcomes : (s.runLines (line :: rest)).outcomes =
        (s.runLine line).outcome :: ((s.runLine line).session.runLines rest).outcomes := rfl
    cases hline : (s.runLine line).outcome.succeeds with
    | true =>
      rw [succeeded_cons_of_success rest hline, houtcomes, List.map_cons, List.flatMap_cons,
        List.flatMap_cons, ih]
    | false =>
      rw [succeeded_cons_of_failure rest hline, houtcomes, List.flatMap_cons,
        Outcome.output_of_failure hline, List.nil_append, session_of_failure hline, ih]

/-- The lines of a text that do not fail, run alone from the same session, have the
outcomes that they have in the run of the whole text: none of them fails, they put out
the same text and they leave the same session. -/
theorem exec_without_failures (s : Session) (source : String) :
    let lines := Text.lines source
    let run := s.exec source
    let succeeded := (lines.zip run.outcomes).filter fun r => r.2.succeeds
    let again := s.runCalls (succeeded.map fun r => .runLine r.1)
    run.outcomes.length = lines.length ∧
    again.1 = succeeded.map Prod.snd ∧
    (∀ o ∈ again.1, o.error? = none) ∧
    Text.unlines (again.1.flatMap Outcome.output) = run.stdout ∧
    again.2 = run.session := by
  intro lines run succeeded again
  have hagain : again = (succeeded.map Prod.snd, run.session) := s.runCalls_succeeded lines
  refine ⟨s.length_outcomes_runLines lines, ?_, ?_, ?_, ?_⟩
  · rw [hagain]
  · intro o ho
    rw [hagain] at ho
    obtain ⟨r, hr, rfl⟩ := List.mem_map.mp ho
    exact Option.isNone_iff_eq_none.mp (List.mem_filter.mp hr).2
  · rw [hagain]
    exact congrArg Text.unlines (s.output_succeeded lines)
  · rw [hagain]

end Session

end Linewise
