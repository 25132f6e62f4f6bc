/-
How lines are shown has no part in what they do.

* `Outcome.Unstated` — what can become of a line that is no statement that runs;
* `Outcome.Agrees` — two outcomes of a line that differ in what is shown of it, and in
  whether it may be an expression;
* `Session.Alike` — two sessions with the same limits and the same variables;
* `Alike.agrees_runLine`, `Alike.runLine` — the outcomes of a line in them agree, and they
  stay alike;
* `runLines_of_presentation` — so two fresh sessions with the same limits have the same
  variables after each line.

Design notes: a second attempt evaluates an expression, and an expression writes nothing.
It cannot take the place of a statement either, since a statement that is read and then
fails is not read as an expression.
-/
import Linewise.Proofs.Session.Phrase
import Linewise.Proofs.Session.Replay
import Mathlib.Data.List.Forall2

namespace Linewise

namespace Outcome

/-- What can become of a line that is neither blank nor a comment nor a statement that
runs: an error, and where lines may be expressions the value of one. -/
inductive Unstated (fallback : Bool) : Outcome → Prop
  | error (e : LineError) : Unstated fallback (.error e)
  | expression (h : fallback = true) (e : Expr) (value : Value) :
      Unstated fallback (.expression e value)

/-- Outcomes of one line under two settings: both are blank, or the same comment, or the
same statement with the same value and output, or neither is any of them. -/
inductive Agrees (one other : Settings) : Outcome → Outcome → Prop
  | blank : Agrees one other .blank .blank
  | comment (text : String) :
      Agrees one other (.comment text one.echoComments) (.comment text other.echoComments)
  | statement (s : Statement) (value : Option Value) (printed : List String) :
      Agrees one other (.statement s value printed) (.statement s value printed)
  | unstated {o o' : Outcome} (h : Unstated one.expressionFallback o)
      (h' : Unstated other.expressionFallback o') : Agrees one other o o'

theorem Unstated.assignment? {fallback : Bool} {o : Outcome} (h : Unstated fallback o) :
    o.assignment? = none := by
  cases h with
  | error e => rfl
  | expression h e value => rfl

/-- Outcomes that agree tell of the same write. -/
theorem Agrees.assignment? {one other : Settings} {o o' : Outcome} (h : Agrees one other o o') :
    o.assignment? = o'.assignment? := by
  cases h with
  | blank => rfl
  | comment text => rfl
  | statement s value printed => rfl
  | unstated h h' => rw [h.assignment?, h'.assignment?]

end Outcome

namespace Session

/-- A line that is read, but not as a statement, is an expression or an error. -/
theorem unstated_of_reads {s : Session} {line : String} (h : s.Reads line) {first : LineError}
    (hread : Statement.ofLine s.settings.limits.maxNestingDepth line = .error first) :
    Outcome.Unstated s.settings.expressionFallback (s.runLine line).outcome := by
  rw [outcome_of_reads h]
  cases hfallback : s.settings.expressionFallback with
  | false =>
    rw [phrase_of_refused hfallback hread]
    exact .error first
  | true =>
    rw [phrase_of_fallback hfallback, Phrase.ofLine, hread]
    cases Expr.ofLine s.settings.limits.maxNestingDepth line with
    | error second => exact .error _
    | ok e =>
      simp only [Phrase.outcome]
      cases e.eval s.store with
      | ok value => exact .expression rfl e value
      | error error => exact .error _

theorem settings_runLine (s : Session) (line : String) :
    (s.runLine line).session.settings = s.settings := by
  rw [s.session_runLine line]

/-- Two sessions with the same limits and the same variables. -/
structure Alike (one other : Session) : Prop where
  limits : one.settings.limits = other.settings.limits
  store : one.store = other.store

namespace Alike

variable {one other : Session}

theorem fits_iff (h : one.Alike other) (line : String) : one.Fits line ↔ other.Fits line := by
  rw [Fits, Fits, h.limits]

/-- The outcomes of a line in sessions that are alike agree. -/
theorem agrees_runLine (h : one.Alike other) (line : String) :
    Outcome.Agrees one.settings other.settings (one.runLine line).outcome
      (other.runLine line).outcome := by
  rcases one.line_cases line with hblank | ⟨text, hcomment⟩ | ⟨hblank, hcomment, hfits⟩ | hreads
  · rw [runLine_of_blank hblank, runLine_of_blank hblank]
    exact .blank
  · rw [runLine_of_comment hcomment, runLine_of_comment hcomment]
    exact .comment _
  · have hfits' : ¬ other.Fits line := fun hfits' => hfits ((h.fits_iff line).mpr hfits')
    rw [runLine_of_not_fits hblank hcomment hfits, runLine_of_not_fits hblank hcomment hfits']
    exact .unstated (.error _) (.error _)
  · have hreads' : other.Reads line :=
      ⟨hreads.notBlank, hreads.notComment, (h.fits_iff line).mp hreads.fits⟩
    cases hread : Statement.ofLine one.settings.limits.maxNestingDepth line with
    | error first =>
      have hread' : Statement.ofLine other.settings.limits.maxNestingDepth line = .error first :=
        h.limits ▸ hread
      exact .unstated (unstated_of_reads hreads hread) (unstated_of_reads hreads' hread')
    | ok statement =>
      have hread' : Statement.ofLine other.settings.limits.maxNestingDepth line = .ok statement :=
        h.limits ▸ hread
      rw [outcome_of_reads hreads, outcome_of_reads hreads', phrase_of_statement hread,
        phrase_of_statement hread', ← h.store]
      simp only [Phrase.outcome]
      -- One statement over the same variables: it runs in both sessions, or fails in both.
      cases statement.run one.store with
      | ok effect => exact .statement _ _ _
      | error error => exact .unstated (.error _) (.error _)

/-- Sessions that are alike stay so. -/
theorem runLine (h : one.Alike other) (line : String) :
    (one.runLine line).session.Alike (other.runLine line).session := by
  have hwrite := (h.agrees_runLine line).assignment?
  refine ⟨?_, ?_⟩
  · rw [one.session_runLine line, other.session_runLine line]
    exact h.limits
  · rw [store_runLine, store_runLine, h.store, Store.replay, Store.replay]
    simp only [List.filterMap_cons, hwrite]

/-- The outcomes of lines in sessions that are alike agree, and they stay alike. -/
theorem runLines (h : one.Alike other) (lines : List String) :
    (one.runLines lines).session.Alike (other.runLines lines).session ∧
      List.Forall₂ (Outcome.Agrees one.settings other.settings) (one.runLines lines).outcomes
        (other.runLines lines).outcomes := by
  induction lines generalizing one other with
  | nil => exact ⟨h, .nil⟩
  | cons line rest ih =>
    obtain ⟨halike, hagree⟩ := ih (h.runLine line)
    rw [settings_runLine, settings_runLine] at hagree
    exact ⟨halike, .cons (h.agrees_runLine line) hagree⟩

end Alike

/-- Two fresh sessions with the same limits have the same variables after each of any
lines, whether they echo comments or not and whether they try lines as expressions or not.
A line is blank in one of them if it is in the other, and so for a comment and a
statement: comments differ in being echoed at most, statements are the same with the same
values and output, and every other line fails, or is an expression where it may be one. -/
theorem runLines_of_presentation (limits : Limits) (echo echo' fallback fallback' : Bool)
    (lines : List String) :
    let one := fresh ⟨limits, echo, fallback⟩
    let other := fresh ⟨limits, echo', fallback'⟩
    (∀ k, (one.runLines (lines.take k)).session.store.entries =
      (other.runLines (lines.take k)).session.store.entries) ∧
    List.Forall₂ (Outcome.Agrees one.settings other.settings) (one.runLines lines).outcomes
      (other.runLines lines).outcomes := by
  intro one other
  have halike : one.Alike other := ⟨rfl, rfl⟩
  exact ⟨fun k => congrArg Store.entries (halike.runLines (lines.take k)).1.store,
    (halike.runLines lines).2⟩

end Session

end Linewise
