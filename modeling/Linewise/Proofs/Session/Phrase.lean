/-
What becomes of a line, by the phrase that it is read as.

* `Session.phrase` — the phrase that a session reads a line as, or why it cannot;
* `Phrase.outcome` — what becomes of a phrase over the variables of a store;
* `outcome_of_reads` — the outcome of a line that is read is that of its phrase;
* `line_cases` — every other line is blank, a comment or too long.

Design notes: the two attempts at a line take turns in reading and evaluating.  Since no
line is both a statement and an expression, the same comes of reading it first, by the one
attempt or the other, and evaluating once what was read.
-/
import Linewise.Shell
import Linewise.Proofs.Session.Limits
import Linewise.Proofs.Session.Routes

namespace Linewise

open Text

/-- What becomes of a phrase over the variables of a store. -/
def Phrase.outcome (store : Store) : Phrase → Outcome
  | statement s =>
    match s.run store with
    | .ok effect => .statement s effect.value effect.printed
    | .error error => .error (.eval error)
  | expression e =>
    match e.eval store with
    | .ok value => .expression e value
    | .error error => .error (.eval error)

namespace Session

/-- The phrase that a session reads a line as: a statement, or else an expression if the
session makes a second attempt. -/
def phrase (s : Session) (line : String) : Except LineError Phrase :=
  if s.settings.expressionFallback then Phrase.ofLine s.settings.limits.maxNestingDepth line
  else (Statement.ofLine s.settings.limits.maxNestingDepth line).map .statement

variable {s : Session} {line : String}

theorem phrase_of_fallback (hfallback : s.settings.expressionFallback = true) (line : String) :
    s.phrase line = Phrase.ofLine s.settings.limits.maxNestingDepth line := by
  rw [phrase, if_pos hfallback]

theorem phrase_of_statement {statement : Statement}
    (h : Statement.ofLine s.settings.limits.maxNestingDepth line = .ok statement) :
    s.phrase line = .ok (.statement statement) := by
  rw [phrase, Phrase.ofLine, h]
  split <;> rfl

theorem phrase_of_refused (hfallback : s.settings.expressionFallback = false) {first : LineError}
    (h : Statement.ofLine s.settings.limits.maxNestingDepth line = .error first) :
    s.phrase line = .error first := by
  rw [phrase, if_neg (by simp [hfallback]), h]
  rfl

/-- What a session reads a line as is what the line spells, also without the second attempt. -/
theorem ofLine_of_phrase {p : Phrase} (h : s.phrase line = .ok p) :
    Phrase.ofLine s.settings.limits.maxNestingDepth line = .ok p := by
  cases hfallback : s.settings.expressionFallback with
  | true => rwa [phrase_of_fallback hfallback] at h
  | false =>
    cases hread : Statement.ofLine s.settings.limits.maxNestingDepth line with
    | error first => exact absurd ((phrase_of_refused hfallback hread).symm.trans h) (by simp)
    | ok statement =>
      rw [phrase_of_statement hread] at h
      rw [Phrase.ofLine, hread]
      exact h

/-- The outcome of a line that is read is that of the phrase that it is read as. -/
theorem outcome_of_reads (h : s.Reads line) :
    (s.runLine line).outcome =
      match s.phrase line with
      | .ok p => p.outcome s.store
      | .error error => .error error := by
  cases hread : Statement.ofLine s.settings.limits.maxNestingDepth line with
  | ok statement =>
    rw [phrase_of_statement hread]
    simp only [Phrase.outcome]
    cases hrun : statement.run s.store with
    | ok effect => rw [runLine_of_statement h (tryStatement_of_run hread hrun)]
    | error error =>
      have htry := tryStatement_of_run_error hread hrun
      cases hfallback : s.settings.expressionFallback with
      | true => exact ((runLine_of_statement_accepted hfallback h.fits hread).2 error hrun).1
      | false =>
        have hdecided := runLine_of_decided h (Or.inl hfallback)
        rw [htry] at hdecided
        exact (Prod.mk.inj hdecided).1
  | error first =>
    have htry := tryStatement_of_reading hread
    cases hfallback : s.settings.expressionFallback with
    | false =>
      have hdecided := runLine_of_decided h (Or.inl hfallback)
      rw [htry] at hdecided
      rw [phrase_of_refused hfallback hread]
      exact (Prod.mk.inj hdecided).1
    | true =>
      rw [phrase_of_fallback hfallback, Phrase.ofLine, hread]
      cases hexpr : Expr.ofLine s.settings.limits.maxNestingDepth line with
      | ok e => exact (runLine_of_expression_accepted hfallback h.fits hexpr).2
      | error second =>
        exact (runLine_of_errors hfallback h htry (tryExpression_of_reading hexpr)).1

/-- A line is blank, a comment or too long, or it is read. -/
theorem line_cases (s : Session) (line : String) :
    dropBlankStart line.toList = [] ∨
    (∃ text, dropBlankStart line.toList = '/' :: '/' :: text) ∨
    (dropBlankStart line.toList ≠ [] ∧
      (∀ text, dropBlankStart line.toList ≠ '/' :: '/' :: text) ∧ ¬ s.Fits line) ∨
    s.Reads line := by
  by_cases hblank : dropBlankStart line.toList = []
  · exact Or.inl hblank
  · by_cases hcomment : ∃ text, dropBlankStart line.toList = '/' :: '/' :: text
    · exact Or.inr (Or.inl hcomment)
    · have hcomment := not_exists.mp hcomment
      by_cases hfits : s.Fits line
      · exact Or.inr (Or.inr (Or.inr ⟨hblank, hcomment, hfits⟩))
      · exact Or.inr (Or.inr (Or.inl ⟨hblank, hcomment, hfits⟩))

end Session

end Linewise
