/-
The tree that the shell shows of a line is the one that its run evaluates.

* `ShellInput.ofString_tree` — a line after `:ast` and one space is the argument of that
  command;
* `Phrase.outcome_eq_…`, `Phrase.run_of_outcome` — what the outcome of a phrase tells of it;
* `tree_foretells_runLine` — so the command complains exactly about the lines that cannot
  be read, with the error of their run, and shows the tree of every other one.

Design notes: the command reads a line and evaluates nothing, while a run reads and
evaluates in turn.  What both have in common is the phrase that the line is read as.
-/
import Linewise.Proofs.Session.Phrase
import Linewise.Proofs.Text.Blank

namespace Linewise

open Text

/-- The line is the argument of the command as it is, if no blank ends it. -/
theorem ShellInput.ofString_tree {line : String} (hne : line.toList ≠ [])
    (hend : ∀ c ∈ line.toList.getLast?, isBlank c = false) :
    ofString (":ast " ++ line) = .tree line := by
  have htext : (":ast " ++ line).toList = ':' :: 'a' :: 's' :: 't' :: ' ' :: line.toList := by
    simp
  have htrim : (trim (":ast " ++ line)).toList = (":ast " ++ line).toList := by
    have hstart : dropBlankStart (":ast " ++ line).toList = (":ast " ++ line).toList := by
      rw [htext]
      rfl
    rw [trim, String.toList_ofList, hstart]
    obtain ⟨last, hlast⟩ : ∃ last, line.toList.getLast? = some last :=
      ⟨_, List.getLast?_eq_some_getLast hne⟩
    refine dropBlankEnd_of_getLast? ?_
    rwa [String.toList_append, List.getLast?_append, hlast, Option.some_or, ← hlast]
  rw [ofString, htrim, htext]
  simp

namespace Phrase

variable {store : Store} {p : Phrase}

theorem eq_statement_of_outcome {s : Statement} {value : Option Value} {printed : List String}
    (h : p.outcome store = .statement s value printed) : p = .statement s := by
  cases p with
  | statement s' =>
    simp only [outcome] at h
    split at h
    · rw [(Outcome.statement.inj h).1]
    · exact absurd h (by simp)
  | expression e =>
    simp only [outcome] at h
    split at h <;> exact absurd h (by simp)

theorem eq_expression_of_outcome {e : Expr} {value : Value}
    (h : p.outcome store = .expression e value) : p = .expression e := by
  cases p with
  | statement s =>
    simp only [outcome] at h
    split at h <;> exact absurd h (by simp)
  | expression e' =>
    simp only [outcome] at h
    split at h
    · rw [(Outcome.expression.inj h).1]
    · exact absurd h (by simp)

/-- A phrase fails in evaluation only, and its run tells how. -/
theorem run_of_outcome {error : LineError} (h : p.outcome store = .error error) :
    ∃ e, error = .eval e ∧ p.run store = .error e := by
  cases p with
  | statement s =>
    simp only [outcome] at h
    split at h
    · exact absurd h (by simp)
    · next e hrun => exact ⟨e, (Outcome.error.inj h).symm, hrun⟩
  | expression e =>
    simp only [outcome] at h
    split at h
    · exact absurd h (by simp)
    · next error heval =>
      refine ⟨error, (Outcome.error.inj h).symm, ?_⟩
      rw [run, heval]
      rfl

/-- A line that spells no phrase fails at a column, so not in evaluation. -/
theorem stage_of_ofLine {limit : Int} {line : String} {error : LineError}
    (h : ofLine limit line = .error error) :
    error.report.stage = .lex ∨ error.report.stage = .parse := by
  have hcolumn : ∃ column, error.report.column = some column := by
    unfold ofLine at h
    split at h
    · exact absurd h (by simp)
    · next first hfirst =>
      obtain ⟨column, hfirst, -⟩ := Statement.column_le_of_ofLine hfirst
      split at h
      · exact absurd h (by simp)
      · next second hsecond =>
        obtain ⟨column', hsecond, -⟩ := Expr.column_le_of_ofLine hsecond
        obtain rfl := Except.error.inj h
        rw [LineError.furthest]
        split
        · exact ⟨column', hsecond⟩
        · exact ⟨column, hfirst⟩
  obtain ⟨column, hcolumn⟩ := hcolumn
  cases error with
  | lex e => exact Or.inl rfl
  | parse e => exact Or.inr rfl
  | eval e => exact absurd hcolumn (by simp [LineError.report])
  | tooLong limit => exact Or.inr rfl

end Phrase

namespace Session

variable {s : Session} {line : String}

/-- The reply to the command is about the phrase that the line spells. -/
theorem reply_tree (h : s.Reads line) (hend : ∀ c ∈ line.toList.getLast?, isBlank c = false) :
    (s.handle (":ast " ++ line)).reply =
      match Phrase.ofLine s.settings.limits.maxNestingDepth line with
      | .ok p => ⟨p.form ++ "\n", "", false⟩
      | .error e => ⟨"", e.report.format ++ "\n", false⟩ := by
  have hne : line.toList ≠ [] := by
    intro hnil
    exact h.notBlank (by rw [hnil]; rfl)
  rw [handle, ShellInput.ofString_tree hne hend]
  simp only [Reply.ofTree]
  cases Phrase.ofLine s.settings.limits.maxNestingDepth line with
  | ok p => simp [Reply.lines, unlines, String.join_cons]
  | error e => simp [Reply.complaint, unlines, String.join_cons]

/-- Where a second attempt is made, the command for the tree of a line that ends with no
blank foretells the run of that line, if it is one that is read.  The command complains just
if the line fails before it is evaluated, with the message of that error.  Otherwise it shows
the tree of the outcome, or, where the evaluation fails, a tree that fails in this way. -/
theorem tree_foretells_runLine (hfallback : s.settings.expressionFallback = true)
    (h : s.Reads line) (hend : ∀ c ∈ line.toList.getLast?, isBlank c = false) :
    let shown := (s.handle (":ast " ++ line)).reply
    let outcome := (s.runLine line).outcome
    (shown.stderr ≠ "" ↔ ∃ e, outcome = .error e ∧
      (e.report.stage = .lex ∨ e.report.stage = .parse)) ∧
    (∀ e, outcome = .error e → (e.report.stage = .lex ∨ e.report.stage = .parse) →
      shown = ⟨"", e.report.format ++ "\n", false⟩) ∧
    (∀ statement value printed, outcome = .statement statement value printed →
      shown = ⟨statement.form ++ "\n", "", false⟩) ∧
    (∀ e value, outcome = .expression e value → shown = ⟨e.form ++ "\n", "", false⟩) ∧
    (∀ error, outcome = .error (.eval error) →
      ∃ p : Phrase, shown = ⟨p.form ++ "\n", "", false⟩ ∧ p.run s.store = .error error) := by
  intro shown outcome
  have hshown : shown = _ := reply_tree h hend
  have houtcome : outcome = _ := outcome_of_reads h
  rw [phrase_of_fallback hfallback] at houtcome
  cases hread : Phrase.ofLine s.settings.limits.maxNestingDepth line with
  | error error =>
    rw [hread] at hshown houtcome
    have hstage := Phrase.stage_of_ofLine hread
    refine ⟨⟨fun _ => ⟨error, houtcome, hstage⟩, fun _ => ?_⟩, fun e he _ => ?_, ?_, ?_, ?_⟩
    · simp [hshown]
    · obtain rfl := Outcome.error.inj (houtcome.symm.trans he)
      exact hshown
    · exact fun statement value printed ho => absurd (houtcome.symm.trans ho) (by simp)
    · exact fun e value ho => absurd (houtcome.symm.trans ho) (by simp)
    · intro e he
      obtain rfl := Outcome.error.inj (houtcome.symm.trans he)
      exact absurd hstage (by simp [LineError.report])
  | ok p =>
    rw [hread] at hshown houtcome
    -- A phrase that was read fails in evaluation or not at all.
    have hstage : ∀ e, outcome = .error e →
        ¬ (e.report.stage = .lex ∨ e.report.stage = .parse) := by
      intro e he
      obtain ⟨error, rfl, -⟩ := Phrase.run_of_outcome (houtcome.symm.trans he)
      simp [LineError.report]
    refine ⟨⟨fun hne => ?_, ?_⟩, fun e he hread => absurd hread (hstage e he), ?_, ?_, ?_⟩
    · exact absurd (congrArg Reply.stderr hshown) hne
    · rintro ⟨e, he, hread⟩
      exact absurd hread (hstage e he)
    · intro statement value printed ho
      obtain rfl := Phrase.eq_statement_of_outcome (houtcome.symm.trans ho)
      exact hshown
    · intro e value ho
      obtain rfl := Phrase.eq_expression_of_outcome (houtcome.symm.trans ho)
      exact hshown
    · intro error he
      obtain ⟨e, heval, hrun⟩ := Phrase.run_of_outcome (houtcome.symm.trans he)
      obtain rfl := LineError.eval.inj heval
      exact ⟨p, hshown, hrun⟩

/-- Both attempts refuse the equality at its sign, and the shell shows the error of the
first one, as the run does. -/
theorem tree_foretells_runLine_equality :
    let s := Session.fresh { limits := ⟨100, 1⟩ }
    let error : LineError := .parse ⟨.missingAssignment "a" .equal, 2⟩
    s.settings.expressionFallback = true ∧ s.Reads "a == b" ∧
      (∀ c ∈ "a == b".toList.getLast?, isBlank c = false) ∧
      (s.runLine "a == b").outcome = .error error ∧
      (s.handle (":ast " ++ "a == b")).reply = ⟨"", error.report.format ++ "\n", false⟩ := by
  intro s error
  have hwellFormed : ∀ k ∈ [Kind.name "a", .equal, .name "b"], k.WellFormed := by
    simp only [List.forall_mem_cons]
    exact ⟨Kind.wellFormed_letter rfl rfl rfl, trivial, Kind.wellFormed_letter rfl rfl rfl, by simp⟩
  have hspelled : String.ofList (spelled [.name "a", .equal, .name "b"]) = "a == b" := rfl
  have hline := lineWord_spelled hwellFormed
  have hstream := TokenStream.ofString_spelled hwellFormed
  rw [hspelled] at hline hstream
  have hreads : s.Reads "a == b" := Reads.of_lineWord hline (by simp) (by decide)
  have hphrase : s.phrase "a == b" = .error error := by
    rw [phrase_of_fallback rfl, Phrase.ofLine, Statement.ofLine, Expr.ofLine, Reader.ofString,
      hstream]
    rfl
  have houtcome : (s.runLine "a == b").outcome = .error error := by
    rw [outcome_of_reads hreads, hphrase]
  have hend : ∀ c ∈ "a == b".toList.getLast?, isBlank c = false := by
    intro c hc
    obtain rfl := Option.some.inj (hc : some 'b' = some c)
    rfl
  obtain ⟨-, hcomplains, -⟩ := tree_foretells_runLine (s := s) rfl hreads hend
  exact ⟨rfl, hreads, hend, houtcome, hcomplains error houtcome (Or.inr rfl)⟩

end Session

end Linewise
