/-
The two attempts at a line, foretold by its first two tokens.

* `Session.evaluated` — the phrases that the attempts at a line evaluate;
* `length_evaluated_le_one` — there is at most one of them;
* `runLine_of_startsStatement` — where a statement starts, the first attempt decides;
* `runLine_of_not_startsStatement` — elsewhere the second one does, but for two errors
  at one column;
* `runLine_dispatches` — both, as one statement about every line that is read.
-/
import Linewise.Proofs.Reading.Dispatch
import Linewise.Proofs.Session.Attempts
import Linewise.Proofs.Token.Spelling

namespace Linewise

namespace Session

/-- The phrases that the attempts at a line evaluate, in turn: each attempt evaluates
what it reads, and the second one is made if the first one fails. -/
def evaluated (s : Session) (line : String) : List Phrase :=
  let limit := s.settings.limits.maxNestingDepth
  let statement := ((Statement.ofLine limit line).toOption.map Phrase.statement).toList
  let expression := ((Expr.ofLine limit line).toOption.map Phrase.expression).toList
  match s.tryStatement line with
  | .ok _ => statement
  | .error _ => if s.settings.expressionFallback then statement ++ expression else statement

theorem length_evaluated_le_one (s : Session) (line : String) :
    (s.evaluated line).length ≤ 1 := by
  have hle : ∀ o : Option Phrase, o.toList.length ≤ 1 := by
    intro o
    cases o <;> simp
  simp only [evaluated]
  split
  · exact hle _
  · split
    · cases hstatement : Statement.ofLine s.settings.limits.maxNestingDepth line with
      | error error => exact hle _
      | ok statement =>
        cases hexpression : Expr.ofLine s.settings.limits.maxNestingDepth line with
        | error error => simp [Except.toOption]
        | ok e => exact absurd hexpression (not_ofLine_both hstatement e)
    · exact hle _

variable {s : Session} {line : String}

/-- An attempt at a statement fails by an evaluation error, or where the line is
decided or after it. -/
theorem tryStatement_eq_error {first : LineError} (h : s.tryStatement line = .error first) :
    (∃ error, first = .eval error) ∨ ∃ column, first.report.column = some column ∧
      (TokenStream.ofString line).afterName.column ≤ column := by
  cases hread : Statement.ofLine s.settings.limits.maxNestingDepth line with
  | error error =>
    obtain rfl := Except.error.inj ((tryStatement_of_reading hread).symm.trans h)
    exact Or.inr (Statement.column_le_of_ofLine hread)
  | ok statement =>
    cases hrun : statement.run s.store with
    | error error =>
      obtain rfl := Except.error.inj ((tryStatement_of_run_error hread hrun).symm.trans h)
      exact Or.inl ⟨error, rfl⟩
    | ok effect => exact absurd ((tryStatement_of_run hread hrun).symm.trans h) (by simp)

theorem runLine_of_startsStatement (hfallback : s.settings.expressionFallback = true)
    (h : s.Reads line) (hstarts : (TokenStream.ofString line).startsStatement = true) :
    (s.runLine line).outcome = (s.withoutFallback.runLine line).outcome ∧
      (s.runLine line).session.store = (s.withoutFallback.runLine line).session.store ∧
      (s.runLine line).outcome =
        match s.tryStatement line with
        | .ok (statement, effect) => .statement statement effect.value effect.printed
        | .error first => .error first := by
  have hreads : s.withoutFallback.Reads line := ⟨h.notBlank, h.notComment, h.fits⟩
  cases htry : s.tryStatement line with
  | ok made =>
    obtain ⟨statement, effect⟩ := made
    have htry' : s.withoutFallback.tryStatement line = .ok (statement, effect) := htry
    rw [runLine_of_statement h htry, runLine_of_statement hreads htry']
    exact ⟨rfl, rfl, rfl⟩
  | error first =>
    obtain ⟨second, hsecond, hcolumn⟩ :=
      Expr.ofLine_eq_error_of_startsStatement s.settings.limits.maxNestingDepth hstarts
    have hfurthest : first.furthest second = first := by
      obtain ⟨error, rfl⟩ | ⟨column, hfirst, hle⟩ := tryStatement_eq_error htry
      · exact LineError.furthest_eval_left error second
      · rw [LineError.furthest_of_columns hfirst hcolumn, if_neg (Nat.not_lt.mpr hle)]
    obtain ⟨houtcome, hsession⟩ :=
      runLine_of_errors hfallback h htry (tryExpression_of_reading hsecond)
    obtain ⟨houtcome', hsession'⟩ := runLine_withoutFallback h htry
    rw [houtcome, houtcome', hsession, hsession', hfurthest]
    exact ⟨rfl, rfl, rfl⟩

theorem runLine_of_not_startsStatement (hfallback : s.settings.expressionFallback = true)
    (h : s.Reads line) (hstarts : (TokenStream.ofString line).startsStatement = false) :
    ∃ first, Statement.ofLine s.settings.limits.maxNestingDepth line = .error first ∧
      (s.runLine line).session = s ∧
      (s.runLine line).outcome =
        match Expr.ofLine s.settings.limits.maxNestingDepth line with
        | .ok e =>
          match e.eval s.store with
          | .ok value => .expression e value
          | .error error => .error (.eval error)
        | .error second =>
          .error (if first.report.column = second.report.column then first else second) := by
  obtain ⟨first, hrefused, hcolumn⟩ :=
    Statement.ofLine_eq_error_of_not_startsStatement hstarts
  have hfirst := hrefused s.settings.limits.maxNestingDepth
  have htry := tryStatement_of_reading hfirst
  refine ⟨first, hfirst, ?_⟩
  cases hread : Expr.ofLine s.settings.limits.maxNestingDepth line with
  | ok e => exact runLine_of_expression_read hfallback h htry hcolumn hread
  | error second =>
    obtain ⟨houtcome, hsession⟩ :=
      runLine_of_errors hfallback h htry (tryExpression_of_reading hread)
    obtain ⟨column, hsecond, hle⟩ := Expr.column_le_of_ofLine hread
    refine ⟨hsession, ?_⟩
    rw [houtcome, LineError.furthest_of_columns hcolumn hsecond]
    simp only [hcolumn, hsecond, Option.some.injEq]
    -- The second error is not before the first one, so it is further on or at its column.
    rcases Nat.eq_or_lt_of_le hle with heq | hlt
    · rw [if_neg (Nat.not_lt.mpr (Nat.le_of_eq heq.symm)), if_pos heq]
    · rw [if_pos hlt, if_neg (Nat.ne_of_lt hlt)]

end Session

/-- The first two tokens of a line that is read decide its run.  Where a statement
starts, the run is that of the first attempt alone.  Elsewhere this attempt does not read
the line, and the line is what the second attempt makes of it; of two lines that cannot
be read the first error is reported only if both are at one column.  No line is read
by both attempts, so none is evaluated twice. -/
theorem Session.runLine_dispatches {s : Session} {line : String}
    (hfallback : s.settings.expressionFallback = true) (hreads : s.Reads line) :
    ((TokenStream.ofString line).startsStatement = true →
      (s.runLine line).outcome = (s.withoutFallback.runLine line).outcome ∧
        (s.runLine line).session.store = (s.withoutFallback.runLine line).session.store ∧
        (s.runLine line).outcome =
          match s.tryStatement line with
          | .ok (statement, effect) => .statement statement effect.value effect.printed
          | .error first => .error first) ∧
    ((TokenStream.ofString line).startsStatement = false →
      ∃ first, Statement.ofLine s.settings.limits.maxNestingDepth line = .error first ∧
        (s.runLine line).session = s ∧
        (s.runLine line).outcome =
          match Expr.ofLine s.settings.limits.maxNestingDepth line with
          | .ok e =>
            match e.eval s.store with
            | .ok value => .expression e value
            | .error error => .error (.eval error)
          | .error second =>
            .error (if first.report.column = second.report.column then first else second)) ∧
    (∀ (limit limit' : Int) (text : String) (statement : Statement) (e : Expr),
      Statement.ofLine limit text = .ok statement → Expr.ofLine limit' text ≠ .ok e) ∧
    (∀ (s : Session) (text : String), (s.evaluated text).length ≤ 1) :=
  ⟨runLine_of_startsStatement hfallback hreads, runLine_of_not_startsStatement hfallback hreads,
    fun _ _ _ _ e h => not_ofLine_both h e, length_evaluated_le_one⟩

/-- With one level of nesting both attempts refuse an equality at its sign: the first
misses an assignment there, and the second has no level left for the right side. -/
theorem Session.runLine_dispatches_equality :
    let s := Session.fresh { limits := ⟨100, 1⟩ }
    s.settings.expressionFallback = true ∧ s.Reads "a == b" ∧
      Expr.ofLine 1 "a == b" = .error (.parse ⟨.nestingTooDeep 1, 2⟩) ∧
      (s.runLine "a == b").outcome = .error (.parse ⟨.missingAssignment "a" .equal, 2⟩) := by
  intro s
  have hwellFormed : ∀ k ∈ [Kind.name "a", .equal, .name "b"], k.WellFormed := by
    simp only [List.forall_mem_cons]
    exact ⟨Kind.wellFormed_letter rfl rfl rfl, trivial, Kind.wellFormed_letter rfl rfl rfl, by simp⟩
  have hspelled : String.ofList (spelled [.name "a", .equal, .name "b"]) = "a == b" := rfl
  have hline := lineWord_spelled hwellFormed
  have hstream := TokenStream.ofString_spelled hwellFormed
  rw [hspelled] at hline hstream
  have hreads : s.Reads "a == b" := Reads.of_lineWord hline (by simp) (by decide)
  have hstatement : Statement.ofLine 1 "a == b" =
      .error (.parse ⟨.missingAssignment "a" .equal, 2⟩) := by
    rw [Statement.ofLine, Reader.ofString, hstream]
    rfl
  have hexpression : Expr.ofLine 1 "a == b" = .error (.parse ⟨.nestingTooDeep 1, 2⟩) := by
    rw [Expr.ofLine, Reader.ofString, hstream]
    rfl
  have hstarts : (TokenStream.ofString "a == b").startsStatement = false := by
    rw [hstream]
    rfl
  obtain ⟨-, hother, -⟩ := Session.runLine_dispatches (s := s) rfl hreads
  obtain ⟨first, hfirst, -, houtcome⟩ := hother hstarts
  obtain rfl := Except.error.inj (hfirst.symm.trans hstatement)
  refine ⟨rfl, hreads, hexpression, houtcome.trans ?_⟩
  rw [show s.settings.limits.maxNestingDepth = 1 from rfl, hexpression]
  rfl

end Linewise
