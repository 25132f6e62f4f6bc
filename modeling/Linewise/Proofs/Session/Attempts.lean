/-
The attempts at one line and what they leave of it.

* `furthest_of_columns`, `furthest_eval_left`, `furthest_eval_right` — which of two
  errors is reported;
* `Session.Fits`, `Session.Reads` — a line that is not too long, and one that is neither
  blank nor a comment either;
* `Reads.of_token` — a line whose first token is no slash is read, if it fits;
* `tryStatement_…`, `tryExpression_…` — an attempt fails as its reading or its
  evaluation does;
* `runLine_of_blank`, `runLine_of_comment`, `runLine_of_not_fits` — the runs of lines that
  are not read;
* `runLine_of_statement`, `runLine_of_expression`, `runLine_of_errors`,
  `runLine_of_expression_read`, `runLine_withoutFallback` — the run of a line that is read,
  by its attempts.
-/
import Linewise.Session
import Linewise.Proofs.Results
import Linewise.Proofs.Token.Append

namespace Linewise

open Text

/-! ### Two errors -/

namespace LineError

variable {first second : LineError} {column column' : Nat}

theorem reached_of_column (h : first.report.column = some column) :
    first.report.reached = some (column + 1) := by
  cases first with
  | lex e =>
    obtain rfl : e.column = column := Option.some.inj h
    rfl
  | parse e =>
    obtain rfl : e.column = column := Option.some.inj h
    rfl
  | eval e => exact absurd h (by simp [report])
  | tooLong limit => exact absurd h (by simp [report])

/-- Of two errors at columns the one further on is reported, and the first one if
they are at the same column. -/
theorem furthest_of_columns (hfirst : first.report.column = some column)
    (hsecond : second.report.column = some column') :
    first.furthest second = if column < column' then second else first := by
  simp [furthest, Report.isFurther, reached_of_column hfirst, reached_of_column hsecond]

theorem furthest_eval_left (e : EvalError) (second : LineError) :
    (eval e).furthest second = eval e := rfl

/-- An evaluation error is further on than any column. -/
theorem furthest_eval_right (hfirst : first.report.column = some column) (e : EvalError) :
    first.furthest (eval e) = eval e := by
  rw [furthest, Report.isFurther, reached_of_column hfirst]
  rfl

end LineError

namespace Session

/-- The line is not too long for the session. -/
def Fits (s : Session) (line : String) : Prop :=
  (unitLength line.toList : Int) ≤ s.settings.limits.maxLineLength

instance (s : Session) (line : String) : Decidable (s.Fits line) :=
  inferInstanceAs (Decidable ((unitLength line.toList : Int) ≤ s.settings.limits.maxLineLength))

/-- A line that a session reads: neither blank nor a comment nor too long. -/
structure Reads (s : Session) (line : String) : Prop where
  notBlank : dropBlankStart line.toList ≠ []
  notComment : ∀ rest, dropBlankStart line.toList ≠ '/' :: '/' :: rest
  fits : s.Fits line

/-- The session with the same limits and variables that tries no line as an
expression. -/
def withoutFallback (s : Session) : Session :=
  { s with settings.expressionFallback := false }

variable {s : Session} {line : String}

/-- A line whose first token is no slash can be no comment. -/
theorem Reads.of_token {t : Token} {rest : List Token}
    (h : (TokenStream.ofString line).tokens = t :: rest) (ht : t.kind ≠ .slash)
    (hfits : s.Fits line) : s.Reads line := by
  obtain ⟨column, hscan⟩ := TokenStream.exists_scan_dropBlankStart 0 line.toList
  rw [TokenStream.ofString, hscan] at h
  refine ⟨fun hblank => ?_, fun text hcomment => ht ?_, hfits⟩
  · rw [hblank, TokenStream.scan] at h
    exact absurd h (by simp)
  · rw [hcomment, TokenStream.scan_token rfl rfl] at h
    obtain rfl := (List.cons.inj h).1
    rfl

theorem Reads.of_lineWord {k : Kind} {rest : List Kind} (h : LineWord line (k :: rest))
    (hk : k ≠ .slash) (hfits : s.Fits line) : s.Reads line := by
  obtain ⟨t, ts, htokens, rfl, -⟩ := List.map_eq_cons_iff.mp (lineWord_iff.mp h).2
  exact of_token htokens hk hfits

/-! ### Attempts -/

theorem tryStatement_of_reading {error : LineError}
    (h : Statement.ofLine s.settings.limits.maxNestingDepth line = .error error) :
    s.tryStatement line = .error error := by
  rw [tryStatement, h]
  rfl

theorem tryStatement_of_run {statement : Statement} {effect : Effect}
    (h : Statement.ofLine s.settings.limits.maxNestingDepth line = .ok statement)
    (hrun : statement.run s.store = .ok effect) :
    s.tryStatement line = .ok (statement, effect) := by
  rw [tryStatement, h, ok_bind, hrun]
  rfl

theorem tryStatement_of_run_error {statement : Statement} {error : EvalError}
    (h : Statement.ofLine s.settings.limits.maxNestingDepth line = .ok statement)
    (hrun : statement.run s.store = .error error) :
    s.tryStatement line = .error (.eval error) := by
  rw [tryStatement, h, ok_bind, hrun]
  rfl

theorem tryExpression_of_reading {error : LineError}
    (h : Expr.ofLine s.settings.limits.maxNestingDepth line = .error error) :
    s.tryExpression line = .error error := by
  rw [tryExpression, h]
  rfl

theorem tryExpression_of_value {e : Expr} {value : Value}
    (h : Expr.ofLine s.settings.limits.maxNestingDepth line = .ok e)
    (heval : e.eval s.store = .ok value) : s.tryExpression line = .ok (e, value) := by
  rw [tryExpression, h, ok_bind, heval]
  rfl

theorem tryExpression_of_eval_error {e : Expr} {error : EvalError}
    (h : Expr.ofLine s.settings.limits.maxNestingDepth line = .ok e)
    (heval : e.eval s.store = .error error) :
    s.tryExpression line = .error (.eval error) := by
  rw [tryExpression, h, ok_bind, heval]
  rfl

/-! ### Runs -/

theorem runLine_of_blank (h : dropBlankStart line.toList = []) :
    s.runLine line = ⟨.blank, s, []⟩ := by
  rw [runLine, h]

theorem runLine_of_comment {text : List Char}
    (h : dropBlankStart line.toList = '/' :: '/' :: text) :
    s.runLine line = ⟨.comment (String.ofList text) s.settings.echoComments, s, []⟩ := by
  rw [runLine, h]
  rfl

/-- A line that is neither blank nor a comment is refused if it is too long. -/
theorem runLine_of_not_fits (hblank : dropBlankStart line.toList ≠ [])
    (hcomment : ∀ text, dropBlankStart line.toList ≠ '/' :: '/' :: text) (h : ¬ s.Fits line) :
    s.runLine line = s.failure [.line line] (.tooLong s.settings.limits.maxLineLength) := by
  unfold runLine
  split
  · next hline => exact absurd hline hblank
  · next text hline => exact absurd hline (hcomment text)
  · exact if_pos (Int.not_le.mp h)

theorem runLine_of_reads (h : s.Reads line) : s.runLine line = s.runCode line := by
  unfold runLine
  split
  · next hblank => exact absurd hblank h.notBlank
  · next rest hcomment => exact absurd hcomment (h.notComment rest)
  · rfl

theorem runLine_of_statement (h : s.Reads line) {statement : Statement} {effect : Effect}
    (htry : s.tryStatement line = .ok (statement, effect)) :
    s.runLine line = ⟨.statement statement effect.value effect.printed,
      { s with store := effect.store }, [.line line]⟩ := by
  rw [runLine_of_reads h, runCode, if_neg (Int.not_lt.mpr h.fits), htry]

section Fallback

variable (hfallback : s.settings.expressionFallback = true) (h : s.Reads line)
  {first : LineError} (hfirst : s.tryStatement line = .error first)

include hfallback h hfirst

theorem runLine_of_expression {e : Expr} {value : Value}
    (htry : s.tryExpression line = .ok (e, value)) :
    (s.runLine line).outcome = .expression e value ∧ (s.runLine line).session = s := by
  rw [runLine_of_reads h, runCode, if_neg (Int.not_lt.mpr h.fits), hfirst]
  simp [hfallback, htry]

theorem runLine_of_errors {second : LineError} (htry : s.tryExpression line = .error second) :
    (s.runLine line).outcome = .error (first.furthest second) ∧
      (s.runLine line).session = s := by
  rw [runLine_of_reads h, runCode, if_neg (Int.not_lt.mpr h.fits), hfirst]
  simp [hfallback, htry, failure]

/-- The second attempt decides about a line that it reads. -/
theorem runLine_of_expression_read {column : Nat} (hcolumn : first.report.column = some column)
    {e : Expr} (hread : Expr.ofLine s.settings.limits.maxNestingDepth line = .ok e) :
    (s.runLine line).session = s ∧ (s.runLine line).outcome =
      match e.eval s.store with
      | .ok value => .expression e value
      | .error error => .error (.eval error) := by
  cases heval : e.eval s.store with
  | ok value =>
    obtain ⟨houtcome, hsession⟩ :=
      runLine_of_expression hfallback h hfirst (tryExpression_of_value hread heval)
    exact ⟨hsession, houtcome⟩
  | error error =>
    obtain ⟨houtcome, hsession⟩ :=
      runLine_of_errors hfallback h hfirst (tryExpression_of_eval_error hread heval)
    rw [LineError.furthest_eval_right hcolumn] at houtcome
    exact ⟨hsession, houtcome⟩

end Fallback

/-- Without the second attempt the first one decides alone. -/
theorem runLine_withoutFallback (h : s.Reads line) {first : LineError}
    (hfirst : s.tryStatement line = .error first) :
    (s.withoutFallback.runLine line).outcome = .error first ∧
      (s.withoutFallback.runLine line).session = s.withoutFallback := by
  have hreads : s.withoutFallback.Reads line := ⟨h.notBlank, h.notComment, h.fits⟩
  have htry : s.withoutFallback.tryStatement line = .error first := hfirst
  rw [runLine_of_reads hreads, runCode, if_neg (Int.not_lt.mpr hreads.fits), htry]
  simp [withoutFallback, failure]

end Session

end Linewise
