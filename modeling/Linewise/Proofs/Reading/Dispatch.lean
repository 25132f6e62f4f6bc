/-
Which phrase a line can be.

* `TokenStream.startsStatement` — the line starts with `print`, or with a name and an
  assignment sign;
* `Expr.ofLine_eq_error_of_startsStatement`,
  `Statement.ofLine_eq_error_of_not_startsStatement` — the first two tokens rule out one
  of the two phrases, at the first of them or, after a name, at the second;
* `Expr.column_le_of_ofLine`, `Statement.column_le_of_ofLine` — neither phrase fails
  before that token;
* `not_ofLine_both` — so no line is both.

Design notes: a name is where both phrases can still go on.  The token after it
decides, or the error that stands in its place, and both phrases then point at it.
-/
import Linewise.Proofs.Reading.Errors

namespace Linewise

open Linewise.Configuration Linewise.TokenStream

/-- The stream starts as a statement does: with `print`, or with a name and an
assignment sign. -/
def TokenStream.startsStatement (s : TokenStream) : Bool :=
  match s.tokens.map Token.kind with
  | .print :: _ => true
  | .name _ :: .assign :: _ => true
  | _ => false

namespace Reader

variable {r : Reader}

/-- What starts as a statement is no expression. -/
theorem expression_of_startsStatement (h : r.input.startsStatement = true) :
    ∃ error, (r.expression.andThen fun e r => (r.ending true).andThen fun _ r =>
        (⟨.ok e, r⟩ : Attempt Expr)).result = .error error ∧
      error.report.column = some r.input.afterName.column := by
  obtain ⟨⟨tokens, ending⟩, limit, depth⟩ := r
  unfold startsStatement at h
  split at h
  · next rest hkinds =>
    obtain ⟨⟨kind, column⟩, us, rfl, hkind, -⟩ := List.map_eq_cons_iff.mp hkinds
    obtain rfl : kind = .print := hkind
    exact ⟨_, rfl, rfl⟩
  · next name rest hkinds =>
    obtain ⟨⟨kind, column⟩, us, rfl, hkind, hus⟩ := List.map_eq_cons_iff.mp hkinds
    obtain ⟨⟨kind', column'⟩, vs, rfl, hkind', -⟩ := List.map_eq_cons_iff.mp hus
    obtain rfl : kind = .name name := hkind
    obtain rfl : kind' = .assign := hkind'
    exact ⟨_, rfl, rfl⟩
  · exact absurd h (by simp)

/-- What does not start as a statement is none, within whatever limit. -/
theorem statement_of_not_startsStatement {input : TokenStream}
    (h : input.startsStatement = false) :
    ∃ error, (∀ limit depth, (⟨input, limit, depth⟩ : Reader).statement.result = .error error) ∧
      error.report.column = some input.afterName.column := by
  obtain ⟨tokens, ending⟩ := input
  cases tokens with
  | nil => cases ending <;> exact ⟨_, fun _ _ => rfl, rfl⟩
  | cons t rest =>
    obtain ⟨kind, column⟩ := t
    cases kind with
    | print => exact absurd h (by simp [startsStatement])
    | name name =>
      cases rest with
      | nil => cases ending <;> exact ⟨_, fun _ _ => rfl, rfl⟩
      | cons u rest =>
        obtain ⟨kind, column'⟩ := u
        by_cases hassign : kind = .assign
        · exact absurd h (by simp [startsStatement, hassign])
        · refine ⟨.parse ⟨.missingAssignment name kind, column'⟩, fun limit depth => ?_, rfl⟩
          simp [statement, peek, current, skip, advance, Attempt.andThen, refuse, hassign]
    | _ => exact ⟨_, fun _ _ => rfl, rfl⟩

end Reader

variable {limit : Int} {line : String} {error : LineError}

theorem Expr.ofLine_eq_error_of_startsStatement (limit : Int)
    (h : (TokenStream.ofString line).startsStatement = true) :
    ∃ error, Expr.ofLine limit line = .error error ∧
      error.report.column = some (TokenStream.ofString line).afterName.column :=
  Reader.expression_of_startsStatement (r := Reader.ofString limit line) h

theorem Statement.ofLine_eq_error_of_not_startsStatement
    (h : (TokenStream.ofString line).startsStatement = false) :
    ∃ error, (∀ limit, Statement.ofLine limit line = .error error) ∧
      error.report.column = some (TokenStream.ofString line).afterName.column := by
  obtain ⟨error, herror, hcolumn⟩ := Reader.statement_of_not_startsStatement h
  refine ⟨error, fun limit => ?_, hcolumn⟩
  rw [Statement.ofLine, Attempt.andThen, Reader.ofString, herror]

/-- An attempt that stays within what follows the name of a line fails there or later. -/
theorem Attempt.Within.column_le {α : Type} {a : Attempt α}
    (h : a.Within (TokenStream.ofString line).afterName) (herror : a.result = .error error) :
    ∃ column, error.report.column = some column ∧
      (TokenStream.ofString line).afterName.column ≤ column := by
  have hascend := (pairwise_columns_scan 0 line.toList).sublist
    (TokenStream.ofString line).columns_afterName_suffix.sublist
  obtain ⟨column, hmem, hcolumn⟩ := h.column_mem error herror
  exact ⟨column, hcolumn, column_le_of_mem_columns hascend column hmem⟩

theorem Expr.column_le_of_ofLine (h : Expr.ofLine limit line = .error error) :
    ∃ column, error.report.column = some column ∧
      (TokenStream.ofString line).afterName.column ≤ column :=
  (Reader.within_whole (Reader.ofString limit line).within_expression true).column_le h

theorem Statement.column_le_of_ofLine (h : Statement.ofLine limit line = .error error) :
    ∃ column, error.report.column = some column ∧
      (TokenStream.ofString line).afterName.column ≤ column :=
  (Reader.within_whole (Reader.ofString limit line).within_statement false).column_le h

/-- No line is both a statement and an expression, under whatever limits. -/
theorem not_ofLine_both {limit' : Int} {s : Statement} (h : Statement.ofLine limit line = .ok s)
    (e : Expr) : Expr.ofLine limit' line ≠ .ok e := by
  cases hstarts : (TokenStream.ofString line).startsStatement with
  | true =>
    obtain ⟨error, herror, -⟩ := Expr.ofLine_eq_error_of_startsStatement limit' hstarts
    simp [herror]
  | false =>
    obtain ⟨error, herror, -⟩ := Statement.ofLine_eq_error_of_not_startsStatement hstarts
    exact absurd (h.symm.trans (herror limit)) (by simp)

end Linewise
