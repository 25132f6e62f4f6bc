/-
Where a reading fails.

* `Attempt.Within` — an attempt fails, if it does, at a column of a given stream, and
  leaves an end of that stream; attempts in turn keep this;
* `PointsAt`, `column_of_deepen`, `column_of_finish`, `run_column` — where a run fails:
  at a token that it was given, or at the end of these;
* `TokenStream.afterName` — what is left after the name that a line starts with;
* `within_expression`, `within_statement`, `within_whole` — the readings fail within
  that, so at the token that decides what the line can be, or after it.

Design notes: an equality whose right side is refused points back at its operator,
so a run can fail before its first token; this column is the one that the
configuration holds.
-/
import Linewise.Proofs.Reading.Statement
import Linewise.Proofs.Token.Columns

namespace Linewise

open Linewise.Configuration Linewise.TokenStream

/-- The attempt fails only at a column of the stream, and what it leaves ends as the
stream does. -/
structure Attempt.Within {α : Type} (a : Attempt α) (input : TokenStream) : Prop where
  column_mem : ∀ error, a.result = .error error →
    ∃ column ∈ input.columns, error.report.column = some column
  suffix : a.reader.input.columns <:+ input.columns

namespace Attempt.Within

variable {α β : Type} {a : Attempt α} {input input' : TokenStream}

theorem mono (h : a.Within input) (hsuffix : input.columns <:+ input'.columns) :
    a.Within input' where
  column_mem error herror := by
    obtain ⟨column, hmem, hcolumn⟩ := h.column_mem error herror
    exact ⟨column, hsuffix.mem hmem, hcolumn⟩
  suffix := h.suffix.trans hsuffix

theorem andThen {next : α → Reader → Attempt β} (h : a.Within input)
    (hnext : ∀ value, a.result = .ok value → (next value a.reader).Within a.reader.input) :
    (a.andThen next).Within input := by
  rw [Attempt.andThen]
  split
  · next value hvalue => exact (hnext value hvalue).mono h.suffix
  · next error herror =>
    refine ⟨fun error' herror' => ?_, h.suffix⟩
    obtain rfl := Except.error.inj herror'
    exact h.column_mem error herror

end Attempt.Within

/-! ### Expressions -/

namespace Configuration

variable {limit : Int} {c next : Configuration} {t : Token} {error : ParseError}

/-- What comes of taking a token points at this token: an error, and an equality that
waits for its right side. -/
def PointsAt (t : Token) (result : Except ParseError Configuration) : Prop :=
  (∀ error, result = .error error → error.column = t.column) ∧
    ∀ next column, result = .ok next → next.expected = .rightSide column → column = t.column

theorem column_of_deepen {column depth : Nat} {expected : Expected} {frames : List Frame}
    (h : deepen limit column expected frames depth = .error error) : error.column = column := by
  rw [eq_of_deepen_error h]

theorem pointsAt_shift? {result : Except ParseError Configuration}
    (h : c.shift? limit t = some result) : PointsAt t result := by
  obtain ⟨e, frames, depth, -, rfl⟩ | ⟨-, expected, frames, depth, -, hwaits, rfl⟩ |
    ⟨spelling, -, -, rfl⟩ := shifts_of_shift? h
  · refine ⟨by simp, fun next column hnext hexpected => ?_⟩
    obtain rfl := Except.ok.inj hnext
    exact absurd hexpected (by simp)
  · refine ⟨fun error => column_of_deepen, fun next column hnext hexpected => ?_⟩
    obtain ⟨-, rfl⟩ := deepen_eq_ok_iff.mp hnext
    exact (hwaits column hexpected).1
  · exact ⟨fun error herror => Except.error.inj herror ▸ rfl, by simp⟩

theorem column_of_finish (h : c.finish t = .error error) : error.column = t.column := by
  unfold finish at h
  split at h
  · split at h
    · obtain rfl := Except.error.inj h
      rfl
    · exact absurd h (by simp)
  · obtain rfl := Except.error.inj h
    rfl

/-- An equality that is refused for its right side is the one that waits for it. -/
theorem expected_of_openRightSide_error (h : c.openRightSide limit = .error error) :
    c.expected = .rightSide error.column := by
  unfold openRightSide at h
  split at h
  · next column hexpected => rw [hexpected, column_of_deepen h]
  · exact absurd h (by simp)

/-- A run fails only at a column of what it reads, or at the equality that waits for
its right side. -/
theorem run_column (c : Configuration) (limit : Int) (ending : Ending) (ts : List Token) :
    (∀ error, (c.run limit ending ts).result = .error error →
      ∃ column, error.report.column = some column ∧
        (column ∈ columns ⟨ts, ending⟩ ∨ c.expected = .rightSide column)) ∧
    columns ⟨(c.run limit ending ts).rest, ending⟩ <:+ columns ⟨ts, ending⟩ := by
  -- By induction on the tokens; the equality that waits is then one that was read.
  induction ts generalizing c with
  | nil =>
    cases ending with
    | failed error =>
      refine ⟨fun e he => ?_, List.suffix_refl _⟩
      obtain rfl := Except.error.inj he
      exact ⟨error.column, rfl, Or.inl List.mem_cons_self⟩
    | endOfLine column =>
      refine ⟨fun e he => ?_, List.suffix_refl _⟩
      simp only [run] at he
      cases hopen : c.openRightSide limit with
      | error error =>
        rw [hopen] at he
        obtain rfl := Except.error.inj he
        exact ⟨error.column, rfl, Or.inr (expected_of_openRightSide_error hopen)⟩
      | ok opened =>
        cases hfinish : opened.finish ⟨.endOfLine, column⟩ with
        | ok e => exact absurd he (by simp [hopen, Except.bind, hfinish])
        | error error =>
          obtain rfl : LineError.parse error = e := by
            simpa [hopen, Except.bind, hfinish] using he
          exact ⟨error.column, rfl, Or.inl (by simp [column_of_finish hfinish, Ending.column])⟩
  | cons t ts ih =>
    rw [run]
    split
    · next error hopen =>
      refine ⟨fun e he => ?_, List.suffix_refl _⟩
      obtain rfl := Except.error.inj he
      exact ⟨error.column, rfl, Or.inr (expected_of_openRightSide_error hopen)⟩
    · next opened hopen =>
      split
      · next next hshift =>
        obtain ⟨hcolumn, hsuffix⟩ := ih next
        refine ⟨fun e he => ?_, hsuffix.trans (List.suffix_cons _ _)⟩
        obtain ⟨column, he, hmem | hexpected⟩ := hcolumn e he
        · exact ⟨column, he, Or.inl (List.mem_cons_of_mem _ hmem)⟩
        · obtain rfl := (pointsAt_shift? hshift).2 next column rfl hexpected
          exact ⟨t.column, he, Or.inl List.mem_cons_self⟩
      · next error hshift =>
        refine ⟨fun e he => ?_, List.suffix_refl _⟩
        obtain rfl := Except.error.inj he
        exact ⟨error.column, rfl, Or.inl (by simp [(pointsAt_shift? hshift).1 error rfl])⟩
      · refine ⟨fun e he => ?_, List.suffix_refl _⟩
        cases hfinish : opened.finish t with
        | ok e => exact absurd he (by simp [hfinish])
        | error error =>
          obtain rfl : LineError.parse error = e := by simpa [hfinish] using he
          exact ⟨error.column, rfl, Or.inl (by simp [column_of_finish hfinish])⟩

end Configuration

/-! ### Lines -/

/-- What is left of a stream after the name that it starts with, or all of it. -/
def TokenStream.afterName (s : TokenStream) : TokenStream :=
  match s.tokens with
  | ⟨.name _, _⟩ :: _ => s.advance
  | _ => s

theorem TokenStream.columns_afterName_suffix (s : TokenStream) :
    s.afterName.columns <:+ s.columns := by
  unfold afterName
  split
  · exact s.columns_advance_suffix
  · exact List.suffix_refl _

namespace Reader

variable {α : Type} {r : Reader}

theorem within_ok (r : Reader) (value : α) : (⟨.ok value, r⟩ : Attempt α).Within r.input :=
  ⟨by simp, List.suffix_refl _⟩

theorem within_refuse {t : Token} (fault : ParseFault) (h : t.column ∈ r.input.columns) :
    (r.refuse t fault : Attempt α).Within r.input := by
  refine ⟨fun error herror => ⟨t.column, h, ?_⟩, List.suffix_refl _⟩
  obtain rfl := Except.error.inj herror
  rfl

theorem peek_andThen_of_ok {t : Token} {next : Token → Reader → Attempt α}
    (h : r.input.current = .ok t) : r.peek.andThen next = next t r := by
  simp [peek, h, Attempt.andThen]

theorem peek_andThen_of_error {error : LexError} {next : Token → Reader → Attempt α}
    (h : r.input.current = .error error) : r.peek.andThen next = ⟨.error (.lex error), r⟩ := by
  simp [peek, h, Attempt.andThen]

theorem within_peek_andThen {next : Token → Reader → Attempt α}
    (h : ∀ t, r.input.current = .ok t → t.column ∈ r.input.columns →
      (next t r).Within r.input) : (r.peek.andThen next).Within r.input := by
  have hmem := r.input.column_mem_columns
  cases hcurrent : r.input.current with
  | ok t =>
    rw [peek_andThen_of_ok hcurrent]
    exact h t hcurrent (column_eq_of_current_ok hcurrent ▸ hmem)
  | error error =>
    rw [peek_andThen_of_error hcurrent]
    refine ⟨fun error' herror => ?_, List.suffix_refl _⟩
    obtain rfl := Except.error.inj herror
    exact ⟨error.column, column_eq_of_current_error hcurrent ▸ hmem, rfl⟩

theorem within_skip {a : Attempt α} (h : a.Within r.skip.input) : a.Within r.input :=
  h.mono r.input.columns_advance_suffix

/-- A reading that comes to a configuration which waits for no right side fails within
what is left there. -/
theorem within_of_run {c : Configuration} {rest : List Token}
    (hwaits : ∀ column, c.expected ≠ .rightSide column)
    (hrun : (start r.depth).run r.limit r.input.ending r.input.tokens =
      c.run r.limit r.input.ending rest) :
    r.expression.Within ⟨rest, r.input.ending⟩ := by
  obtain ⟨hcolumn, hsuffix⟩ := run_column c r.limit r.input.ending rest
  refine ⟨fun error herror => ?_, ?_⟩
  · simp only [expression, hrun] at herror
    obtain ⟨column, hreport, hmem | hexpected⟩ := hcolumn error herror
    · exact ⟨column, hmem, hreport⟩
    · exact absurd hexpected (hwaits column)
  · simp only [expression, hrun]
    exact hsuffix

theorem within_expression (r : Reader) : r.expression.Within r.input.afterName := by
  unfold afterName
  split
  · next name column rest htokens =>
    -- The name is an operand, so what follows it is read from an operator on.
    have hrun : (start r.depth).run r.limit r.input.ending r.input.tokens =
        (⟨.operator (.var name), [], r.depth⟩ : Configuration).run r.limit r.input.ending rest := by
      rw [htokens]
      rfl
    have hadvance : r.input.advance = ⟨rest, r.input.ending⟩ := by
      simp [advance, htokens]
    rw [hadvance]
    exact within_of_run (by simp) hrun
  · exact within_of_run (by simp [start]) rfl

theorem within_terminator (r : Reader) : r.terminator.Within r.input := by
  refine within_peek_andThen fun t _ hmem => ?_
  split
  · exact within_skip (within_peek_andThen fun _ _ _ => within_ok _ _)
  · exact within_refuse _ hmem

/-- An expression with the semicolon that ends its statement. -/
theorem within_terminated (r : Reader) (f : Expr → Statement) :
    (r.expression.andThen fun value r => r.terminator.andThen fun _ r =>
      (⟨.ok (f value), r⟩ : Attempt Statement)).Within r.input := by
  have hexpression := r.within_expression.mono r.input.columns_afterName_suffix
  exact hexpression.andThen fun value _ => (within_terminator _).andThen fun _ _ => within_ok _ _

theorem within_statement (r : Reader) : r.statement.Within r.input.afterName := by
  unfold afterName
  split
  · next name column rest htokens =>
    -- The name itself is taken, so the sign after it is what can be missing.
    have hcurrent : r.input.current = .ok ⟨.name name, column⟩ :=
      (current_eq_ok_iff (by simp)).mpr ⟨rest, htokens⟩
    rw [statement, peek_andThen_of_ok hcurrent]
    show Attempt.Within _ r.skip.input
    refine within_peek_andThen fun sign _ hmem => ?_
    split
    · exact within_skip (within_terminated _ _)
    · exact within_refuse _ hmem
  · next hfirst =>
    refine within_peek_andThen fun t hcurrent hmem => ?_
    split
    · next name ht =>
      obtain ⟨rest, htokens⟩ := (current_eq_ok_iff (by simp [ht])).mp hcurrent
      obtain ⟨kind, column⟩ := t
      obtain rfl : kind = .name name := ht
      exact absurd htokens (hfirst name column rest)
    · exact within_skip (within_terminated _ _)
    · exact within_refuse _ hmem

theorem within_endOfLine (r : Reader) : r.endOfLine.Within r.input := by
  refine within_peek_andThen fun t _ hmem => ?_
  split
  · exact within_ok _ _
  · exact within_refuse _ hmem

theorem within_ending (r : Reader) (terminated : Bool) : (r.ending terminated).Within r.input := by
  refine within_peek_andThen fun t _ _ => ?_
  split
  · exact within_skip (within_endOfLine _)
  · exact within_endOfLine _

/-- A phrase with the end of its line. -/
theorem within_whole {a : Attempt α} {input : TokenStream} (h : a.Within input)
    (terminated : Bool) :
    (a.andThen fun value r => (r.ending terminated).andThen fun _ r =>
      (⟨.ok value, r⟩ : Attempt α)).Within input :=
  h.andThen fun _ _ => (within_ending _ _).andThen fun _ _ => within_ok _ _

end Reader

end Linewise
