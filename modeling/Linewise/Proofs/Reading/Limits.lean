/-
Reading within a wider limit.

* `TooDeep` — a result is the refusal of an expression that nests too deep;
* `run_of_le` — a run that is not refused for this is the same within every wider limit;
* `Attempt.Widens` — the same about attempts; attempts in turn keep it;
* `Statement.ofLine_of_le`, `Expr.ofLine_of_le` — and about lines;
* `ofLine_within_wider_limit` — a line that is not refused for its nesting is read in the
  same way within every wider limit.

Design notes: a limit is only looked at where a level is opened, and there the
wider one opens it too.  So every step is the same within both limits, or the
narrower one has refused the line by now.
-/
import Linewise.Proofs.Reading.Dispatch
import Linewise.Proofs.Token.Spelling

namespace Linewise

open Linewise.Configuration Linewise.TokenStream

/-- The expression is refused because it nests too deep. -/
def TooDeep {α : Type} (result : Except LineError α) : Prop :=
  ∃ limit column, result = .error (.parse ⟨.nestingTooDeep limit, column⟩)

/-- The code of a refusal for nesting belongs to no other error. -/
theorem LineError.code_eq_nestingTooDeep_iff {error : LineError} :
    error.report.code = "nesting-too-deep" ↔
      ∃ limit column, error = .parse ⟨.nestingTooDeep limit, column⟩ := by
  constructor
  · intro h
    rcases error with ⟨fault, column⟩ | ⟨fault, column⟩ | error | limit
    · cases fault <;> exact absurd h (by simp [report, LexFault.code])
    · cases fault with
      | nestingTooDeep limit => exact ⟨limit, column, rfl⟩
      | _ => exact absurd h (by simp [report, ParseFault.code])
    · cases error <;> exact absurd h (by simp [report, EvalError.code])
    · exact absurd h (by simp [report])
  · rintro ⟨limit, column, rfl⟩
    rfl

theorem tooDeep_iff_code {α : Type} {result : Except LineError α} :
    TooDeep result ↔ ∃ error, result = .error error ∧ error.report.code = "nesting-too-deep" := by
  constructor
  · rintro ⟨limit, column, rfl⟩
    exact ⟨_, rfl, LineError.code_eq_nestingTooDeep_iff.mpr ⟨limit, column, rfl⟩⟩
  · rintro ⟨error, rfl, hcode⟩
    obtain ⟨limit, column, rfl⟩ := LineError.code_eq_nestingTooDeep_iff.mp hcode
    exact ⟨limit, column, rfl⟩

theorem not_tooDeep_ok {α : Type} (value : α) : ¬ TooDeep (.ok value : Except LineError α) := by
  rintro ⟨limit, column, h⟩
  exact absurd h (by simp)

theorem not_tooDeep_lex {α : Type} (error : LexError) :
    ¬ TooDeep (.error (.lex error) : Except LineError α) := by
  rintro ⟨limit, column, h⟩
  exact absurd h (by simp)

/-! ### Expressions -/

namespace Configuration

variable {limit limit' : Int} (h : limit ≤ limit')

include h

theorem deepen_of_le (column : Nat) (expected : Expected) (frames : List Frame) (depth : Nat) :
    deepen limit' column expected frames depth = deepen limit column expected frames depth ∨
      deepen limit column expected frames depth = .error ⟨.nestingTooDeep limit, column⟩ := by
  rw [deepen, deepen]
  by_cases hfull : limit ≤ depth
  · exact Or.inr (if_pos hfull)
  · rw [if_neg hfull, if_neg fun hfull' => hfull (Int.le_trans h hfull')]
    exact Or.inl rfl

theorem openRightSide_of_le (c : Configuration) :
    c.openRightSide limit' = c.openRightSide limit ∨
      ∃ column, c.openRightSide limit = .error ⟨.nestingTooDeep limit, column⟩ := by
  obtain ⟨expected, frames, depth⟩ := c
  cases expected with
  | rightSide column =>
    exact (deepen_of_le h column _ _ depth).imp id fun hdeep => ⟨column, hdeep⟩
  | operand negatable => exact Or.inl rfl
  | operator left => exact Or.inl rfl

theorem shiftOperand_of_le (c : Configuration) (negatable : Bool) (t : Token) :
    c.shiftOperand limit' negatable t = c.shiftOperand limit negatable t ∨
      ∃ column, c.shiftOperand limit negatable t =
        some (.error ⟨.nestingTooDeep limit, column⟩) := by
  have henter : ∀ (f : Frame) (inner : Bool),
      some (deepen limit' t.column (.operand inner) (f :: c.frames) c.depth) =
          some (deepen limit t.column (.operand inner) (f :: c.frames) c.depth) ∨
        ∃ column, some (deepen limit t.column (.operand inner) (f :: c.frames) c.depth) =
          some (.error ⟨.nestingTooDeep limit, column⟩) := by
    intro f inner
    refine (deepen_of_le h t.column _ _ c.depth).imp (congrArg some) fun hdeep => ?_
    exact ⟨t.column, congrArg some hdeep⟩
  obtain ⟨kind, column⟩ := t
  cases kind with
  | leftParen => exact henter .group true
  | plus => exact henter (.before .plus) false
  | minus => exact henter (.before .minus) false
  | not =>
    cases negatable with
    | true => exact henter (.before .not) false
    | false => exact Or.inl rfl
  | _ => exact Or.inl rfl

theorem shift?_of_le (c : Configuration) (t : Token) :
    c.shift? limit' t = c.shift? limit t ∨
      ∃ column, c.shift? limit t = some (.error ⟨.nestingTooDeep limit, column⟩) := by
  obtain ⟨expected, frames, depth⟩ := c
  cases expected with
  | operand negatable => exact shiftOperand_of_le h _ negatable t
  | rightSide column => exact shiftOperand_of_le h _ true t
  | operator left =>
    simp only [shift?]
    split
    · next op _ =>
      refine (deepen_of_le h t.column _ _ _).imp (congrArg some) fun hdeep => ?_
      exact ⟨t.column, congrArg some hdeep⟩
    · exact Or.inl rfl

/-- A run is the same within a wider limit, if the narrower one does not refuse it. -/
theorem run_of_le (c : Configuration) (ending : Ending) (ts : List Token) :
    c.run limit' ending ts = c.run limit ending ts ∨ TooDeep (c.run limit ending ts).result := by
  induction ts generalizing c with
  | nil =>
    cases ending with
    | failed error => exact Or.inl rfl
    | endOfLine column =>
      rw [run, run]
      rcases openRightSide_of_le h c with hopen | ⟨column', hdeep⟩
      · exact Or.inl (by rw [hopen])
      · exact Or.inr ⟨limit, column', by rw [hdeep]; rfl⟩
  | cons t ts ih =>
    rw [run, run]
    rcases openRightSide_of_le h c with hopen | ⟨column, hdeep⟩
    · rw [hopen]
      cases c.openRightSide limit with
      | error error => exact Or.inl rfl
      | ok opened =>
        rcases shift?_of_le h opened t with hshift | ⟨column, hdeep⟩
        · simp only [hshift]
          split
          · exact ih _
          · exact Or.inl rfl
          · exact Or.inl rfl
        · simp only [hdeep]
          exact Or.inr ⟨limit, column, rfl⟩
    · rw [hdeep]
      exact Or.inr ⟨limit, column, rfl⟩

end Configuration

/-! ### Attempts -/

/-- The reader within another limit. -/
def Reader.withLimit (limit : Int) (r : Reader) : Reader := { r with limit }

/-- The attempt `a'` does within the limit `limit'` what `a` does within one that is no
wider, unless `a` is refused for its nesting. -/
def Attempt.Widens {α : Type} (limit' : Int) (a a' : Attempt α) : Prop :=
  (a.reader.limit ≤ limit' ∧ a' = ⟨a.result, a.reader.withLimit limit'⟩) ∨ TooDeep a.result

namespace Attempt.Widens

variable {α β : Type} {limit' : Int}

theorem andThen {a a' : Attempt α} {next next' : α → Reader → Attempt β} (h : Widens limit' a a')
    (hnext : ∀ value r, r.limit ≤ limit' →
      Widens limit' (next value r) (next' value (r.withLimit limit'))) :
    Widens limit' (a.andThen next) (a'.andThen next') := by
  obtain ⟨result, r⟩ := a
  rcases h with ⟨hle, rfl⟩ | ⟨limit, column, rfl⟩
  · cases result with
    | ok value => exact hnext value r hle
    | error error => exact Or.inl ⟨hle, rfl⟩
  · exact Or.inr ⟨limit, column, rfl⟩

theorem result_eq {a a' : Attempt α} (h : Widens limit' a a') :
    a'.result = a.result ∨ TooDeep a.result :=
  h.imp (fun hsame => by rw [hsame.2]) id

end Attempt.Widens

namespace Reader

open Attempt (Widens)

variable {α : Type} {limit' : Int} {r : Reader} (h : r.limit ≤ limit')

include h

theorem widens_ok (value : α) : Widens limit' ⟨.ok value, r⟩ ⟨.ok value, r.withLimit limit'⟩ :=
  Or.inl ⟨h, rfl⟩

theorem widens_refuse (t : Token) (fault : ParseFault) :
    Widens limit' (r.refuse t fault : Attempt α) ((r.withLimit limit').refuse t fault) :=
  Or.inl ⟨h, rfl⟩

theorem widens_peek : Widens limit' r.peek (r.withLimit limit').peek :=
  Or.inl ⟨h, rfl⟩

theorem widens_expression : Widens limit' r.expression (r.withLimit limit').expression := by
  rcases run_of_le h (start r.depth) r.input.ending r.input.tokens with hrun | hdeep
  · refine Or.inl ⟨h, ?_⟩
    simp only [expression, withLimit, hrun]
  · exact Or.inr hdeep

theorem widens_terminator : Widens limit' r.terminator (r.withLimit limit').terminator := by
  refine (widens_peek h).andThen fun t r h => ?_
  by_cases ht : t.kind = .semicolon
  · simp only [if_pos ht]
    exact (widens_peek (r := r.skip) h).andThen fun _ r h => widens_ok h ()
  · simp only [if_neg ht]
    exact widens_refuse h t _

theorem widens_terminated (f : Expr → Statement) :
    Widens limit' (r.expression.andThen fun value r => r.terminator.andThen fun _ r =>
        (⟨.ok (f value), r⟩ : Attempt Statement))
      ((r.withLimit limit').expression.andThen fun value r => r.terminator.andThen fun _ r =>
        ⟨.ok (f value), r⟩) :=
  (widens_expression h).andThen fun value _ h => (widens_terminator h).andThen fun _ _ h =>
    widens_ok h (f value)

theorem widens_statement : Widens limit' r.statement (r.withLimit limit').statement := by
  refine (widens_peek h).andThen fun first r h => ?_
  obtain ⟨kind, column⟩ := first
  cases kind with
  | name name =>
    refine (widens_peek (r := r.skip) h).andThen fun sign r h => ?_
    by_cases hsign : sign.kind = .assign
    · simp only [if_pos hsign]
      exact widens_terminated (r := r.skip) h (.assign name)
    · simp only [if_neg hsign]
      exact widens_refuse h sign _
  | print => exact widens_terminated (r := r.skip) h .print
  | _ => exact widens_refuse h _ _

theorem widens_endOfLine : Widens limit' r.endOfLine (r.withLimit limit').endOfLine := by
  refine (widens_peek h).andThen fun t r h => ?_
  by_cases ht : t.kind = .endOfLine
  · simp only [if_pos ht]
    exact widens_ok h ()
  · simp only [if_neg ht]
    exact widens_refuse h t _

theorem widens_ending (terminated : Bool) :
    Widens limit' (r.ending terminated) ((r.withLimit limit').ending terminated) := by
  refine (widens_peek h).andThen fun t r h => ?_
  by_cases ht : (terminated && t.kind = .semicolon) = true
  · simp only [if_pos ht]
    exact widens_endOfLine (r := r.skip) h
  · simp only [if_neg ht]
    exact widens_endOfLine h

end Reader

/-- A phrase with the end of its line. -/
theorem Attempt.Widens.whole {α : Type} {limit' : Int} {a a' : Attempt α}
    (h : a.Widens limit' a') (terminated : Bool) :
    Widens limit'
      (a.andThen fun value r => (r.ending terminated).andThen fun _ r => ⟨.ok value, r⟩)
      (a'.andThen fun value r => (r.ending terminated).andThen fun _ r => ⟨.ok value, r⟩) :=
  h.andThen fun value _ h => (Reader.widens_ending h terminated).andThen fun _ _ h =>
    Reader.widens_ok h value

/-! ### Lines -/

section Lines

variable {limit limit' : Int} (h : limit ≤ limit') (line : String)

include h

theorem Statement.ofLine_of_le : Statement.ofLine limit' line = Statement.ofLine limit line ∨
    TooDeep (Statement.ofLine limit line) :=
  ((Reader.widens_statement (r := Reader.ofString limit line) h).whole false).result_eq

theorem Expr.ofLine_of_le : Expr.ofLine limit' line = Expr.ofLine limit line ∨
    TooDeep (Expr.ofLine limit line) :=
  ((Reader.widens_expression (r := Reader.ofString limit line) h).whole true).result_eq

/-- A line that is not refused for its nesting within a limit is read in the same way within
every wider one, as a statement and as an expression: as the same tree, or with the same
error at the same column. -/
theorem ofLine_within_wider_limit :
    ((∀ error, Statement.ofLine limit line = .error error →
        error.report.code ≠ "nesting-too-deep") →
      Statement.ofLine limit' line = Statement.ofLine limit line) ∧
    ((∀ error, Expr.ofLine limit line = .error error →
        error.report.code ≠ "nesting-too-deep") →
      Expr.ofLine limit' line = Expr.ofLine limit line) := by
  refine ⟨fun hcode => ?_, fun hcode => ?_⟩
  · refine (Statement.ofLine_of_le h line).resolve_right fun hdeep => ?_
    obtain ⟨error, herror, heq⟩ := tooDeep_iff_code.mp hdeep
    exact hcode error herror heq
  · refine (Expr.ofLine_of_le h line).resolve_right fun hdeep => ?_
    obtain ⟨error, herror, heq⟩ := tooDeep_iff_code.mp hdeep
    exact hcode error herror heq

end Lines

/-- A parenthesis that is not closed, with an operator in it: two levels are just enough to
find out, and more of them change nothing. -/
theorem ofLine_within_wider_limit_unclosed :
    let error : LineError := .parse ⟨.mismatchedParentheses .endOfLine, 7⟩
    (2 : Int) ≤ 200 ∧
    (∀ e, Expr.ofLine 2 "( a + b" = .error e → e.report.code ≠ "nesting-too-deep") ∧
    Expr.ofLine 1 "( a + b" = .error (.parse ⟨.nestingTooDeep 1, 4⟩) ∧
    Expr.ofLine 2 "( a + b" = .error error ∧ Expr.ofLine 200 "( a + b" = .error error := by
  intro error
  have hwellFormed : ∀ k ∈ [Kind.leftParen, .name "a", .plus, .name "b"], k.WellFormed := by
    simp only [List.forall_mem_cons]
    exact ⟨trivial, Kind.wellFormed_letter rfl rfl rfl, trivial, Kind.wellFormed_letter rfl rfl rfl,
      by simp⟩
  have hstream := TokenStream.ofString_spelled hwellFormed
  have hspelled : String.ofList (spelled [.leftParen, .name "a", .plus, .name "b"]) = "( a + b" :=
    rfl
  rw [hspelled] at hstream
  have hrefused : Expr.ofLine 1 "( a + b" = .error (.parse ⟨.nestingTooDeep 1, 4⟩) := by
    rw [Expr.ofLine, Reader.ofString, hstream]
    rfl
  have herror : Expr.ofLine 2 "( a + b" = .error error := by
    rw [Expr.ofLine, Reader.ofString, hstream]
    rfl
  have hle : (2 : Int) ≤ 200 := by decide
  have hcode : ∀ e, Expr.ofLine 2 "( a + b" = .error e → e.report.code ≠ "nesting-too-deep" := by
    intro e he
    obtain rfl := Except.error.inj (herror.symm.trans he)
    decide
  have hwider := (ofLine_within_wider_limit hle "( a + b").2 hcode
  exact ⟨hle, hcode, hrefused, herror, hwider.trans herror⟩

end Linewise
