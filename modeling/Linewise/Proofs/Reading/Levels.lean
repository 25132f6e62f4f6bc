/-
How many levels of nesting the tokens of a line open.

* `Kind.levels` — the levels that a token opens at most: one for a parenthesis or an
  operator, and one more for an equality, whose right side is a level of its own;
* `Configuration.weight` — the levels that are open, with the right side of an equality
  that is to be opened next;
* `settles_shift?` — a token adds no more than its levels to the weight, and with room for
  them it is not refused for its nesting;
* `run_not_tooDeep`, `ofLine_not_tooDeep` — so with room for the levels of all its tokens no
  line is refused for its nesting;
* `not_ofLine_not_tooDeep_equality` — one level for each token is not enough.

Design notes: levels are left again when an operand is complete, so a line may need fewer
than its tokens have.  The sum is what can be told from the tokens alone.
-/
import Linewise.Proofs.Reading.Equality
import Linewise.Proofs.Token.Spelling

namespace Linewise

open Linewise.Configuration Linewise.TokenStream

/-- The two signs of equality. -/
def Kind.isEquality : Kind → Bool
  | equal | notEqual => true
  | _ => false

/-- The levels of nesting that a token opens at most. -/
def Kind.levels (k : Kind) : Nat := k.opensLevel.toNat + k.isEquality.toNat

/-- The levels of nesting that tokens open at most. -/
def totalLevels : List Token → Nat
  | [] => 0
  | t :: ts => t.kind.levels + totalLevels ts

@[simp] theorem totalLevels_cons (t : Token) (ts : List Token) :
    totalLevels (t :: ts) = t.kind.levels + totalLevels ts := rfl

theorem totalLevels_tail_le (ts : List Token) : totalLevels ts.tail ≤ totalLevels ts := by
  cases ts with
  | nil => exact Nat.le_refl _
  | cons t ts => exact Nat.le_add_left _ _

theorem totalLevels_eq_countP (ts : List Token) : totalLevels ts =
    ts.countP (fun t => t.kind.opensLevel) + ts.countP (fun t => t.kind.isEquality) := by
  induction ts with
  | nil => rfl
  | cons t ts ih =>
    rw [totalLevels_cons, ih, Kind.levels, List.countP_cons, List.countP_cons]
    cases t.kind.opensLevel <;> cases t.kind.isEquality <;> simp <;> omega

theorem Kind.levels_le_two (k : Kind) : k.levels ≤ 2 := by
  have hopens := Bool.toNat_le k.opensLevel
  have hequality := Bool.toNat_le k.isEquality
  rw [levels]
  omega

theorem totalLevels_le (ts : List Token) : totalLevels ts ≤ 2 * ts.length := by
  induction ts with
  | nil => exact Nat.le_refl _
  | cons t ts ih =>
    rw [totalLevels_cons, List.length_cons]
    have htwo := t.kind.levels_le_two
    omega

/-! ### Expressions -/

namespace Configuration

/-- The levels of nesting that are open, with the right side of an equality that is
to be opened next. -/
def weight (c : Configuration) : Nat :=
  match c.expected with
  | .rightSide _ => c.depth + 1
  | _ => c.depth

variable {limit : Int} {c next : Configuration} {t : Token}

theorem weight_of_not_waiting (h : ∀ column, c.expected ≠ .rightSide column) :
    c.weight = c.depth := by
  unfold weight
  split
  · next column hwaits => exact absurd hwaits (h column)
  · rfl

/-- With room for the weight the right side of an equality is opened. -/
theorem exists_openRightSide (limit : Int) (c : Configuration) (h : (c.weight : Int) ≤ limit) :
    ∃ opened, c.openRightSide limit = .ok opened ∧ opened.depth = c.weight ∧
      ∀ column, opened.expected ≠ .rightSide column := by
  cases hexpected : c.expected with
  | rightSide column =>
    simp only [weight, hexpected] at h ⊢
    simp only [openRightSide, hexpected, deepen_of_room (show (c.depth : Int) < limit by omega)]
    exact ⟨_, rfl, rfl, by simp⟩
  | _ =>
    have hwaits : ∀ column, c.expected ≠ .rightSide column := by simp [hexpected]
    exact ⟨c, openRightSide_of_not_waiting hwaits, (weight_of_not_waiting hwaits).symm, hwaits⟩

/-- A token adds no more than its levels to the weight, and it is not refused for its
nesting if there is room for these. -/
theorem settles_shift? {result : Except ParseError Configuration}
    (hroom : ((c.depth + t.kind.levels : Nat) : Int) ≤ limit)
    (h : c.shift? limit t = some result) :
    Settles (fun next => next.weight ≤ c.depth + t.kind.levels)
      (fun error => ∀ bound, error.fault ≠ .nestingTooDeep bound) result := by
  obtain ⟨e, frames, depth, hdepth, rfl⟩ |
    ⟨hopens, expected, frames, depth, hdepth, hwaits, rfl⟩ | ⟨spelling, -, -, rfl⟩ :=
    shifts_of_shift? h
  · exact .ok (Nat.le_add_right_of_le hdepth)
  · simp only [Kind.levels, hopens, Bool.toNat_true] at hroom ⊢
    rw [deepen_of_room (by omega)]
    refine .ok ?_
    cases expected with
    | rightSide column =>
      -- Only an equality waits for its right side, and it has the second level for that.
      obtain ⟨-, -, op, hop, hequality⟩ := hwaits column rfl
      have htwo : t.kind.isEquality = true := by
        rcases Kind.eq_of_isEquality hop hequality with hkind | hkind <;> rw [hkind] <;> rfl
      simp only [weight, htwo, Bool.toNat_true]
      omega
    | _ =>
      simp only [weight]
      omega
  · exact .error (by simp)

theorem run_not_tooDeep {ts : List Token} (ending : Ending)
    (h : ((c.weight + totalLevels ts : Nat) : Int) ≤ limit) :
    ¬ TooDeep (c.run limit ending ts).result := by
  -- By induction on the tokens: what is open and what is still to be opened has room.
  induction ts generalizing c with
  | nil =>
    obtain ⟨opened, hopen, -, hwaits⟩ := exists_openRightSide limit c (by omega)
    rw [run_of_open hopen]
    exact not_tooDeep_run_nil hwaits
  | cons t ts ih =>
    rw [totalLevels_cons] at h
    obtain ⟨opened, hopen, hdepth, -⟩ := exists_openRightSide limit c (by omega)
    have hroom : ((opened.depth + t.kind.levels : Nat) : Int) ≤ limit := by omega
    rw [run, hopen]
    simp only
    split
    · next next hshift =>
      have hweight := (settles_shift? hroom hshift).of_ok
      exact ih (by omega)
    · next error hshift =>
      have hfault := (settles_shift? hroom hshift).of_error
      rintro ⟨bound, column, hdeep⟩
      obtain rfl : error = _ := by simpa using hdeep
      exact hfault bound rfl
    · rintro ⟨bound, column, hdeep⟩
      cases hfinish : opened.finish t with
      | ok e => exact absurd hdeep (by simp [hfinish])
      | error error =>
        obtain rfl : error = _ := by simpa [hfinish] using hdeep
        exact absurd hfinish finish_not_tooDeep

end Configuration

/-! ### Lines -/

theorem Attempt.not_tooDeep_andThen {α β : Type} {a : Attempt α} {next : α → Reader → Attempt β}
    (h : ¬ TooDeep a.result) (hnext : ∀ value, ¬ TooDeep (next value a.reader).result) :
    ¬ TooDeep (a.andThen next).result := by
  rw [andThen]
  split
  · next value _ => exact hnext value
  · next error herror =>
    rintro ⟨limit, column, hdeep⟩
    obtain rfl := Except.error.inj hdeep
    exact h ⟨limit, column, herror⟩

namespace Reader

variable {r : Reader}

/-- There is room for the levels of all tokens that are left. -/
def HasRoom (r : Reader) : Prop := ((r.depth + totalLevels r.input.tokens : Nat) : Int) ≤ r.limit

theorem HasRoom.skip (h : r.HasRoom) : r.skip.HasRoom := by
  have hle : totalLevels r.skip.input.tokens ≤ totalLevels r.input.tokens :=
    totalLevels_tail_le r.input.tokens
  have hroom : ((r.depth + totalLevels r.input.tokens : Nat) : Int) ≤ r.limit := h
  show ((r.depth + totalLevels r.skip.input.tokens : Nat) : Int) ≤ r.limit
  omega

theorem not_tooDeep_expression (h : r.HasRoom) : ¬ TooDeep r.expression.result :=
  run_not_tooDeep (c := start r.depth) r.input.ending h

theorem not_tooDeep_refuse {α : Type} (r : Reader) (t : Token) {fault : ParseFault}
    (h : ∀ bound, fault ≠ .nestingTooDeep bound) :
    ¬ TooDeep (r.refuse t fault : Attempt α).result := by
  rintro ⟨bound, column, hdeep⟩
  obtain ⟨hfault, -⟩ : fault = .nestingTooDeep bound ∧ t.column = column := by
    simpa [refuse] using hdeep
  exact h bound hfault

theorem not_tooDeep_terminator (r : Reader) : ¬ TooDeep r.terminator.result := by
  refine not_tooDeep_peek_andThen fun t => ?_
  split
  · exact not_tooDeep_peek_andThen fun _ => not_tooDeep_ok ()
  · exact not_tooDeep_refuse _ _ (by simp)

theorem not_tooDeep_terminated (h : r.HasRoom) (f : Expr → Statement) :
    ¬ TooDeep (r.expression.andThen fun value r => r.terminator.andThen fun _ r =>
      (⟨.ok (f value), r⟩ : Attempt Statement)).result :=
  Attempt.not_tooDeep_andThen (not_tooDeep_expression h) fun value =>
    Attempt.not_tooDeep_andThen (not_tooDeep_terminator _) fun _ => not_tooDeep_ok (f value)

theorem not_tooDeep_statement (h : r.HasRoom) : ¬ TooDeep r.statement.result := by
  refine not_tooDeep_peek_andThen fun first => ?_
  split
  · refine not_tooDeep_peek_andThen fun sign => ?_
    split
    · exact not_tooDeep_terminated h.skip.skip _
    · exact not_tooDeep_refuse _ _ (by simp)
  · exact not_tooDeep_terminated h.skip _
  · exact not_tooDeep_refuse _ _ (by simp)

/-- A phrase with the end of its line. -/
theorem not_tooDeep_whole {α : Type} {a : Attempt α} (h : ¬ TooDeep a.result)
    (terminated : Bool) : ¬ TooDeep (a.andThen fun value r =>
      (r.ending terminated).andThen fun _ r => (⟨.ok value, r⟩ : Attempt α)).result :=
  Attempt.not_tooDeep_andThen h fun value =>
    Attempt.not_tooDeep_andThen (not_tooDeep_ending _ _) fun _ => not_tooDeep_ok value

end Reader

section Lines

variable {limit : Int} {line : String}
  (h : ((totalLevels (TokenStream.ofString line).tokens : Nat) : Int) ≤ limit)

include h

theorem hasRoom_ofString : (Reader.ofString limit line).HasRoom := by
  rw [Reader.HasRoom, Reader.ofString, Nat.zero_add]
  exact h

theorem Statement.not_tooDeep_ofLine : ¬ TooDeep (Statement.ofLine limit line) :=
  Reader.not_tooDeep_whole (Reader.not_tooDeep_statement (hasRoom_ofString h)) false

theorem Expr.not_tooDeep_ofLine : ¬ TooDeep (Expr.ofLine limit line) :=
  Reader.not_tooDeep_whole (Reader.not_tooDeep_expression (hasRoom_ofString h)) true

end Lines

/-- No line is refused for its nesting if the limit is at least the number of its
parentheses that open, of its operators before one operand or between two, and once more of
its signs of equality. -/
theorem ofLine_not_tooDeep {limit : Int} {line : String}
    (h : (((TokenStream.ofString line).tokens.countP (fun t => t.kind.opensLevel) +
      (TokenStream.ofString line).tokens.countP (fun t => t.kind.isEquality) : Nat) : Int) ≤
        limit) (error : LineError)
    (herror : Statement.ofLine limit line = .error error ∨ Expr.ofLine limit line = .error error) :
    error.report.code ≠ "nesting-too-deep" := by
  rw [← totalLevels_eq_countP] at h
  intro hcode
  obtain ⟨bound, column, rfl⟩ := LineError.code_eq_nestingTooDeep_iff.mp hcode
  rcases herror with herror | herror
  · exact Statement.not_tooDeep_ofLine h ⟨bound, column, herror⟩
  · exact Expr.not_tooDeep_ofLine h ⟨bound, column, herror⟩

/-- An unfinished line with no level to spare: one for its parenthesis and two for its
equality. -/
theorem ofLine_not_tooDeep_unfinished :
    (((TokenStream.ofString "( a ==").tokens.countP (fun t => t.kind.opensLevel) +
      (TokenStream.ofString "( a ==").tokens.countP (fun t => t.kind.isEquality) : Nat) : Int) ≤
        3 ∧
    Expr.ofLine 3 "( a ==" = .error (.parse ⟨.unexpectedToken .endOfLine, 6⟩) ∧
    (LineError.parse ⟨.unexpectedToken .endOfLine, 6⟩).report.code ≠ "nesting-too-deep" := by
  have hwellFormed : ∀ k ∈ [Kind.leftParen, .name "a", .equal], k.WellFormed := by
    simp only [List.forall_mem_cons]
    exact ⟨trivial, Kind.wellFormed_letter rfl rfl rfl, trivial, by simp⟩
  have hstream := TokenStream.ofString_spelled hwellFormed
  have hspelled : String.ofList (spelled [.leftParen, .name "a", .equal]) = "( a ==" := rfl
  rw [hspelled] at hstream
  have hroom : (((TokenStream.ofString "( a ==").tokens.countP (fun t => t.kind.opensLevel) +
      (TokenStream.ofString "( a ==").tokens.countP (fun t => t.kind.isEquality) : Nat) : Int) ≤
        3 := by
    rw [hstream]
    decide
  have herror : Expr.ofLine 3 "( a ==" = .error (.parse ⟨.unexpectedToken .endOfLine, 6⟩) := by
    rw [Expr.ofLine, Reader.ofString, hstream]
    rfl
  exact ⟨hroom, herror, ofLine_not_tooDeep hroom _ (Or.inr herror)⟩

/-- One level for each parenthesis and operator is not enough: an equality has its right
side refused where there is room for its operator only. -/
theorem not_ofLine_not_tooDeep_equality : ¬ ∀ (limit : Int) (line : String) (error : LineError),
    (((TokenStream.ofString line).tokens.countP (fun t => t.kind.opensLevel) : Nat) : Int) ≤
      limit →
    Statement.ofLine limit line = .error error ∨ Expr.ofLine limit line = .error error →
    error.report.code ≠ "nesting-too-deep" := by
  have hwellFormed : ∀ k ∈ [Kind.name "a", .equal, .name "b"], k.WellFormed := by
    simp only [List.forall_mem_cons]
    exact ⟨Kind.wellFormed_letter rfl rfl rfl, trivial, Kind.wellFormed_letter rfl rfl rfl,
      by simp⟩
  have hstream := TokenStream.ofString_spelled hwellFormed
  have hspelled : String.ofList (spelled [.name "a", .equal, .name "b"]) = "a == b" := rfl
  rw [hspelled] at hstream
  have hcount :
      (((TokenStream.ofString "a == b").tokens.countP (fun t => t.kind.opensLevel) : Nat) : Int) ≤
        1 := by
    rw [hstream]
    decide
  have herror : Expr.ofLine 1 "a == b" = .error (.parse ⟨.nestingTooDeep 1, 2⟩) := by
    rw [Expr.ofLine, Reader.ofString, hstream]
    rfl
  intro h
  exact h 1 "a == b" _ hcount (Or.inr herror) rfl

end Linewise
