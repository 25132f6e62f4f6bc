/-
The equality after the name that a line starts with.

* `TokenStream.StartsEquality` — the line starts with a name and a sign of equality, and
  can be read on after these;
* `run_of_take?`, `run_of_open` — the steps of a run;
* `tooDeep_at_head` — with room for one level, a token is refused for its nesting only
  if it is a sign of equality whose right side finds no room;
* `Expr.ofLine_tooDeep_iff` — so a line is refused for its nesting at the token that
  decides what it can be only within a single level, and only if it starts an equality;
* `Expr.lt_column_of_startsEquality` — within more levels such a line fails further on;
* `Statement.ofLine_of_startsEquality` — as a statement it is refused at the sign.

Design notes: the right side of an equality is refused at the sign, which is also where
the line turns out to be no assignment.
-/
import Linewise.Proofs.Reading.Limits

namespace Linewise

open Linewise.Configuration Linewise.TokenStream

/-- The stream starts with a name and a sign of equality, after which a token can be
read or the line ends. -/
def TokenStream.StartsEquality (s : TokenStream) : Prop :=
  ∃ name column t rest next, s.tokens = ⟨.name name, column⟩ :: t :: rest ∧
    (t.kind = .equal ∨ t.kind = .notEqual) ∧ current ⟨rest, s.ending⟩ = .ok next

theorem Kind.eq_of_isEquality {k : Kind} {op : BinaryOp} (h : k.binary? = some op)
    (hop : op.isEquality = true) : k = .equal ∨ k = .notEqual := by
  cases k with
  | equal => exact Or.inl rfl
  | notEqual => exact Or.inr rfl
  | _ =>
    simp only [binary?, Option.some.injEq, reduceCtorEq] at h
    all_goals exact absurd hop (by simp [← h, BinaryOp.isEquality])

/-! ### Runs -/

namespace Configuration

variable {limit : Int} {c next opened : Configuration} {t : Token} {ending : Ending}
  {ts : List Token}

theorem run_of_take? (h : c.take? limit t = some next) :
    c.run limit ending (t :: ts) = next.run limit ending ts := by
  obtain ⟨opened, hopen, hshift⟩ := take?_eq_some_iff.mp h
  simp [run, hopen, hshift]

theorem openRightSide_of_not_waiting (h : ∀ column, c.expected ≠ .rightSide column) :
    c.openRightSide limit = .ok c := by
  unfold openRightSide
  split
  · next column hwaits => exact absurd hwaits (h column)
  · rfl

theorem deepen_of_room {column depth : Nat} {expected : Expected} {frames : List Frame}
    (h : (depth : Int) < limit) :
    deepen limit column expected frames depth = .ok ⟨expected, frames, depth + 1⟩ :=
  deepen_eq_ok_iff.mpr ⟨room_pos_iff.mpr h, rfl⟩

/-- A run goes on from the right side once this is open. -/
theorem run_of_open (h : c.openRightSide limit = .ok opened) :
    c.run limit ending ts = opened.run limit ending ts := by
  cases hwaits : c.expected with
  | rightSide column =>
    rw [openRightSide, hwaits] at h
    obtain ⟨hroom, rfl⟩ := deepen_eq_ok_iff.mp h
    have hopen : c.openRightSide limit =
        .ok ⟨.operand true, .rightSide :: c.frames, c.depth + 1⟩ := by
      rw [openRightSide, hwaits]
      exact h
    have hopened : (⟨.operand true, .rightSide :: c.frames, c.depth + 1⟩ :
        Configuration).openRightSide limit =
        .ok ⟨.operand true, .rightSide :: c.frames, c.depth + 1⟩ := rfl
    have hdepth : (⟨.operand true, .rightSide :: c.frames, c.depth + 1⟩ :
        Configuration).outerDepth = c.outerDepth := by
      simp only [outerDepth, Frame.totalCost_cons, Frame.cost]
      omega
    cases ts with
    | nil => cases ending <;> simp only [run, hopen, hopened, hdepth]
    | cons t ts => simp only [run, hopen, hopened]
  | _ =>
    obtain rfl : c = opened := by
      rw [openRightSide_of_not_waiting (by simp [hwaits])] at h
      exact Except.ok.inj h
    rfl

/-- A run that waits for no right side fails behind the token before it. -/
theorem lt_column_of_run (hwaits : ∀ column, c.expected ≠ .rightSide column)
    (hascend : (columns ⟨t :: ts, ending⟩).Pairwise (· < ·)) {error : LineError}
    (h : (c.run limit ending ts).result = .error error) :
    ∃ column, error.report.column = some column ∧ t.column < column := by
  obtain ⟨column, hcolumn, hmem | hexpected⟩ := (run_column c limit ending ts).1 error h
  · exact ⟨column, hcolumn, (List.pairwise_cons.mp hascend).1 column hmem⟩
  · exact absurd hexpected (hwaits column)

/-- Only a sign of equality leaves a right side to be opened. -/
theorem shift?_rightSide {column : Nat} (h : c.shift? limit t = some (.ok next))
    (hwaits : next.expected = .rightSide column) :
    (∃ left, c.expected = .operator left) ∧ (t.kind = .equal ∨ t.kind = .notEqual) ∧
      next.depth ≤ c.depth + 1 := by
  obtain ⟨e, frames, depth, -, hnext⟩ | ⟨-, expected, frames, depth, hdepth, hpoints, hdeepen⟩ |
    ⟨spelling, -, -, hnumber⟩ := shifts_of_shift? h
  · obtain rfl := Except.ok.inj hnext
    exact absurd hwaits (by simp)
  · obtain ⟨-, rfl⟩ := deepen_eq_ok_iff.mp hdeepen.symm
    obtain ⟨-, hleft, op, hop, hequality⟩ := hpoints column hwaits
    exact ⟨hleft, Kind.eq_of_isEquality hop hequality, Nat.succ_le_succ hdepth⟩
  · exact absurd hnumber (by simp)

/-- With room for one more level no token is refused for its own level. -/
theorem shift?_not_tooDeep {bound : Int} {column : Nat} (hroom : (c.depth : Int) < limit) :
    c.shift? limit t ≠ some (.error ⟨.nestingTooDeep bound, column⟩) := by
  intro h
  obtain ⟨e, frames, depth, -, hnext⟩ | ⟨-, expected, frames, depth, hdepth, -, hdeepen⟩ |
    ⟨spelling, -, -, hnumber⟩ := shifts_of_shift? h
  · exact absurd hnext (by simp)
  · rw [deepen_of_room (by omega)] at hdeepen
    exact absurd hdeepen (by simp)
  · exact absurd hnumber (by simp)

theorem finish_not_tooDeep {bound : Int} {column : Nat} :
    c.finish t ≠ .error ⟨.nestingTooDeep bound, column⟩ := by
  unfold finish
  split
  · split <;> simp
  · simp

/-- With room for one more level, a token is refused for its nesting only if it is a sign
of equality, and then for want of the level of its right side. -/
theorem tooDeep_at_head {bound : Int} (hwaits : ∀ column, c.expected ≠ .rightSide column)
    (hroom : (c.depth : Int) < limit)
    (hascend : (columns ⟨t :: ts, ending⟩).Pairwise (· < ·))
    (h : (c.run limit ending (t :: ts)).result =
      .error (.parse ⟨.nestingTooDeep bound, t.column⟩)) :
    (∃ left, c.expected = .operator left) ∧ (t.kind = .equal ∨ t.kind = .notEqual) ∧
      (∃ next, current ⟨ts, ending⟩ = .ok next) ∧ limit ≤ c.depth + 1 := by
  have hmem : t.column ∉ columns ⟨ts, ending⟩ := fun hmem =>
    Nat.lt_irrefl _ ((List.pairwise_cons.mp hascend).1 _ hmem)
  rw [run, openRightSide_of_not_waiting hwaits] at h
  simp only at h
  split at h
  · next next hshift =>
    -- What is behind the token is refused at its column, so it waits for its right side.
    obtain ⟨column, hcolumn, hmem' | hexpected⟩ := (run_column next limit ending ts).1 _ h
    · obtain rfl : t.column = column := Option.some.inj hcolumn
      exact absurd hmem' hmem
    · obtain ⟨hleft, hkind, hdepth⟩ := shift?_rightSide hshift hexpected
      refine ⟨hleft, hkind, ?_, ?_⟩
      · cases ts with
        | cons u us => exact ⟨u, rfl⟩
        | nil =>
          cases ending with
          | endOfLine column => exact ⟨_, rfl⟩
          | failed error => exact absurd h (by simp [run])
      · by_contra hlarge
        have hopen : next.openRightSide limit =
            .ok ⟨.operand true, .rightSide :: next.frames, next.depth + 1⟩ := by
          rw [openRightSide, hexpected]
          exact deepen_of_room (by omega)
        rw [run_of_open hopen] at h
        obtain ⟨column', hcolumn', hlt⟩ := lt_column_of_run (by simp) hascend h
        exact absurd (Option.some.inj hcolumn') (Nat.ne_of_lt hlt)
  · next error hshift =>
    obtain rfl : error = _ := by simpa using h
    exact absurd hshift (shift?_not_tooDeep hroom)
  · cases hfinish : c.finish t with
    | ok e => exact absurd h (by simp [hfinish])
    | error error =>
      obtain rfl : error = _ := by simpa [hfinish] using h
      exact absurd hfinish finish_not_tooDeep

/-! ### The start of a line -/

theorem not_tooDeep_run_nil (hwaits : ∀ column, c.expected ≠ .rightSide column) :
    ¬ TooDeep (c.run limit ending []).result := by
  rintro ⟨bound, column, h⟩
  cases ending with
  | failed error => exact absurd h (by simp [run])
  | endOfLine end' =>
    simp only [run, openRightSide_of_not_waiting hwaits, Except.bind] at h
    cases hfinish : c.finish ⟨.endOfLine, end'⟩ with
    | ok e => exact absurd h (by simp [hfinish])
    | error error =>
      obtain rfl : error = _ := by simpa [hfinish] using h
      exact absurd hfinish finish_not_tooDeep

theorem run_name (limit : Int) (ending : Ending) (name : String) (column : Nat)
    (ts : List Token) : (start 0).run limit ending (⟨.name name, column⟩ :: ts) =
      (⟨.operator (.var name), [], 0⟩ : Configuration).run limit ending ts :=
  run_of_take? rfl

/-- A line is refused for its nesting where it is decided what it can be only within a
single level, and only if it starts an equality. -/
theorem tooDeep_start {s : TokenStream} {bound : Int} (hpos : 0 < limit)
    (hascend : s.columns.Pairwise (· < ·))
    (h : ((start 0).run limit s.ending s.tokens).result =
      .error (.parse ⟨.nestingTooDeep bound, s.afterName.column⟩)) :
    limit = 1 ∧ s.StartsEquality := by
  obtain ⟨tokens, ending⟩ := s
  cases tokens with
  | nil => exact absurd ⟨bound, _, h⟩ (not_tooDeep_run_nil (by simp [start]))
  | cons t rest =>
    obtain ⟨kind, column⟩ := t
    by_cases hname : ∃ name, kind = .name name
    · obtain ⟨name, rfl⟩ := hname
      simp only [run_name] at h
      cases rest with
      | nil => exact absurd ⟨bound, _, h⟩ (not_tooDeep_run_nil (by simp))
      | cons t rest =>
        obtain ⟨-, hkind, ⟨next, hnext⟩, hle⟩ :=
          tooDeep_at_head (by simp) (by simpa using hpos) (List.pairwise_cons.mp hascend).2 h
        have hle : limit ≤ 1 := hle
        exact ⟨by omega, name, column, t, rest, next, rfl, hkind, hnext⟩
    · have hdecides : afterName ⟨⟨kind, column⟩ :: rest, ending⟩ =
          ⟨⟨kind, column⟩ :: rest, ending⟩ := by
        unfold afterName
        split
        · next name _ _ htokens =>
          obtain ⟨⟨rfl, -⟩, -⟩ : (kind = .name name ∧ _) ∧ _ := by simpa using htokens
          exact absurd ⟨name, rfl⟩ hname
        · rfl
      rw [hdecides] at h
      obtain ⟨⟨left, hleft⟩, -⟩ := tooDeep_at_head (by simp [start]) (by simpa [start]) hascend h
      exact absurd hleft (by simp [start])

/-- A sign of equality after the first operand opens a level and waits for its right side. -/
theorem exists_take?_equality {e : Expr} (hpos : 0 < limit)
    (hkind : t.kind = .equal ∨ t.kind = .notEqual) :
    ∃ op, (⟨.operator e, [], 0⟩ : Configuration).take? limit t =
      some ⟨.rightSide t.column, [.chain op e 1], 1⟩ := by
  obtain ⟨kind, column⟩ := t
  rcases hkind with rfl | rfl
  · exact ⟨_, take?_operator_iff.mpr (congrArg some (deepen_of_room hpos))⟩
  · exact ⟨_, take?_operator_iff.mpr (congrArg some (deepen_of_room hpos))⟩

/-- A right side that finds no room is refused before its first token. -/
theorem run_rightSide_of_full {column depth : Nat} {frames : List Frame} (hfull : limit ≤ depth)
    (hnext : current ⟨ts, ending⟩ = .ok t) :
    ((⟨.rightSide column, frames, depth⟩ : Configuration).run limit ending ts).result =
      .error (.parse ⟨.nestingTooDeep limit, column⟩) := by
  have hopen : (⟨.rightSide column, frames, depth⟩ : Configuration).openRightSide limit =
      .error ⟨.nestingTooDeep limit, column⟩ := if_pos hfull
  cases ts with
  | cons u us => rw [run, hopen]
  | nil =>
    cases ending with
    | endOfLine column => rw [run, hopen]; rfl
    | failed error => exact absurd hnext (by simp [current])

end Configuration

/-! ### Lines -/

namespace Reader

variable {α : Type} {r : Reader}

theorem not_tooDeep_peek_andThen {next : Token → Reader → Attempt α}
    (h : ∀ t, ¬ TooDeep (next t r).result) : ¬ TooDeep (r.peek.andThen next).result := by
  cases hcurrent : r.input.current with
  | ok t =>
    rw [peek_andThen_of_ok hcurrent]
    exact h t
  | error error =>
    rw [peek_andThen_of_error hcurrent]
    exact not_tooDeep_lex error

theorem not_tooDeep_endOfLine (r : Reader) : ¬ TooDeep r.endOfLine.result := by
  refine not_tooDeep_peek_andThen fun t => ?_
  split
  · exact not_tooDeep_ok ()
  · rintro ⟨limit, column, h⟩
    exact absurd h (by simp [refuse])

theorem not_tooDeep_ending (r : Reader) (terminated : Bool) :
    ¬ TooDeep (r.ending terminated).result := by
  refine not_tooDeep_peek_andThen fun t => ?_
  split
  · exact not_tooDeep_endOfLine _
  · exact not_tooDeep_endOfLine _

end Reader

/-- The end of a line is never refused for the nesting of its phrase. -/
theorem Attempt.result_eq_of_whole_tooDeep {α : Type} {a : Attempt α} {terminated : Bool}
    {limit : Int} {column : Nat}
    (h : (a.andThen fun value r => (r.ending terminated).andThen fun _ r =>
      (⟨.ok value, r⟩ : Attempt α)).result = .error (.parse ⟨.nestingTooDeep limit, column⟩)) :
    a.result = .error (.parse ⟨.nestingTooDeep limit, column⟩) := by
  rw [andThen] at h
  split at h
  · next value _ =>
    rw [andThen] at h
    split at h
    · exact absurd h (by simp)
    · next error hending =>
      obtain rfl : error = _ := by simpa using h
      exact absurd ⟨limit, column, hending⟩ (Reader.not_tooDeep_ending _ _)
  · next error herror =>
    rw [herror]
    simpa using h

section Lines

variable {limit : Int} {line : String}

theorem TokenStream.StartsEquality.startsStatement_eq_false {s : TokenStream}
    (h : s.StartsEquality) : s.startsStatement = false := by
  obtain ⟨name, column, ⟨kind, column'⟩, rest, next, htokens, rfl | rfl, -⟩ := h
  · rw [startsStatement, htokens]
    rfl
  · rw [startsStatement, htokens]
    rfl

/-- A line that starts an equality is refused as a statement for the missing assignment. -/
theorem Statement.ofLine_of_startsEquality (limit : Int)
    (h : (TokenStream.ofString line).StartsEquality) :
    ∃ name got, Statement.ofLine limit line = .error (.parse
      ⟨.missingAssignment name got, (TokenStream.ofString line).afterName.column⟩) := by
  obtain ⟨name, column, t, rest, next, htokens, hkind, -⟩ := h
  have hassign : t.kind ≠ .assign := by
    rcases hkind with hkind | hkind <;> simp [hkind]
  have hstatement : (Reader.ofString limit line).statement.result =
      .error (.parse ⟨.missingAssignment name t.kind, t.column⟩) := by
    simp [Reader.statement, Reader.ofString, Reader.peek, Reader.skip, Reader.refuse, current,
      advance, Attempt.andThen, htokens, hassign]
  refine ⟨name, t.kind, ?_⟩
  rw [Statement.ofLine, Attempt.andThen, hstatement]
  simp [afterName, TokenStream.column, advance, htokens]

/-- A line is refused for its nesting as an expression, at the token that decides what it
can be, only within a single level and only if it starts an equality. -/
theorem Expr.ofLine_tooDeep_iff (hpos : 0 < limit) :
    (∃ bound, Expr.ofLine limit line = .error (.parse
        ⟨.nestingTooDeep bound, (TokenStream.ofString line).afterName.column⟩)) ↔
      limit = 1 ∧ (TokenStream.ofString line).StartsEquality := by
  constructor
  · rintro ⟨bound, h⟩
    exact tooDeep_start hpos (pairwise_columns_scan 0 line.toList)
      (Attempt.result_eq_of_whole_tooDeep h)
  · rintro ⟨rfl, name, column, t, rest, next, htokens, hkind, hnext⟩
    obtain ⟨op, htake⟩ := exists_take?_equality (e := .var name) hpos hkind
    have hrun : (Reader.ofString 1 line).expression.result =
        .error (.parse ⟨.nestingTooDeep 1, t.column⟩) := by
      simp only [Reader.expression, Reader.ofString, htokens, run_name, run_of_take? htake]
      exact run_rightSide_of_full (by simp) hnext
    refine ⟨1, ?_⟩
    rw [Expr.ofLine, Attempt.andThen, hrun, afterName, htokens]
    simp [TokenStream.column, advance, htokens]

/-- Within more than one level a line that starts an equality is no expression only for
what follows the sign. -/
theorem Expr.lt_column_of_startsEquality {error : LineError} (hlimit : 1 < limit)
    (h : (TokenStream.ofString line).StartsEquality)
    (herror : Expr.ofLine limit line = .error error) :
    ∃ column, error.report.column = some column ∧
      (TokenStream.ofString line).afterName.column < column := by
  obtain ⟨name, column, t, rest, next, htokens, hkind, -⟩ := h
  obtain ⟨op, htake⟩ :=
    exists_take?_equality (e := .var name) (Int.lt_trans Int.one_pos hlimit) hkind
  have hopen : (⟨.rightSide t.column, [.chain op (.var name) 1], 1⟩ : Configuration).openRightSide
      limit = .ok ⟨.operand true, [.rightSide, .chain op (.var name) 1], 2⟩ :=
    deepen_of_room hlimit
  have hrun : (start 0).run limit (TokenStream.ofString line).ending
        (TokenStream.ofString line).tokens =
      (⟨.operand true, [.rightSide, .chain op (.var name) 1], 2⟩ : Configuration).run limit
        (TokenStream.ofString line).ending rest := by
    rw [htokens, run_name, run_of_take? htake, run_of_open hopen]
  have hwithin : (Reader.ofString limit line).expression.Within
      ⟨rest, (TokenStream.ofString line).ending⟩ := Reader.within_of_run (by simp) hrun
  have hascend : (TokenStream.ofString line).columns.Pairwise (· < ·) :=
    pairwise_columns_scan 0 line.toList
  rw [columns, htokens] at hascend
  obtain ⟨column, hmem, hcolumn⟩ := (Reader.within_whole hwithin true).column_mem error herror
  refine ⟨column, hcolumn, ?_⟩
  have hdecides : (TokenStream.ofString line).afterName.column = t.column := by
    simp [afterName, TokenStream.column, advance, htokens]
  rw [hdecides]
  exact (List.pairwise_cons.mp (List.pairwise_cons.mp hascend).2).1 column hmem

end Lines

end Linewise
