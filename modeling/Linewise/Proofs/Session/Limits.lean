/-
The same line within wider limits.

* `Outcome.HitsLimit` — a line is refused for its length or its nesting;
* `Session.withLimits` — the session within other limits;
* `runLine_of_decided` — the outcome of a line that the first attempt decides about;
* `Session.HidesNesting` — the one kind of line whose nesting is refused behind another
  error, with `outcome_of_hidesNesting`;
* `runLine_within_wider_limits` — every other line that hits no limit has the same outcome
  within all wider limits;
* `not_runLine_within_wider_limits_equality` — a line of that kind has not.

Design notes: the error of the first attempt is reported if both are at one column.  So
a refusal for nesting is hidden only at the token that decides what a line can be.  One
level is enough for every operator there but an equality, which is charged twice: once
as an operator, and once more for its right side.  All lines of that kind are due to the
second charge.
-/
import Linewise.Proofs.Reading.Equality
import Linewise.Proofs.Session.Dispatch

namespace Linewise

open Text

/-- The line is refused because it is too long or nests too deep. -/
def Outcome.HitsLimit (o : Outcome) : Prop :=
  ∃ e, o = .error e ∧ (e.report.code = "line-too-long" ∨ e.report.code = "nesting-too-deep")

theorem Outcome.hitsLimit_tooLong (limit : Int) : (error (.tooLong limit)).HitsLimit :=
  ⟨_, rfl, Or.inl rfl⟩

theorem Outcome.hitsLimit_nestingTooDeep (limit : Int) (column : Nat) :
    (error (.parse ⟨.nestingTooDeep limit, column⟩)).HitsLimit :=
  ⟨_, rfl, Or.inr rfl⟩

namespace Session

/-- The session within other limits. -/
def withLimits (limits : Limits) (s : Session) : Session := { s with settings.limits := limits }

variable {s : Session} {line : String}

/-! ### The attempt that decides -/

/-- What the first attempt makes of a line. -/
theorem runLine_of_decided (h : s.Reads line)
    (hdecides : s.settings.expressionFallback = false ∨
      (TokenStream.ofString line).startsStatement = true) :
    ((s.runLine line).outcome, (s.runLine line).session.store) =
      match s.tryStatement line with
      | .ok (statement, effect) =>
        (.statement statement effect.value effect.printed, effect.store)
      | .error first => (.error first, s.store) := by
  have hreads : s.withoutFallback.Reads line := ⟨h.notBlank, h.notComment, h.fits⟩
  have halone : (s.runLine line).outcome = (s.withoutFallback.runLine line).outcome ∧
      (s.runLine line).session.store = (s.withoutFallback.runLine line).session.store := by
    cases hfallback : s.settings.expressionFallback with
    | false =>
      have hsame : s.withoutFallback = s := by
        obtain ⟨⟨limits, echo, fallback⟩, store⟩ := s
        obtain rfl : fallback = false := hfallback
        rfl
      rw [hsame]
      exact ⟨rfl, rfl⟩
    | true =>
      obtain ⟨houtcome, hstore, -⟩ := runLine_of_startsStatement hfallback h
        (hdecides.resolve_left (by simp [hfallback]))
      exact ⟨houtcome, hstore⟩
  rw [halone.1, halone.2]
  cases htry : s.tryStatement line with
  | ok made =>
    obtain ⟨statement, effect⟩ := made
    have htry' : s.withoutFallback.tryStatement line = .ok (statement, effect) := htry
    rw [runLine_of_statement hreads htry']
  | error first =>
    obtain ⟨houtcome, hsession⟩ := runLine_withoutFallback h htry
    rw [houtcome, hsession]
    rfl

/-! ### Wider limits -/

/-- A line that hits no limit is read, if it is neither blank nor a comment. -/
theorem reads_of_not_hitsLimit (hblank : dropBlankStart line.toList ≠ [])
    (hcomment : ∀ text, dropBlankStart line.toList ≠ '/' :: '/' :: text)
    (hlimit : ¬ (s.runLine line).outcome.HitsLimit) : s.Reads line := by
  refine ⟨hblank, hcomment, ?_⟩
  by_contra hfits
  rw [runLine_of_not_fits hblank hcomment hfits] at hlimit
  exact hlimit (Outcome.hitsLimit_tooLong _)

/-- The nesting of the line is refused, but hidden behind another error: one level is
allowed, and the line starts an equality, which is charged two. -/
structure HidesNesting (s : Session) (line : String) : Prop where
  fallback : s.settings.expressionFallback = true
  single : s.settings.limits.maxNestingDepth = 1
  starts : (TokenStream.ofString line).StartsEquality

/-- Both attempts at such a line fail at the sign, and the error of the first is reported. -/
theorem outcome_of_hidesNesting (hides : s.HidesNesting line) (h : s.Reads line) :
    ∃ name got bound,
      (s.runLine line).outcome = .error (.parse
        ⟨.missingAssignment name got, (TokenStream.ofString line).afterName.column⟩) ∧
      Expr.ofLine s.settings.limits.maxNestingDepth line = .error (.parse
        ⟨.nestingTooDeep bound, (TokenStream.ofString line).afterName.column⟩) := by
  obtain ⟨name, got, hfirst⟩ :=
    Statement.ofLine_of_startsEquality s.settings.limits.maxNestingDepth hides.starts
  obtain ⟨bound, hsecond⟩ := (Expr.ofLine_tooDeep_iff (hides.single ▸ Int.one_pos)).mpr
    ⟨hides.single, hides.starts⟩
  obtain ⟨first, hfirst', -, houtcome⟩ :=
    runLine_of_not_startsStatement hides.fallback h hides.starts.startsStatement_eq_false
  obtain rfl := Except.error.inj (hfirst.symm.trans hfirst')
  simp only [hsecond] at houtcome
  exact ⟨name, got, bound, houtcome.trans (congrArg Outcome.error (if_pos rfl)), hsecond⟩

section Wider

variable {wider : Limits} (hlength : s.settings.limits.maxLineLength ≤ wider.maxLineLength)
  (hnesting : s.settings.limits.maxNestingDepth ≤ wider.maxNestingDepth)

include hlength

theorem Reads.withLimits (h : s.Reads line) : (s.withLimits wider).Reads line :=
  ⟨h.notBlank, h.notComment, Int.le_trans h.fits hlength⟩

include hnesting

/-- Where the first attempt decides, a line that hits no limit runs in the same way within
wider limits. -/
theorem runLine_withLimits_of_decided (h : s.Reads line)
    (hdecides : s.settings.expressionFallback = false ∨
      (TokenStream.ofString line).startsStatement = true)
    (hlimit : ¬ (s.runLine line).outcome.HitsLimit) :
    ((s.withLimits wider).runLine line).outcome = (s.runLine line).outcome ∧
      ((s.withLimits wider).runLine line).session.store = (s.runLine line).session.store := by
  have hnarrow := runLine_of_decided h hdecides
  have hwide := runLine_of_decided (h.withLimits hlength) hdecides
  rcases Statement.ofLine_of_le hnesting line with hsame | ⟨bound, column, hdeep⟩
  · have htry : (s.withLimits wider).tryStatement line = s.tryStatement line := by
      simp only [tryStatement, withLimits, hsame]
    rw [htry] at hwide
    exact Prod.mk.inj (hwide.trans hnarrow.symm)
  · rw [tryStatement_of_reading hdeep] at hnarrow
    rw [(Prod.mk.inj hnarrow).1] at hlimit
    exact absurd (Outcome.hitsLimit_nestingTooDeep bound column) hlimit

/-- Where the second attempt decides, the same holds but for a hidden refusal. -/
theorem runLine_withLimits_of_not_startsStatement (h : s.Reads line)
    (hfallback : s.settings.expressionFallback = true)
    (hstarts : (TokenStream.ofString line).startsStatement = false)
    (hpos : 0 < s.settings.limits.maxNestingDepth)
    (hlimit : ¬ (s.runLine line).outcome.HitsLimit) :
    ((s.withLimits wider).runLine line).session.store = (s.runLine line).session.store ∧
      (((s.withLimits wider).runLine line).outcome = (s.runLine line).outcome ∨
        s.HidesNesting line ∧ 1 < wider.maxNestingDepth) := by
  obtain ⟨first, hfirst, hcolumn⟩ := Statement.ofLine_eq_error_of_not_startsStatement hstarts
  obtain ⟨_, hnarrow, hsession, houtcome⟩ := runLine_of_not_startsStatement hfallback h hstarts
  obtain ⟨_, hwide, hsession', houtcome'⟩ := runLine_of_not_startsStatement
    (s := s.withLimits wider) hfallback (h.withLimits hlength) hstarts
  obtain rfl := Except.error.inj ((hfirst _).symm.trans hnarrow)
  obtain rfl := Except.error.inj ((hfirst _).symm.trans hwide)
  refine ⟨by rw [hsession, hsession']; rfl, ?_⟩
  rcases Expr.ofLine_of_le hnesting line with hsame | ⟨bound, column, hdeep⟩
  · left
    rw [houtcome, houtcome', ← hsame]
    rfl
  · simp only [hdeep] at houtcome
    by_cases hone : column = (TokenStream.ofString line).afterName.column
    · -- The refusal is at the column of the first error, which is reported instead.
      obtain ⟨hsingle, hstart⟩ := (Expr.ofLine_tooDeep_iff hpos).mp ⟨bound, hone ▸ hdeep⟩
      by_cases hmore : 1 < wider.maxNestingDepth
      · exact Or.inr ⟨⟨hfallback, hsingle, hstart⟩, hmore⟩
      · have hequal : (s.withLimits wider).settings.limits.maxNestingDepth =
            s.settings.limits.maxNestingDepth :=
          Int.le_antisymm (hsingle ▸ Int.not_lt.mp hmore) hnesting
        left
        rw [houtcome, houtcome', hequal, hdeep]
    · rw [if_neg] at houtcome
      · rw [houtcome] at hlimit
        exact absurd (Outcome.hitsLimit_nestingTooDeep bound column) hlimit
      · rw [hcolumn]
        exact fun heq => hone (Option.some.inj heq).symm

/-- A line that is read and hits no limit. -/
theorem runLine_withLimits_of_reads (h : s.Reads line)
    (hpos : 0 < s.settings.limits.maxNestingDepth)
    (hlimit : ¬ (s.runLine line).outcome.HitsLimit) :
    ((s.withLimits wider).runLine line).session.store = (s.runLine line).session.store ∧
      (((s.withLimits wider).runLine line).outcome = (s.runLine line).outcome ∨
        s.HidesNesting line ∧ 1 < wider.maxNestingDepth) := by
  by_cases hdecides : s.settings.expressionFallback = false ∨
      (TokenStream.ofString line).startsStatement = true
  · obtain ⟨houtcome, hstore⟩ :=
      runLine_withLimits_of_decided hlength hnesting h hdecides hlimit
    exact ⟨hstore, Or.inl houtcome⟩
  · obtain ⟨hfallback, hstarts⟩ := not_or.mp hdecides
    exact runLine_withLimits_of_not_startsStatement hlength hnesting h (by simpa using hfallback)
      (by simpa using hstarts) hpos hlimit

omit hlength hnesting in
/-- Within more than one level a hidden refusal gives way to another outcome. -/
theorem outcome_withLimits_ne_of_hidesNesting (hides : s.HidesNesting line) (h : s.Reads line)
    (hwide : (s.withLimits wider).Reads line) (hmore : 1 < wider.maxNestingDepth) :
    ((s.withLimits wider).runLine line).outcome ≠ (s.runLine line).outcome := by
  obtain ⟨name, got, bound, hnarrow, -⟩ := outcome_of_hidesNesting hides h
  obtain ⟨first, hfirst, hcolumn⟩ :=
    Statement.ofLine_eq_error_of_not_startsStatement hides.starts.startsStatement_eq_false
  obtain ⟨_, hfirst', -, houtcome⟩ := runLine_of_not_startsStatement (s := s.withLimits wider)
    hides.fallback hwide hides.starts.startsStatement_eq_false
  obtain rfl := Except.error.inj ((hfirst _).symm.trans hfirst')
  rw [hnarrow, houtcome]
  cases hread : Expr.ofLine wider.maxNestingDepth line with
  | ok e =>
    simp only [withLimits, hread]
    split <;> simp
  | error second =>
    obtain ⟨column, hcolumn', hlt⟩ := Expr.lt_column_of_startsEquality hmore hides.starts hread
    have hapart : some (TokenStream.ofString line).afterName.column ≠ some column :=
      fun heq => Nat.ne_of_lt hlt (Option.some.inj heq)
    simp only [withLimits, hread, hcolumn, hcolumn', if_neg hapart]
    intro heq
    obtain rfl := Outcome.error.inj heq
    exact hapart hcolumn'

end Wider

/-- A line that is not read, and not for its length, is blank or a comment: limits do not
matter to it. -/
theorem runLine_withLimits_of_not_reads (wider : Limits) (h : ¬ s.Reads line)
    (hlimit : ¬ (s.runLine line).outcome.HitsLimit) :
    ((s.withLimits wider).runLine line).session.store = (s.runLine line).session.store ∧
      ((s.withLimits wider).runLine line).outcome = (s.runLine line).outcome := by
  by_cases hblank : dropBlankStart line.toList = []
  · rw [runLine_of_blank hblank, runLine_of_blank hblank]
    exact ⟨rfl, rfl⟩
  · by_cases hcomment : ∃ text, dropBlankStart line.toList = '/' :: '/' :: text
    · obtain ⟨text, hcomment⟩ := hcomment
      rw [runLine_of_comment hcomment, runLine_of_comment hcomment]
      exact ⟨rfl, rfl⟩
    · exact absurd (reads_of_not_hitsLimit hblank (not_exists.mp hcomment) hlimit) h

/-- An equality is no comment. -/
theorem HidesNesting.reads (hides : s.HidesNesting line)
    (hlimit : ¬ (s.runLine line).outcome.HitsLimit) : s.Reads line := by
  obtain ⟨name, column, t, rest, next, htokens, -⟩ := hides.starts
  have hline : (s.withLimits ⟨unitLength line.toList, 0⟩).Reads line :=
    Reads.of_token htokens (by simp) (Int.le_refl _)
  exact reads_of_not_hitsLimit hline.notBlank hline.notComment hlimit

end Session

/-! ### All lines -/

/-- A line that hits no limit of its session runs in the same way within wider limits: the
variables after it are the same, and so is its outcome, but for one kind of line.  Where a
single level of nesting is allowed, a line that starts an equality is refused at the sign,
for the second of the two levels that an equality is charged; that it is no assignment is
found there too, and is reported.  Within more levels it has another outcome. -/
theorem Session.runLine_within_wider_limits {s : Session} {line : String} {wider : Limits}
    (hpos : 0 < s.settings.limits.maxNestingDepth)
    (hlength : s.settings.limits.maxLineLength ≤ wider.maxLineLength)
    (hnesting : s.settings.limits.maxNestingDepth ≤ wider.maxNestingDepth)
    (hlimit : ¬ (s.runLine line).outcome.HitsLimit) :
    let run := s.runLine line
    let run' := (s.withLimits wider).runLine line
    let column := (TokenStream.ofString line).afterName.column
    run'.session.store = run.session.store ∧
    (run'.outcome = run.outcome ↔ ¬ (s.HidesNesting line ∧ 1 < wider.maxNestingDepth)) ∧
    (s.HidesNesting line → ∃ name got bound,
      run.outcome = .error (.parse ⟨.missingAssignment name got, column⟩) ∧
      Expr.ofLine s.settings.limits.maxNestingDepth line =
        .error (.parse ⟨.nestingTooDeep bound, column⟩)) := by
  intro run run' column
  by_cases hreads : s.Reads line
  · obtain ⟨hstore, houtcome⟩ :=
      runLine_withLimits_of_reads hlength hnesting hreads hpos hlimit
    refine ⟨hstore, ⟨?_, houtcome.resolve_right⟩, fun hides => outcome_of_hidesNesting hides hreads⟩
    rintro heq ⟨hides, hmore⟩
    exact outcome_withLimits_ne_of_hidesNesting hides hreads (hreads.withLimits hlength) hmore heq
  · obtain ⟨hstore, houtcome⟩ := runLine_withLimits_of_not_reads wider hreads hlimit
    exact ⟨hstore, iff_of_true houtcome fun hides => hreads (hides.1.reads hlimit),
      fun hides => absurd (hides.reads hlimit) hreads⟩

/-- Any other operator is charged one level, so a line that starts with it is not the
exception. -/
theorem Session.runLine_within_wider_limits_disjunction :
    let s : Session := ⟨{ limits := ⟨6, 1⟩ }, Store.empty.set "a" (.boolean true)⟩
    let wider : Limits := ⟨7, 5⟩
    0 < s.settings.limits.maxNestingDepth ∧
      s.settings.limits.maxLineLength ≤ wider.maxLineLength ∧
      s.settings.limits.maxNestingDepth ≤ wider.maxNestingDepth ∧
      ¬ (s.runLine "a or a").outcome.HitsLimit ∧
      ((s.withLimits wider).runLine "a or a").outcome =
        .expression (.binary (.logic .or) (.var "a") (.var "a")) (.boolean true) := by
  intro s wider
  have hwellFormed : ∀ k ∈ [Kind.name "a", .or .word, .name "a"], k.WellFormed := by
    simp only [List.forall_mem_cons]
    exact ⟨Kind.wellFormed_letter rfl rfl rfl, trivial, Kind.wellFormed_letter rfl rfl rfl, by simp⟩
  have hspelled : String.ofList (spelled [.name "a", .or .word, .name "a"]) = "a or a" := rfl
  have hline := lineWord_spelled hwellFormed
  have hstream := TokenStream.ofString_spelled hwellFormed
  rw [hspelled] at hline hstream
  have hstatement : Statement.ofLine 1 "a or a" =
      .error (.parse ⟨.missingAssignment "a" (.or .word), 2⟩) := by
    rw [Statement.ofLine, Reader.ofString, hstream]
    rfl
  have hexpression : Expr.ofLine 1 "a or a" =
      .ok (.binary (.logic .or) (.var "a") (.var "a")) := by
    rw [Expr.ofLine, Reader.ofString, hstream]
    rfl
  have hreads : s.Reads "a or a" := Reads.of_lineWord hline (by simp) (by decide)
  have hnarrow : (s.runLine "a or a").outcome =
      .expression (.binary (.logic .or) (.var "a") (.var "a")) (.boolean true) :=
    (runLine_of_expression_read rfl hreads (tryStatement_of_reading hstatement) rfl hexpression).2
  have hlimit : ¬ (s.runLine "a or a").outcome.HitsLimit := by
    rintro ⟨e, he, -⟩
    exact absurd (hnarrow.symm.trans he) (by simp)
  have hshown : ¬ (s.HidesNesting "a or a" ∧ 1 < wider.maxNestingDepth) := by
    rintro ⟨⟨-, -, name, column, t, rest, next, htokens, hkind, -⟩, -⟩
    rw [hstream] at htokens
    obtain rfl : _ = t := (List.cons.inj (List.cons.inj htokens).2).1
    exact absurd hkind (by simp)
  obtain ⟨-, hsame, -⟩ :=
    @Session.runLine_within_wider_limits s "a or a" wider (by decide) (by decide) (by decide) hlimit
  exact ⟨by decide, by decide, by decide, hlimit, (hsame.mpr hshown).trans hnarrow⟩

/-- An equality is charged two levels.  Within one, the line is said to be no assignment;
within two it is an expression, and the error is that the variable has no value. -/
theorem Session.not_runLine_within_wider_limits_equality :
    let s := Session.fresh { limits := ⟨100, 1⟩ }
    let wide := s.withLimits ⟨100, 2⟩
    (s.runLine "a == b").outcome = .error (.parse ⟨.missingAssignment "a" .equal, 2⟩) ∧
    (wide.runLine "a == b").outcome = .error (.eval (.undefinedVariable "a")) ∧
    ¬ ∀ (s : Session) (line : String) (wider : Limits), 0 < s.settings.limits.maxLineLength →
      0 < s.settings.limits.maxNestingDepth →
      s.settings.limits.maxLineLength ≤ wider.maxLineLength →
      s.settings.limits.maxNestingDepth ≤ wider.maxNestingDepth →
      ¬ (s.runLine line).outcome.HitsLimit →
      ((s.withLimits wider).runLine line).outcome = (s.runLine line).outcome ∧
        ((s.withLimits wider).runLine line).session.store = (s.runLine line).session.store := by
  intro s wide
  have hwellFormed : ∀ k ∈ [Kind.name "a", .equal, .name "b"], k.WellFormed := by
    simp only [List.forall_mem_cons]
    exact ⟨Kind.wellFormed_letter rfl rfl rfl, trivial, Kind.wellFormed_letter rfl rfl rfl, by simp⟩
  have hspelled : String.ofList (spelled [.name "a", .equal, .name "b"]) = "a == b" := rfl
  have hline := lineWord_spelled hwellFormed
  have hstream := TokenStream.ofString_spelled hwellFormed
  rw [hspelled] at hline hstream
  have hstatement : ∀ limit, Statement.ofLine limit "a == b" =
      .error (.parse ⟨.missingAssignment "a" .equal, 2⟩) := by
    intro limit
    rw [Statement.ofLine, Reader.ofString, hstream]
    rfl
  have hrefused : Expr.ofLine 1 "a == b" = .error (.parse ⟨.nestingTooDeep 1, 2⟩) := by
    rw [Expr.ofLine, Reader.ofString, hstream]
    rfl
  have hread : Expr.ofLine 2 "a == b" = .ok (.binary (.compare .eq) (.var "a") (.var "b")) := by
    rw [Expr.ofLine, Reader.ofString, hstream]
    rfl
  have hreads : ∀ limit, (s.withLimits ⟨100, limit⟩).Reads "a == b" :=
    fun limit => Reads.of_lineWord hline (by simp) (show (6 : Int) ≤ 100 by decide)
  have hnarrow : (s.runLine "a == b").outcome =
      .error (.parse ⟨.missingAssignment "a" .equal, 2⟩) :=
    (runLine_of_errors rfl (hreads 1) (tryStatement_of_reading (hstatement 1))
      (tryExpression_of_reading hrefused)).1
  have hwide : (wide.runLine "a == b").outcome = .error (.eval (.undefinedVariable "a")) :=
    (runLine_of_expression_read rfl (hreads 2) (tryStatement_of_reading (hstatement 2)) rfl
      hread).2
  refine ⟨hnarrow, hwide, fun hall => ?_⟩
  have hlimit : ¬ (s.runLine "a == b").outcome.HitsLimit := by
    rintro ⟨e, he, hcode⟩
    obtain rfl := Outcome.error.inj (hnarrow.symm.trans he)
    exact absurd hcode (by decide)
  obtain ⟨hsame, -⟩ :=
    hall s "a == b" ⟨100, 2⟩ (by decide) (by decide) (by decide) (by decide) hlimit
  exact absurd (hwide.symm.trans (hsame.trans hnarrow)) (by simp)

end Linewise
