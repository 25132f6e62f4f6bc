/-
Three ways to a value: a bare expression, a print and an assignment.

* `Reads.of_statement`, `Reads.of_expression` — a line that either attempt accepts is
  read;
* `runLine_of_statement_accepted`, `runLine_of_expression_accepted` — the run of such a
  line;
* `runLine_print_agrees`, `runLine_assign_agrees` — each of the other ways against the
  bare expression;
* `runLine_routes_agree` — the same expression puts out the same line, or fails in the
  same way, on its own, in a print and in an assignment whose name is looked up.
-/
import Linewise.Proofs.Reading.Embedding
import Linewise.Proofs.Session.Dispatch

namespace Linewise

open Text

/-! ### Lines that are read -/

/-- No operand starts with a slash, so no expression can be taken for a comment. -/
theorem Derivation.exists_word_eq_cons {n : Nonterminal} (d : Derivation n) :
    ∃ k rest, d.word = k :: rest ∧ k ≠ .slash := by
  induction d with
  | operand d ih => exact ih
  | fold left sign op spelled right ihleft _ =>
    obtain ⟨k, rest, hword, hk⟩ := ihleft
    exact ⟨k, rest ++ sign :: right.word, by rw [word, hword, List.cons_append], hk⟩
  | negation d _ => exact ⟨_, _, rfl, by simp⟩
  | unnegated d ih => exact ih
  | signed sign op spelled d _ =>
    refine ⟨sign, d.word, rfl, ?_⟩
    rintro rfl
    exact absurd spelled (by simp [Kind.sign?])
  | unsigned d ih => exact ih
  | _ => exact ⟨_, _, rfl, by simp⟩

namespace Session

variable {s : Session} {line : String}

theorem Reads.of_statement {limit : Int} {statement : Statement}
    (h : Statement.ofLine limit line = .ok statement) (hfits : s.Fits line) : s.Reads line := by
  obtain ⟨d, hline, -⟩ := Statement.ofLine_eq_ok_iff.mp h
  cases d with
  | assign name value => exact of_lineWord hline (by simp) hfits
  | print value => exact of_lineWord hline (by simp) hfits

theorem Reads.of_expression {limit : Int} {e : Expr} (h : Expr.ofLine limit line = .ok e)
    (hfits : s.Fits line) : s.Reads line := by
  obtain ⟨d, hline, -⟩ := Expr.ofLine_eq_ok_iff.mp h
  obtain ⟨k, rest, hword, hk⟩ := d.exists_word_eq_cons
  rw [hword] at hline
  rcases hline with hline | hline
  · exact of_lineWord hline hk hfits
  · exact of_lineWord hline hk hfits

section Accepted

variable (hfallback : s.settings.expressionFallback = true) (hfits : s.Fits line)

include hfallback hfits

theorem runLine_of_statement_accepted {statement : Statement}
    (hread : Statement.ofLine s.settings.limits.maxNestingDepth line = .ok statement) :
    (∀ effect, statement.run s.store = .ok effect →
      (s.runLine line).outcome = .statement statement effect.value effect.printed ∧
        (s.runLine line).session = { s with store := effect.store }) ∧
    (∀ error, statement.run s.store = .error error →
      (s.runLine line).outcome = .error (.eval error) ∧ (s.runLine line).session = s) := by
  have hreads : s.Reads line := Reads.of_statement hread hfits
  refine ⟨fun effect hrun => ?_, fun error hrun => ?_⟩
  · rw [runLine_of_statement hreads (tryStatement_of_run hread hrun)]
    exact ⟨rfl, rfl⟩
  · have hfirst := tryStatement_of_run_error hread hrun
    cases hexpr : Expr.ofLine s.settings.limits.maxNestingDepth line with
    | ok e => exact absurd hexpr (not_ofLine_both hread e)
    | error second =>
      exact runLine_of_errors hfallback hreads hfirst (tryExpression_of_reading hexpr)

theorem runLine_of_expression_accepted {e : Expr}
    (hread : Expr.ofLine s.settings.limits.maxNestingDepth line = .ok e) :
    (s.runLine line).session = s ∧ (s.runLine line).outcome =
      match e.eval s.store with
      | .ok value => .expression e value
      | .error error => .error (.eval error) := by
  cases hstatement : Statement.ofLine s.settings.limits.maxNestingDepth line with
  | ok statement => exact absurd hread (not_ofLine_both hstatement e)
  | error first =>
    obtain ⟨column, hcolumn, -⟩ := Statement.column_le_of_ofLine hstatement
    exact runLine_of_expression_read hfallback (Reads.of_expression hread hfits)
      (tryStatement_of_reading hstatement) hcolumn hread

end Accepted

/-! ### Three routes -/

theorem Fits.of_append {before text after : String} (h : s.Fits (before ++ text ++ after)) :
    s.Fits text := by
  simp only [Fits, String.toList_append, unitLength_append] at h ⊢
  omega

theorem Fits.of_append_left {text after : String} (h : s.Fits (text ++ after)) : s.Fits text := by
  simp only [Fits, String.toList_append, unitLength_append] at h ⊢
  omega

section Routes

variable {text name : String} {e : Expr} (hfallback : s.settings.expressionFallback = true)
  (hread : Expr.ofLine s.settings.limits.maxNestingDepth text = .ok e) (hopen : EndsOpen text)

include hfallback hread hopen

theorem runLine_print_agrees (hfits : s.Fits ("print " ++ text ++ ";")) :
    (s.runLine text).session = s ∧ (s.runLine ("print " ++ text ++ ";")).session = s ∧
      ((∃ value, (s.runLine text).outcome = .expression e value ∧
          (s.runLine ("print " ++ text ++ ";")).outcome =
            .statement (.print e) none [value.toText]) ∨
        ∃ error, (s.runLine text).outcome = .error (.eval error) ∧
          (s.runLine ("print " ++ text ++ ";")).outcome = .error (.eval error)) := by
  obtain ⟨hsession, hbare⟩ := runLine_of_expression_accepted hfallback hfits.of_append hread
  obtain ⟨hvalue, herror⟩ :=
    runLine_of_statement_accepted hfallback hfits (Statement.ofLine_print hread hopen)
  cases heval : e.eval s.store with
  | ok value =>
    rw [heval] at hbare
    have hrun : (Statement.print e).run s.store = .ok ⟨s.store, none, [value.toText]⟩ := by
      rw [Statement.run, heval]
      rfl
    obtain ⟨hprint, hsession'⟩ := hvalue _ hrun
    exact ⟨hsession, hsession', Or.inl ⟨value, hbare, hprint⟩⟩
  | error error =>
    rw [heval] at hbare
    have hrun : (Statement.print e).run s.store = .error error := by
      rw [Statement.run, heval]
      rfl
    obtain ⟨hprint, hsession'⟩ := herror error hrun
    exact ⟨hsession, hsession', Or.inr ⟨error, hbare, hprint⟩⟩

theorem runLine_assign_agrees (hname : Identifier name)
    (hfits : s.Fits (name ++ " = " ++ text ++ ";")) :
    (∃ error, (s.runLine text).outcome = .error (.eval error) ∧
        (s.runLine (name ++ " = " ++ text ++ ";")).outcome = .error (.eval error)) ∨
      ∃ value, (s.runLine text).outcome = .expression e value ∧
        (s.runLine (name ++ " = " ++ text ++ ";")).outcome =
          .statement (.assign name e) (some value) [] ∧
        ((s.runLine (name ++ " = " ++ text ++ ";")).session.runLine name).outcome =
          .expression (.var name) value := by
  obtain ⟨hsession, hbare⟩ := runLine_of_expression_accepted hfallback hfits.of_append hread
  obtain ⟨hvalue, herror⟩ :=
    runLine_of_statement_accepted hfallback hfits (Statement.ofLine_assign hread hopen hname)
  cases heval : e.eval s.store with
  | error error =>
    rw [heval] at hbare
    have hrun : (Statement.assign name e).run s.store = .error error := by
      rw [Statement.run, heval]
      rfl
    exact Or.inl ⟨error, hbare, (herror error hrun).1⟩
  | ok value =>
    rw [heval] at hbare
    have hrun : (Statement.assign name e).run s.store =
        .ok ⟨s.store.set name value, some value, []⟩ := by
      rw [Statement.run, heval]
      rfl
    obtain ⟨hassign, hsession'⟩ := hvalue _ hrun
    refine Or.inr ⟨value, hbare, hassign, ?_⟩
    -- The name is read back in the session after the assignment.
    rw [hsession']
    have hfits' : s.Fits name := by
      rw [String.append_assoc, String.append_assoc] at hfits
      exact hfits.of_append_left
    obtain ⟨-, hnamed⟩ := runLine_of_expression_accepted
      (s := { s with store := s.store.set name value }) hfallback hfits' (Expr.ofLine_name _ hname)
    have hget : (Expr.var name).eval (s.store.set name value) = .ok value := by
      rw [Expr.eval, Store.get, Store.get?_set, if_pos rfl]
    rw [hget] at hnamed
    exact hnamed

end Routes

/-- An expression on a line of its own, in a print and in an assignment.  The line and
the print put out the same text and change no variable, or they fail in evaluation with
the same error.  The assignment fails with that error too, or its name put on a line
after it puts out the same text. -/
theorem runLine_routes_agree {text name : String} {e : Expr}
    (hfallback : s.settings.expressionFallback = true)
    (hread : Expr.ofLine s.settings.limits.maxNestingDepth text = .ok e) (hopen : EndsOpen text)
    (hname : Identifier name) :
    let bare := s.runLine text
    let printed := s.runLine ("print " ++ text ++ ";")
    let assigned := s.runLine (name ++ " = " ++ text ++ ";")
    let named := assigned.session.runLine name
    (s.Fits ("print " ++ text ++ ";") →
      bare.session = s ∧ printed.session = s ∧
      ((∃ shown, bare.outcome.output = [shown] ∧ printed.outcome.output = [shown]) ∨
        ∃ error, bare.outcome = .error (.eval error) ∧ printed.outcome = .error (.eval error))) ∧
    (s.Fits (name ++ " = " ++ text ++ ";") →
      (∃ shown, bare.outcome.output = [shown] ∧ assigned.outcome.error? = none ∧
          named.outcome.output = [shown]) ∨
        ∃ error, bare.outcome = .error (.eval error) ∧ assigned.outcome = .error (.eval error)) := by
  intro bare printed assigned named
  refine ⟨fun hfits => ?_, fun hfits => ?_⟩
  · obtain ⟨hbare, hprinted, ⟨value, ho, ho'⟩ | herror⟩ :=
      runLine_print_agrees hfallback hread hopen hfits
    · refine ⟨hbare, hprinted, Or.inl ⟨value.toText, ?_, ?_⟩⟩
      · rw [ho]
        rfl
      · rw [ho']
        rfl
    · exact ⟨hbare, hprinted, Or.inr herror⟩
  · obtain herror | ⟨value, ho, ho', ho''⟩ :=
      runLine_assign_agrees hfallback hread hopen hname hfits
    · exact Or.inr herror
    · refine Or.inl ⟨value.toText, ?_, ?_, ?_⟩
      · rw [ho]
        rfl
      · rw [ho']
        rfl
      · rw [ho'']
        rfl

/-- The expression may mention the name that it is assigned to. -/
theorem runLine_routes_agree_concatenation :
    let s : Session := ⟨{}, Store.empty.set "x" (.text "b")⟩
    let e : Expr := .binary (.arith .add) (.text "a") (.var "x")
    s.settings.expressionFallback = true ∧
      Expr.ofLine s.settings.limits.maxNestingDepth "\"a\" + x" = .ok e ∧
      EndsOpen "\"a\" + x" ∧ Identifier "x" ∧
      (s.runLine ("print " ++ "\"a\" + x" ++ ";")).outcome.output = ["ab"] ∧
      ((s.runLine ("x" ++ " = " ++ "\"a\" + x" ++ ";")).session.runLine "x").outcome.output =
        ["ab"] := by
  intro s e
  have hname : Identifier "x" := ⟨⟨'x', [], rfl, rfl, by simp⟩, by decide⟩
  have hwellFormed : ∀ k ∈ [Kind.text "a", .plus, .name "x"], k.WellFormed := by
    simp only [List.forall_mem_cons]
    exact ⟨show '"' ∉ "a".toList by decide, trivial, hname.wellFormed, by simp⟩
  have hstream := TokenStream.ofString_spelled hwellFormed
  rw [show String.ofList (spelled [.text "a", .plus, .name "x"]) = "\"a\" + x" from rfl] at hstream
  have hopen : EndsOpen "\"a\" + x" := by
    rw [EndsOpen, hstream]
    decide
  have hread : Expr.ofLine s.settings.limits.maxNestingDepth "\"a\" + x" = .ok e := by
    rw [Expr.ofLine, Reader.ofString, hstream]
    rfl
  obtain ⟨hprint, hassign⟩ := runLine_routes_agree (s := s) rfl hread hopen hname
  have hbare : (s.runLine "\"a\" + x").outcome = .expression e (.text "ab") :=
    (runLine_of_expression_accepted (s := s) rfl (by decide) hread).2
  refine ⟨rfl, hread, hopen, hname, ?_, ?_⟩
  · obtain ⟨-, -, ⟨shown, hshown, hprinted⟩ | ⟨error, herror, -⟩⟩ := hprint (by decide)
    · rw [hprinted, ← hshown, hbare]
      rfl
    · exact absurd (hbare.symm.trans herror) (by simp)
  · obtain ⟨shown, hshown, -, hnamed⟩ | ⟨error, herror, -⟩ := hassign (by decide)
    · rw [hnamed, ← hshown, hbare]
      rfl
    · exact absurd (hbare.symm.trans herror) (by simp)

end Session

end Linewise
