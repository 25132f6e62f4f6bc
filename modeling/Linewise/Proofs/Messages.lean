/-
What messages quote.

* `LineError.quoted` — the texts that the message of an error repeats: tokens, names, the
  texts that are no number or truth value;
* `newline_notMem_message`, `newline_notMem_complaint` — a message stays on one line if
  these texts do.
-/
import Linewise.Session
import Linewise.Proofs.Number.Written

namespace Linewise

/-- No number is written with a line end in it. -/
theorem Number.newline_notMem_text (x : Float) : '\n' ∉ (text x).toList := by
  intro h
  exact absurd (isWritten_of_mem_text h) (by decide)

theorem newline_notMem_limitText (limit : Int) : '\n' ∉ (limitText limit).toList :=
  Number.newline_notMem_text _

theorem newline_notMem_append {a b : String} (ha : '\n' ∉ a.toList) (hb : '\n' ∉ b.toList) :
    '\n' ∉ (a ++ b).toList := by
  rw [String.toList_append, List.mem_append]
  exact not_or.mpr ⟨ha, hb⟩

/-- The words around what is quoted are given by their characters. -/
theorem newline_notMem_ofList {cs : List Char} (h : '\n' ∉ cs) :
    '\n' ∉ (String.ofList cs).toList := by
  rwa [String.toList_ofList]

theorem newline_notMem_after {before : List Char} {s : String} (hbefore : '\n' ∉ before)
    (hs : '\n' ∉ s.toList) : '\n' ∉ (String.ofList before ++ s).toList :=
  newline_notMem_append (newline_notMem_ofList hbefore) hs

theorem newline_notMem_between {before after : List Char} {s : String} (hbefore : '\n' ∉ before)
    (hs : '\n' ∉ s.toList) (hafter : '\n' ∉ after) :
    '\n' ∉ (String.ofList before ++ s ++ String.ofList after).toList :=
  newline_notMem_append (newline_notMem_after hbefore hs) (newline_notMem_ofList hafter)

/-- How a message names a token adds words and quotes to its spelling. -/
theorem Kind.newline_notMem_describe {k : Kind} (h : '\n' ∉ k.spelling.toList) :
    '\n' ∉ k.describe.toList := by
  unfold describe
  split
  · exact newline_notMem_after (by decide) h
  · simpa [spelling] using h
  · exact newline_notMem_between (by decide) h (by decide)
  · exact newline_notMem_ofList (by decide)
  · exact newline_notMem_between (by decide) h (by decide)

theorem BinaryOp.newline_notMem_symbol (op : BinaryOp) : '\n' ∉ op.symbol.toList := by
  rcases op with (_ | _ | _ | _) | (_ | _ | _ | _) | (_ | _) <;>
    exact newline_notMem_ofList (by decide)

/-- The texts that the message of a fault repeats. -/
def LexFault.quoted : LexFault → List String
  | unexpectedCharacter c => [c.toString]
  | unterminatedText => []

/-- The texts that the message of a fault repeats. -/
def ParseFault.quoted : ParseFault → List String
  | unexpectedToken got | missingTerminator got | mismatchedParentheses got
  | unrecognizedStatement got | trailingInput got => [got.spelling]
  | missingAssignment name got => [name, got.spelling]
  | invalidNumber spelling => [spelling]
  | nestingTooDeep _ => []

/-- The texts that the message of an error repeats. -/
def EvalError.quoted : EvalError → List String
  | undefinedVariable name => [name]
  | mixedComparison | textOperator _ => []
  | notNumeric text | notBoolean text => [text]

/-- The texts that the message of an error repeats. -/
def LineError.quoted : LineError → List String
  | lex e => e.fault.quoted
  | parse e => e.fault.quoted
  | eval e => e.quoted
  | tooLong _ => []

theorem LexFault.newline_notMem_message {fault : LexFault}
    (h : ∀ q ∈ fault.quoted, '\n' ∉ q.toList) : '\n' ∉ fault.message.toList := by
  cases fault with
  | unexpectedCharacter c => exact newline_notMem_after (by decide) (h _ List.mem_cons_self)
  | unterminatedText => exact newline_notMem_ofList (by decide)

theorem ParseFault.newline_notMem_message {fault : ParseFault}
    (h : ∀ q ∈ fault.quoted, '\n' ∉ q.toList) : '\n' ∉ fault.message.toList := by
  have hgot : ∀ got : Kind, got.spelling ∈ fault.quoted → '\n' ∉ got.describe.toList :=
    fun got hmem => Kind.newline_notMem_describe (h _ hmem)
  cases fault with
  | unexpectedToken got => exact newline_notMem_after (by decide) (hgot got List.mem_cons_self)
  | missingTerminator got => exact newline_notMem_after (by decide) (hgot got List.mem_cons_self)
  | mismatchedParentheses got =>
    exact newline_notMem_after (by decide) (hgot got List.mem_cons_self)
  | unrecognizedStatement got =>
    exact newline_notMem_after (by decide) (hgot got List.mem_cons_self)
  | missingAssignment name got =>
    refine newline_notMem_append (newline_notMem_between (by decide) ?_ (by decide)) ?_
    · exact h name List.mem_cons_self
    · exact hgot got (List.mem_cons_of_mem _ List.mem_cons_self)
  | invalidNumber spelling => exact newline_notMem_after (by decide) (h _ List.mem_cons_self)
  | trailingInput got =>
    exact newline_notMem_between (by decide) (hgot got List.mem_cons_self) (by decide)
  | nestingTooDeep limit =>
    exact newline_notMem_between (by decide) (newline_notMem_limitText limit) (by decide)

theorem EvalError.newline_notMem_message {e : EvalError}
    (h : ∀ q ∈ e.quoted, '\n' ∉ q.toList) : '\n' ∉ e.message.toList := by
  cases e with
  | undefinedVariable name =>
    exact newline_notMem_between (by decide) (h _ List.mem_cons_self) (by decide)
  | mixedComparison => exact newline_notMem_ofList (by decide)
  | textOperator op => exact newline_notMem_between (by decide) op.newline_notMem_symbol (by decide)
  | notNumeric text =>
    exact newline_notMem_between (by decide) (h _ List.mem_cons_self) (by decide)
  | notBoolean text =>
    exact newline_notMem_between (by decide) (h _ List.mem_cons_self) (by decide)

/-- The message of an error stays on one line if what it quotes does. -/
theorem LineError.newline_notMem_message {e : LineError}
    (h : ∀ q ∈ e.quoted, '\n' ∉ q.toList) : '\n' ∉ e.report.message.toList := by
  cases e with
  | lex e => exact LexFault.newline_notMem_message h
  | parse e => exact ParseFault.newline_notMem_message h
  | eval e => exact EvalError.newline_notMem_message h
  | tooLong limit =>
    exact newline_notMem_between (by decide) (newline_notMem_limitText limit) (by decide)

theorem newline_notMem_toString (n : Nat) : '\n' ∉ (toString n).toList := by
  intro h
  rw [Nat.toString_eq_repr, Nat.toList_repr] at h
  exact absurd (Number.isWritten_of_mem_toDigits h) (by decide)

theorem Report.newline_notMem_format {r : Report} (h : '\n' ∉ r.message.toList) :
    '\n' ∉ r.format.toList := by
  have htitle : '\n' ∉ r.stage.title.toList := by
    cases r.stage <;> exact newline_notMem_ofList (by decide)
  have hcolon : '\n' ∉ ": ".toList := newline_notMem_ofList (by decide)
  unfold format
  split
  · have hword : '\n' ∉ " error: ".toList := newline_notMem_ofList (by decide)
    exact newline_notMem_append (newline_notMem_append htitle hword) h
  · next column _ =>
    have hword : '\n' ∉ " error at column ".toList := newline_notMem_ofList (by decide)
    have hcolumn := newline_notMem_toString (column + 1)
    exact newline_notMem_append (newline_notMem_append (newline_notMem_append
      (newline_notMem_append htitle hword) hcolumn) hcolon) h

/-- The message for a line that failed is one line. -/
theorem Execution.newline_notMem_complaint (number : Nat) {e : LineError}
    (h : ∀ q ∈ e.quoted, '\n' ∉ q.toList) : '\n' ∉ (complaint number e).toList := by
  have hformat := Report.newline_notMem_format (LineError.newline_notMem_message h)
  exact newline_notMem_append
    (newline_notMem_between (by decide) (newline_notMem_toString number) (by decide)) hformat

end Linewise
