/-
Output and messages are lines.

* `Outcome.Lined` — an outcome puts out lines, and its error quotes no line feed;
* `Outcome.shows`, `Outcome.PutsOutOne` — an outcome that shows something puts out one line,
  and every other one none;
* `Outcome.mem_failures_iff`, `Outcome.pairwise_failures` — the numbers of the lines that
  failed;
* `Session.Clean` — no value of a session is written with a line feed or a quote;
* `Clean.runLine`, `Clean.lined_runLine`, `putsOutOne_runLine` — a line keeps this, and its
  outcome is as described;
* `exec_puts_out_lines` — what that means for the output and the messages of any text.

Design notes: quotes are followed along with line feeds since a text that holds one could
not be written as a literal.  The names of a session need not be followed, because a
message quotes the names of its own line only.
-/
import Linewise.Proofs.Reading.Quotation
import Linewise.Proofs.Session.Composition
import Linewise.Proofs.Session.Phrase
import Mathlib.Data.List.Forall2

namespace Linewise

/-! ### Outcomes -/

namespace Outcome

/-- What the outcome puts out are lines, and so is what its error quotes. -/
structure Lined (o : Outcome) : Prop where
  output : ∀ l ∈ o.output, '\n' ∉ l.toList
  quoted : ∀ e, o = .error e → ∀ q ∈ e.quoted, '\n' ∉ q.toList

theorem lined_error {e : LineError} (h : ∀ q ∈ e.quoted, '\n' ∉ q.toList) : (error e).Lined := by
  refine ⟨by simp [output], fun e' he => ?_⟩
  obtain rfl := Outcome.error.inj he
  exact h

/-- Whether the outcome puts out a line: an echoed comment, a print or an expression. -/
def shows : Outcome → Bool
  | comment _ echoed => echoed
  | statement (.print _) _ _ => true
  | expression _ _ => true
  | _ => false

/-- The outcome puts out one line if it shows anything, and none otherwise. -/
def PutsOutOne (o : Outcome) : Prop :=
  if o.shows then ∃ l, o.output = [l] else o.output = []

theorem forall₂_output {outcomes : List Outcome} (h : ∀ o ∈ outcomes, o.PutsOutOne) :
    List.Forall₂ (fun o l => o.output = [l]) (outcomes.filter shows)
      (outcomes.flatMap Outcome.output) := by
  induction outcomes with
  | nil => exact .nil
  | cons o rest ih =>
    obtain ⟨ho, hrest⟩ := List.forall_mem_cons.mp h
    rw [List.flatMap_cons]
    unfold PutsOutOne at ho
    split at ho
    · next hshows =>
      obtain ⟨l, hl⟩ := ho
      rw [List.filter_cons_of_pos hshows, hl]
      exact .cons hl (ih hrest)
    · next hshows =>
      rw [List.filter_cons_of_neg hshows, ho]
      exact ih hrest

theorem error?_eq_some_iff {o : Outcome} {e : LineError} : o.error? = some e ↔ o = .error e := by
  cases o <;> simp [error?]

/-- The errors are those of the outcomes, each with the number of its outcome. -/
theorem mem_failures_iff {outcomes : List Outcome} {first n : Nat} {e : LineError} :
    (n, e) ∈ failures outcomes first ↔ ∃ i, n = first + i ∧ outcomes[i]? = some (.error e) := by
  induction outcomes generalizing first with
  | nil => simp [failures]
  | cons o rest ih =>
    rw [failures_cons, List.mem_append, ih]
    constructor
    · rintro (hhead | ⟨i, rfl, hi⟩)
      · obtain ⟨e', he', heq⟩ := Option.map_eq_some_iff.mp (Option.mem_toList.mp hhead)
        obtain ⟨rfl, rfl⟩ := Prod.mk.inj heq
        exact ⟨0, rfl, congrArg some (error?_eq_some_iff.mp he')⟩
      · exact ⟨i + 1, Nat.add_right_comm first 1 i, hi⟩
    · rintro ⟨_ | i, rfl, hi⟩
      · obtain rfl := Option.some.inj hi
        exact Or.inl List.mem_cons_self
      · exact Or.inr ⟨i, (Nat.add_right_comm first 1 i).symm, hi⟩

/-- The numbers of the lines that failed ascend. -/
theorem pairwise_failures (outcomes : List Outcome) (first : Nat) :
    ((failures outcomes first).map Prod.fst).Pairwise (· < ·) := by
  induction outcomes generalizing first with
  | nil => exact .nil
  | cons o rest ih =>
    rw [failures_cons]
    cases o.error? with
    | none => exact ih (first + 1)
    | some e =>
      refine List.pairwise_cons.mpr ⟨fun n hn => ?_, ih (first + 1)⟩
      obtain ⟨f, hf, rfl⟩ := List.mem_map.mp hn
      obtain ⟨i, hi, -⟩ := mem_failures_iff.mp hf
      show first < f.1
      omega

end Outcome

/-! ### Phrases -/

section Phrases

variable {s : Session} {line : String} {p : Phrase}

theorem Phrase.lined_outcome {store : Store} (hstore : store.Lacks '\n')
    (htexts : ∀ q, Kind.text q ∈ p.leaves → '\n' ∉ q.toList)
    (hnames : ∀ q, Kind.name q ∈ p.leaves → '\n' ∉ q.toList) : (p.outcome store).Lined := by
  have herror : ∀ {error : EvalError}, error.QuotesIn p.leaves '\n' →
      (Outcome.error (.eval error)).Lined :=
    fun hquotes => Outcome.lined_error fun q hq => (hquotes q hq).elim (hnames q) id
  cases p with
  | statement statement =>
    have hrun := Statement.settles_run rfl hstore htexts
    rw [outcome]
    cases h : statement.run store with
    | ok effect => exact ⟨(h ▸ hrun).of_ok.2, by simp⟩
    | error error => exact herror (h ▸ hrun).of_error
  | expression e =>
    have heval := Expr.settles_eval rfl hstore htexts
    rw [outcome]
    cases h : e.eval store with
    | ok value => exact ⟨List.forall_mem_singleton.mpr (h ▸ heval).of_ok, by simp⟩
    | error error => exact herror (h ▸ heval).of_error

/-- The texts and names of a phrase are parts of its line, and a text has no quotes. -/
theorem Session.leaves_of_phrase (h : s.phrase line = .ok p) :
    (∀ q, Kind.text q ∈ p.leaves → q.toList <:+: line.toList ∧ '"' ∉ q.toList) ∧
      ∀ q, Kind.name q ∈ p.leaves → q.toList <:+: line.toList := by
  obtain ⟨word, hline, hleaves⟩ := Phrase.exists_word_of_ofLine (ofLine_of_phrase h)
  exact ⟨fun q hq => ⟨hline.text_infix (hleaves hq), hline.quote_notMem (hleaves hq)⟩,
    fun q hq => hline.name_infix (hleaves hq)⟩

/-- An error of a line that cannot be read quotes parts of it. -/
theorem Session.quoted_of_phrase {error : LineError} (h : s.phrase line = .error error) :
    ∀ q ∈ error.quoted, q.toList <:+: line.toList := by
  cases hfallback : s.settings.expressionFallback with
  | true =>
    rw [phrase_of_fallback hfallback] at h
    exact Phrase.quoted_of_ofLine h
  | false =>
    cases hread : Statement.ofLine s.settings.limits.maxNestingDepth line with
    | ok statement => exact absurd ((phrase_of_statement hread).symm.trans h) (by simp)
    | error first =>
      obtain rfl := Except.error.inj ((phrase_of_refused hfallback hread).symm.trans h)
      exact Statement.quoted_of_ofLine hread

end Phrases

/-! ### Lines -/

namespace Session

/-- No value of the session is written with a line feed or a quote. -/
structure Clean (s : Session) : Prop where
  feed : s.store.Lacks '\n'
  quote : s.store.Lacks '"'

theorem clean_fresh (settings : Settings) : (fresh settings).Clean :=
  ⟨by simp [fresh, Store.Lacks], by simp [fresh, Store.Lacks]⟩

variable {s : Session} {line : String}

/-- A line assigns no character that is in none of its texts and in no value before. -/
theorem lacks_runLine {c : Char} (hc : Number.isWritten c = false) (hstore : s.store.Lacks c)
    (htexts : ∀ p, s.phrase line = .ok p → ∀ q, Kind.text q ∈ p.leaves → c ∉ q.toList) :
    (s.runLine line).session.store.Lacks c := by
  rcases s.runLine_cases line with ⟨statement, effect, htry, -, hsession⟩ |
    ⟨e, value, -, -, hsession⟩ | ⟨-, hsession⟩
  · -- Only a statement that runs changes the variables.
    have hphrase := phrase_of_statement (ofLine_of_tryStatement htry)
    have hrun := Statement.settles_run hc hstore (htexts _ hphrase)
    rw [run_of_tryStatement htry] at hrun
    rw [hsession]
    exact hrun.of_ok.1
  all_goals
    rw [hsession]
    exact hstore

/-- A line keeps the values of a session clean. -/
theorem Clean.runLine (h : s.Clean) (hline : '\n' ∉ line.toList) :
    (s.runLine line).session.Clean where
  feed := lacks_runLine rfl h.feed fun _ hp q hq hfeed =>
    hline (((leaves_of_phrase hp).1 q hq).1.mem hfeed)
  quote := lacks_runLine rfl h.quote fun _ hp q hq => ((leaves_of_phrase hp).1 q hq).2

theorem Clean.lined_runLine (h : s.Clean) (hline : '\n' ∉ line.toList) :
    (s.runLine line).outcome.Lined := by
  have hpart : ∀ q : String, q.toList <:+: line.toList → '\n' ∉ q.toList :=
    fun q hq hfeed => hline (hq.mem hfeed)
  rcases s.line_cases line with hblank | ⟨text, hcomment⟩ | ⟨hblank, hcomment, hfits⟩ | hreads
  · rw [runLine_of_blank hblank]
    exact ⟨by simp [Outcome.output], by simp⟩
  · rw [runLine_of_comment hcomment]
    refine ⟨?_, by simp⟩
    have htext : '\n' ∉ text := by
      intro hfeed
      refine hline ((List.dropWhile_sublist Text.isBlank).mem ?_)
      rw [← Text.dropBlankStart, hcomment]
      exact List.mem_cons_of_mem _ (List.mem_cons_of_mem _ hfeed)
    cases s.settings.echoComments with
    | true =>
      refine List.forall_mem_singleton.mpr (newline_notMem_after (by decide) ?_)
      rwa [String.toList_ofList]
    | false => simp [Outcome.output]
  · rw [runLine_of_not_fits hblank hcomment hfits]
    exact Outcome.lined_error (by simp [LineError.quoted])
  · rw [outcome_of_reads hreads]
    cases hp : s.phrase line with
    | ok p =>
      obtain ⟨htexts, hnames⟩ := leaves_of_phrase hp
      exact Phrase.lined_outcome h.feed (fun q hq => hpart q (htexts q hq).1)
        fun q hq => hpart q (hnames q hq)
    | error error => exact Outcome.lined_error fun q hq => hpart q (quoted_of_phrase hp q hq)

/-- A print puts out one line, and an assignment none. -/
theorem putsOutOne_runLine (s : Session) (line : String) :
    (s.runLine line).outcome.PutsOutOne := by
  rcases s.runLine_cases line with ⟨statement, effect, htry, ho, -⟩ | ⟨e, value, -, ho, -⟩ |
    ⟨ho | ⟨text, echoed, ho⟩ | ⟨error, ho⟩, -⟩
  · have hrun := run_of_tryStatement htry
    rw [ho]
    cases statement with
    | assign name e =>
      obtain ⟨value, -, hmade⟩ := bind_eq_ok_iff.mp hrun
      obtain rfl := Except.ok.inj hmade
      rfl
    | print e =>
      obtain ⟨value, -, hmade⟩ := bind_eq_ok_iff.mp hrun
      obtain rfl := Except.ok.inj hmade
      exact ⟨_, rfl⟩
  · rw [ho]
    exact ⟨_, rfl⟩
  · rw [ho]
    rfl
  · rw [ho]
    cases echoed with
    | true => exact ⟨_, rfl⟩
    | false => rfl
  · rw [ho]
    rfl

/-! ### Runs -/

/-- Lines keep the values of a session clean, and all of their outcomes are lined. -/
theorem Clean.runLines (h : s.Clean) {lines : List String}
    (hlines : ∀ line ∈ lines, '\n' ∉ line.toList) :
    (s.runLines lines).session.Clean ∧ ∀ o ∈ (s.runLines lines).outcomes, o.Lined := by
  induction lines generalizing s with
  | nil => exact ⟨h, by simp [Session.runLines]⟩
  | cons line rest ih =>
    obtain ⟨hline, hrest⟩ := List.forall_mem_cons.mp hlines
    obtain ⟨hclean, hlined⟩ := ih (h.runLine hline) hrest
    exact ⟨hclean, List.forall_mem_cons.mpr ⟨h.lined_runLine hline, hlined⟩⟩

theorem Clean.runCalls (h : s.Clean) (sources : List String) :
    (s.runCalls (sources.map .exec)).2.Clean := by
  rw [runCalls_eq_runLines]
  refine (h.runLines fun line hline => ?_).1
  obtain ⟨call, hcall, hline⟩ := List.mem_flatMap.mp hline
  obtain ⟨source, -, rfl⟩ := List.mem_map.mp hcall
  exact Text.notMem_of_mem_lines hline

theorem Clean.text_of_mem_entries (h : s.Clean) {name text : String}
    (hmem : (name, .text text) ∈ s.store.entries) : '\n' ∉ text.toList ∧ '"' ∉ text.toList := by
  have hvalue := s.store.mem_entries_iff.mp hmem
  exact ⟨h.feed name _ hvalue, h.quote name _ hvalue⟩

/-- After any texts that a fresh session has run, and after each line of another one, no
text of the session has a line feed or a quote.  The output of this text is one line for
each print, expression and echoed comment, in turn, and its messages are one line for each
line that failed, with the number of that line, so that the numbers ascend. -/
theorem exec_puts_out_lines (settings : Settings) (sources : List String) (source : String) :
    let s := ((fresh settings).runCalls (sources.map .exec)).2
    let run := s.exec source
    let shown := run.outcomes.flatMap Outcome.output
    let message := fun f : Nat × LineError => s!"line {f.1}: {f.2.report.format}"
    (∀ k name text,
      (name, .text text) ∈ (s.runLines ((Text.lines source).take k)).session.store.entries →
        '\n' ∉ text.toList ∧ '"' ∉ text.toList) ∧
    run.stdout = Text.unlines shown ∧
    (∀ l ∈ shown, '\n' ∉ l.toList) ∧
    List.Forall₂ (fun o l => o.output = [l]) (run.outcomes.filter Outcome.shows) shown ∧
    run.stderr = Text.unlines (run.failures.map message) ∧
    (∀ f ∈ run.failures, '\n' ∉ (message f).toList) ∧
    (∀ n e, (n, e) ∈ run.failures ↔ ∃ i, n = i + 1 ∧ run.outcomes[i]? = some (.error e)) ∧
    (run.failures.map Prod.fst).Pairwise (· < ·) := by
  intro s run shown message
  have hclean : s.Clean := (clean_fresh settings).runCalls sources
  have hlines : ∀ line ∈ Text.lines source, '\n' ∉ line.toList :=
    fun _ => Text.notMem_of_mem_lines
  have hlined : ∀ o ∈ run.outcomes, o.Lined := (hclean.runLines hlines).2
  have hnumber : ∀ n e, (n, e) ∈ run.failures ↔
      ∃ i, n = i + 1 ∧ run.outcomes[i]? = some (.error e) := by
    intro n e
    simp only [Execution.failures, Outcome.mem_failures_iff, Nat.add_comm]
  refine ⟨?_, rfl, ?_, ?_, run.stderr_eq, ?_, hnumber, Outcome.pairwise_failures _ _⟩
  · intro k name text hmem
    have htake : ∀ line ∈ (Text.lines source).take k, '\n' ∉ line.toList :=
      fun line hline => hlines line (List.mem_of_mem_take hline)
    exact (hclean.runLines htake).1.text_of_mem_entries hmem
  · intro l hl
    obtain ⟨o, ho, hl⟩ := List.mem_flatMap.mp hl
    exact (hlined o ho).output l hl
  · exact Outcome.forall₂_output (forall_mem_runLines putsOutOne_runLine s _)
  · rintro ⟨n, e⟩ hf
    obtain ⟨i, -, hi⟩ := (hnumber n e).mp hf
    exact Execution.newline_notMem_complaint n ((hlined _ (List.mem_of_getElem? hi)).quoted e rfl)

end Session

end Linewise
