/-
What is read of a line stands in it.

* `TokenStream.StandsIn`, `standsIn_ofString` — the spellings of the tokens of a line are
  parts of it, and so is what the error at its end quotes;
* `Attempt.QuotesFrom` — an attempt fails, if it does, with an error that quotes only parts
  of a text, and leaves tokens that stand in it; attempts in turn keep this;
* `quotesFrom_expression`, `quotesFrom_statement`, `quotesFrom_whole` — the readings do so;
* `Phrase.quoted_of_ofLine` — so the error of a line that cannot be read quotes only parts
  of it;
* `Phrase.exists_word_of_ofLine` — the leaves of the tree of a line are tokens of it;
* `LineWord.name_infix`, `LineWord.text_infix`, `LineWord.quote_notMem` — so its names and
  texts stand in it, and a text has no quotes.

Design notes: an error quotes tokens that were taken before the one that it points at, as
the name before a missing assignment, so this is about the whole line and not about the
tokens from some column on.
-/
import Linewise.Proofs.Reading.Errors
import Linewise.Proofs.Reading.Line
import Linewise.Proofs.Texts
import Linewise.Shell

namespace Linewise

open Text

/-! ### Tokens -/

theorem quoted_of_readKind {c : Char} {rest : List Char} {fault : LexFault}
    (h : readKind c rest = .error fault) : ∀ q ∈ fault.quoted, q.toList = [c] := by
  unfold readKind at h
  repeat' split at h
  all_goals simp only [Except.error.injEq, reduceCtorEq] at h
  all_goals obtain rfl := h
  · simp [LexFault.quoted]
  · simp [LexFault.quoted]

/-- The tokens of the stream are spelled in the text, and what the error at its end quotes
is part of the text too. -/
structure TokenStream.StandsIn (s : TokenStream) (text : List Char) : Prop where
  token : ∀ t ∈ s.tokens, t.kind.spelling.toList <:+: text
  fault : ∀ error, s.ending = .failed error → ∀ q ∈ error.fault.quoted, q.toList <:+: text

namespace TokenStream

variable {s : TokenStream} {text text' : List Char}

theorem StandsIn.mono (h : s.StandsIn text) (htext : text <:+: text') : s.StandsIn text' where
  token t ht := (h.token t ht).trans htext
  fault error herror q hq := (h.fault error herror q hq).trans htext

theorem StandsIn.of_subset {tokens : List Token} (h : s.StandsIn text)
    (htokens : tokens ⊆ s.tokens) : StandsIn { s with tokens := tokens } text where
  token t ht := h.token t (htokens ht)
  fault := h.fault

theorem StandsIn.current (h : s.StandsIn text) {t : Token} (ht : s.current = .ok t) :
    t.kind.spelling.toList <:+: text := by
  obtain ⟨_ | ⟨u, rest⟩, column | error⟩ := s
  · obtain rfl := Except.ok.inj ht
    exact List.nil_infix
  · exact absurd ht (by simp [TokenStream.current])
  · obtain rfl := Except.ok.inj ht
    exact h.token u List.mem_cons_self
  · obtain rfl := Except.ok.inj ht
    exact h.token u List.mem_cons_self

theorem StandsIn.quoted_of_current (h : s.StandsIn text) {error : LexError}
    (herror : s.current = .error error) : ∀ q ∈ error.fault.quoted, q.toList <:+: text := by
  obtain ⟨_ | ⟨u, rest⟩, column | e⟩ := s
  · exact absurd herror (by simp [TokenStream.current])
  · obtain rfl := Except.error.inj herror
    exact h.fault e rfl
  · exact absurd herror (by simp [TokenStream.current])
  · exact absurd herror (by simp [TokenStream.current])

theorem standsIn_scan (column : Nat) (cs : List Char) : (scan column cs).StandsIn cs := by
  induction column, cs using scan.induct with
  | case1 column =>
    rw [scan]
    exact ⟨by simp, by simp⟩
  | case2 column c rest hblank ih =>
    rw [scan_blank hblank]
    exact ih.mono (List.suffix_cons c rest).isInfix
  | case3 column c rest hblank fault hread =>
    rw [scan_fault (by simpa using hblank) hread]
    refine ⟨by simp, fun error herror q hq => ?_⟩
    obtain rfl := Ending.failed.inj herror
    rw [quoted_of_readKind hread q hq]
    exact (List.prefix_append [c] rest).isInfix
  | case4 column c rest hblank kind after hread ih =>
    rw [scan_token (by simpa using hblank) hread]
    have hsplit : kind.spelling.toList ++ after = c :: rest := readKind_spelling hread
    have hafter := ih.mono (hsplit ▸ (List.suffix_append kind.spelling.toList after).isInfix)
    refine ⟨List.forall_mem_cons.mpr ⟨?_, hafter.token⟩, hafter.fault⟩
    exact hsplit ▸ (List.prefix_append kind.spelling.toList after).isInfix

/-- The tokens of a line are spelled in it. -/
theorem standsIn_ofString (line : String) : (ofString line).StandsIn line.toList :=
  standsIn_scan 0 line.toList

end TokenStream

/-! ### Attempts -/

/-- The error of the attempt quotes parts of the text only, and what the attempt leaves
stands in the text. -/
structure Attempt.QuotesFrom {α : Type} (a : Attempt α) (text : List Char) : Prop where
  quoted : ∀ error, a.result = .error error → ∀ q ∈ error.quoted, q.toList <:+: text
  input : a.reader.input.StandsIn text

theorem Attempt.QuotesFrom.andThen {α β : Type} {a : Attempt α} {text : List Char}
    {next : α → Reader → Attempt β} (h : a.QuotesFrom text)
    (hnext : ∀ value, (next value a.reader).QuotesFrom text) :
    (a.andThen next).QuotesFrom text := by
  rw [Attempt.andThen]
  split
  · next value _ => exact hnext value
  · next error herror =>
    refine ⟨fun error' herror' => ?_, h.input⟩
    obtain rfl := Except.error.inj herror'
    exact h.quoted error herror

namespace Configuration

variable {limit : Int} {c : Configuration} {t : Token} {error : ParseError}

theorem quoted_of_deepen {column depth : Nat} {expected : Expected} {frames : List Frame}
    (h : deepen limit column expected frames depth = .error error) : error.fault.quoted = [] := by
  rw [eq_of_deepen_error h]
  rfl

theorem quoted_of_openRightSide (h : c.openRightSide limit = .error error) :
    error.fault.quoted = [] := by
  unfold openRightSide at h
  split at h
  · exact quoted_of_deepen h
  · exact absurd h (by simp)

section Token

variable {text : List Char} (ht : t.kind.spelling.toList <:+: text)

include ht

/-- A token that is refused is all that the error quotes. -/
theorem quoted_of_shift? (h : c.shift? limit t = some (.error error)) :
    ∀ q ∈ error.fault.quoted, q.toList <:+: text := by
  obtain ⟨e, frames, depth, -, hnext⟩ | ⟨-, expected, frames, depth, -, -, hdeepen⟩ |
    ⟨spelling, hkind, -, hnumber⟩ := shifts_of_shift? h
  · exact absurd hnext (by simp)
  · simp [quoted_of_deepen hdeepen.symm]
  · obtain rfl := Except.error.inj hnumber
    rw [hkind] at ht
    exact List.forall_mem_singleton.mpr ht

theorem quoted_of_finish (h : c.finish t = .error error) :
    ∀ q ∈ error.fault.quoted, q.toList <:+: text := by
  unfold finish at h
  split at h
  · split at h
    · obtain rfl := Except.error.inj h
      exact List.forall_mem_singleton.mpr ht
    · exact absurd h (by simp)
  · obtain rfl := Except.error.inj h
    exact List.forall_mem_singleton.mpr ht

end Token

/-- The error of a run quotes tokens that it was given, and what it leaves is among them. -/
theorem run_quotes (c : Configuration) (limit : Int) {ending : Ending} {ts : List Token}
    {text : List Char} (h : TokenStream.StandsIn ⟨ts, ending⟩ text) :
    (∀ error, (c.run limit ending ts).result = .error error →
      ∀ q ∈ error.quoted, q.toList <:+: text) ∧
    (c.run limit ending ts).rest ⊆ ts := by
  -- By induction on the tokens: a run fails at the one in sight, or for lack of room.
  induction ts generalizing c with
  | nil =>
    cases ending with
    | failed error =>
      refine ⟨fun e he => ?_, List.Subset.refl []⟩
      obtain rfl := Except.error.inj he
      exact h.fault error rfl
    | endOfLine column =>
      refine ⟨fun e he => ?_, List.Subset.refl []⟩
      simp only [run] at he
      cases hopen : c.openRightSide limit with
      | error error =>
        rw [hopen] at he
        obtain rfl := Except.error.inj he
        simp [LineError.quoted, quoted_of_openRightSide hopen]
      | ok opened =>
        cases hfinish : opened.finish ⟨.endOfLine, column⟩ with
        | ok e => exact absurd he (by simp [hopen, Except.bind, hfinish])
        | error error =>
          obtain rfl : LineError.parse error = e := by
            simpa [hopen, Except.bind, hfinish] using he
          exact quoted_of_finish (t := ⟨.endOfLine, column⟩) List.nil_infix hfinish
  | cons t ts ih =>
    have ht := h.token t List.mem_cons_self
    rw [run]
    split
    · next error hopen =>
      refine ⟨fun e he => ?_, List.Subset.refl _⟩
      obtain rfl := Except.error.inj he
      simp [LineError.quoted, quoted_of_openRightSide hopen]
    · next opened hopen =>
      split
      · next next hshift =>
        obtain ⟨hquoted, hrest⟩ := ih next (h.of_subset (List.subset_cons_self t ts))
        exact ⟨hquoted, List.subset_cons_of_subset t hrest⟩
      · next error hshift =>
        refine ⟨fun e he => ?_, List.Subset.refl _⟩
        obtain rfl := Except.error.inj he
        exact quoted_of_shift? ht hshift
      · refine ⟨fun e he => ?_, List.Subset.refl _⟩
        cases hfinish : opened.finish t with
        | ok e => exact absurd he (by simp [hfinish])
        | error error =>
          obtain rfl : LineError.parse error = e := by simpa [hfinish] using he
          exact quoted_of_finish ht hfinish

end Configuration

namespace Reader

variable {α : Type} {r : Reader} {text : List Char}

theorem quotesFrom_ok (h : r.input.StandsIn text) (value : α) :
    (⟨.ok value, r⟩ : Attempt α).QuotesFrom text :=
  ⟨by simp, h⟩

theorem quotesFrom_refuse (h : r.input.StandsIn text) {t : Token} {fault : ParseFault}
    (hfault : ∀ q ∈ fault.quoted, q.toList <:+: text) :
    (r.refuse t fault : Attempt α).QuotesFrom text := by
  refine ⟨fun error herror => ?_, h⟩
  obtain rfl := Except.error.inj herror
  exact hfault

theorem quotesFrom_peek_andThen (h : r.input.StandsIn text) {next : Token → Reader → Attempt α}
    (hnext : ∀ t, t.kind.spelling.toList <:+: text → (next t r).QuotesFrom text) :
    (r.peek.andThen next).QuotesFrom text := by
  cases hcurrent : r.input.current with
  | ok t =>
    rw [peek_andThen_of_ok hcurrent]
    exact hnext t (h.current hcurrent)
  | error error =>
    rw [peek_andThen_of_error hcurrent]
    refine ⟨fun error' herror => ?_, h⟩
    obtain rfl := Except.error.inj herror
    exact h.quoted_of_current hcurrent

theorem standsIn_skip (h : r.input.StandsIn text) : r.skip.input.StandsIn text :=
  h.of_subset (List.tail_sublist r.input.tokens).subset

theorem quotesFrom_expression (h : r.input.StandsIn text) : r.expression.QuotesFrom text := by
  obtain ⟨hquoted, hrest⟩ := Configuration.run_quotes (Configuration.start r.depth) r.limit h
  exact ⟨hquoted, h.of_subset hrest⟩

theorem quotesFrom_terminator (h : r.input.StandsIn text) : r.terminator.QuotesFrom text := by
  refine quotesFrom_peek_andThen h fun t ht => ?_
  split
  · have hskip := standsIn_skip h
    exact quotesFrom_peek_andThen hskip fun _ _ => quotesFrom_ok hskip _
  · exact quotesFrom_refuse h (List.forall_mem_singleton.mpr ht)

theorem quotesFrom_terminated (h : r.input.StandsIn text) (f : Expr → Statement) :
    (r.expression.andThen fun value r => r.terminator.andThen fun _ r =>
      (⟨.ok (f value), r⟩ : Attempt Statement)).QuotesFrom text := by
  have hexpression := quotesFrom_expression h
  refine hexpression.andThen fun value => ?_
  have hterminator := quotesFrom_terminator hexpression.input
  exact hterminator.andThen fun _ => quotesFrom_ok hterminator.input _

theorem quotesFrom_statement (h : r.input.StandsIn text) : r.statement.QuotesFrom text := by
  refine quotesFrom_peek_andThen h fun first hfirst => ?_
  split
  · next name hname =>
    have hspelling : name.toList <:+: text := by
      rw [hname] at hfirst
      exact hfirst
    have hskip := standsIn_skip h
    refine quotesFrom_peek_andThen hskip fun sign hsign => ?_
    split
    · exact quotesFrom_terminated (standsIn_skip hskip) _
    · exact quotesFrom_refuse hskip
        (List.forall_mem_cons.mpr ⟨hspelling, List.forall_mem_singleton.mpr hsign⟩)
  · exact quotesFrom_terminated (standsIn_skip h) _
  · exact quotesFrom_refuse h (List.forall_mem_singleton.mpr hfirst)

theorem quotesFrom_endOfLine (h : r.input.StandsIn text) : r.endOfLine.QuotesFrom text := by
  refine quotesFrom_peek_andThen h fun t ht => ?_
  split
  · exact quotesFrom_ok h _
  · exact quotesFrom_refuse h (List.forall_mem_singleton.mpr ht)

theorem quotesFrom_ending (h : r.input.StandsIn text) (terminated : Bool) :
    (r.ending terminated).QuotesFrom text := by
  refine quotesFrom_peek_andThen h fun t _ => ?_
  split
  · exact quotesFrom_endOfLine (standsIn_skip h)
  · exact quotesFrom_endOfLine h

/-- A phrase with the end of its line. -/
theorem quotesFrom_whole {a : Attempt α} (h : a.QuotesFrom text) (terminated : Bool) :
    (a.andThen fun value r => (r.ending terminated).andThen fun _ r =>
      (⟨.ok value, r⟩ : Attempt α)).QuotesFrom text := by
  refine h.andThen fun value => ?_
  have hending := quotesFrom_ending h.input terminated
  exact hending.andThen fun _ => quotesFrom_ok hending.input _

end Reader

/-! ### Trees -/

theorem LineWord.spelling_infix {line : String} {word : List Kind} (h : LineWord line word) :
    ∀ k ∈ word, k.spelling.toList <:+: line.toList := by
  intro k hk
  obtain ⟨-, rfl⟩ := lineWord_iff.mp h
  obtain ⟨t, ht, rfl⟩ := List.mem_map.mp hk
  exact (TokenStream.standsIn_ofString line).token t ht

theorem LineWord.name_infix {line name : String} {word : List Kind} (h : LineWord line word)
    (hmem : Kind.name name ∈ word) : name.toList <:+: line.toList := by
  have hspelling := h.spelling_infix _ hmem
  exact hspelling

theorem LineWord.text_infix {line contents : String} {word : List Kind} (h : LineWord line word)
    (hmem : Kind.text contents ∈ word) : contents.toList <:+: line.toList := by
  have hquoted : (Kind.text contents).spelling.toList = '"' :: contents.toList ++ ['"'] := by
    simp [Kind.spelling]
  have hspelling := h.spelling_infix _ hmem
  rw [hquoted] at hspelling
  exact List.IsInfix.trans ⟨['"'], ['"'], rfl⟩ hspelling

/-- A text ends at the next quote, so it has none. -/
theorem LineWord.quote_notMem {line contents : String} {word : List Kind} (h : LineWord line word)
    (hmem : Kind.text contents ∈ word) : '"' ∉ contents.toList :=
  h.wellFormed _ hmem

theorem Derivation.leaves_subset_word {n : Nonterminal} (d : Derivation n) :
    d.tree.leaves ⊆ d.word := by
  induction d with
  | operand d ih => exact ih
  | fold left sign op spelled right ihleft ihright =>
    have hright := List.subset_cons_of_subset sign ihright
    exact List.append_subset.mpr ⟨List.subset_append_of_subset_left _ ihleft,
      List.subset_append_of_subset_right _ hright⟩
  | negation d ih => exact List.subset_cons_of_subset _ ih
  | unnegated d ih => exact ih
  | signed sign op spelled d ih => exact List.subset_cons_of_subset _ ih
  | unsigned d ih => exact ih
  | number s => exact List.Subset.refl _
  | boolean b => exact List.Subset.refl _
  | text s => exact List.Subset.refl _
  | group d ih =>
    exact List.subset_cons_of_subset _ (List.subset_append_of_subset_left _ ih)
  | name s => exact List.Subset.refl _

namespace Phrase

/-- The literals and names of a phrase that are evaluated, from left to right. -/
def leaves : Phrase → List Kind
  | statement s => s.leaves
  | expression e => e.leaves

variable {limit : Int} {line : String}

/-- The leaves of the tree of a line are tokens of the line. -/
theorem exists_word_of_ofLine {p : Phrase} (h : ofLine limit line = .ok p) :
    ∃ word, LineWord line word ∧ p.leaves ⊆ word := by
  unfold ofLine at h
  split at h
  · next s hread =>
    obtain rfl := Except.ok.inj h
    obtain ⟨d, hline, -, -, -, rfl⟩ := Statement.ofLine_eq_ok_iff.mp hread
    refine ⟨d.word, hline, ?_⟩
    have hvalue : d.value.word ⊆ d.word :=
      List.subset_append_of_subset_left _ (List.subset_append_right _ _)
    cases d with
    | assign name value => exact List.Subset.trans value.leaves_subset_word hvalue
    | print value => exact List.Subset.trans value.leaves_subset_word hvalue
  · split at h
    · next e hread =>
      obtain rfl := Except.ok.inj h
      obtain ⟨d, hline | hline, -, -, -, rfl⟩ := Expr.ofLine_eq_ok_iff.mp hread
      · exact ⟨_, hline, d.leaves_subset_word⟩
      · exact ⟨_, hline, List.subset_append_of_subset_left _ d.leaves_subset_word⟩
    · exact absurd h (by simp)

end Phrase

/-! ### Errors -/

section Errors

variable {limit : Int} {line : String} {error : LineError}

theorem Statement.quoted_of_ofLine (h : Statement.ofLine limit line = .error error) :
    ∀ q ∈ error.quoted, q.toList <:+: line.toList := by
  have hinput : (Reader.ofString limit line).input.StandsIn line.toList :=
    TokenStream.standsIn_ofString line
  exact (Reader.quotesFrom_whole (Reader.quotesFrom_statement hinput) false).quoted error h

theorem Expr.quoted_of_ofLine (h : Expr.ofLine limit line = .error error) :
    ∀ q ∈ error.quoted, q.toList <:+: line.toList := by
  have hinput : (Reader.ofString limit line).input.StandsIn line.toList :=
    TokenStream.standsIn_ofString line
  exact (Reader.quotesFrom_whole (Reader.quotesFrom_expression hinput) true).quoted error h

/-- The error of a line that cannot be read quotes parts of the line only. -/
theorem Phrase.quoted_of_ofLine (h : Phrase.ofLine limit line = .error error) :
    ∀ q ∈ error.quoted, q.toList <:+: line.toList := by
  unfold ofLine at h
  split at h
  · exact absurd h (by simp)
  · next first hfirst =>
    split at h
    · exact absurd h (by simp)
    · next second hsecond =>
      obtain rfl := Except.error.inj h
      unfold LineError.furthest
      split
      · exact Expr.quoted_of_ofLine hsecond
      · exact Statement.quoted_of_ofLine hfirst

end Errors

end Linewise
