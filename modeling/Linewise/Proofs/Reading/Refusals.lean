/-
The token that a reading refuses.

* `Place.Rejects`, `Place.Refuses` — a token cannot come next, and a reading ends with an
  error for that;
* `Place.Reaches`, `Place.Stops` — tokens lead from one place to another, and to one at
  which a reading ends so;
* `Attempt.Leads` — an attempt comes to a given place, or it stops on the way or is too
  deeply nested; attempts in turn keep this;
* `leads_readOn`, `leads_statement`, `leads_ending_statement`, `leads_ending_expression` —
  the readings do;
* `FailsAtFirst`, `ofLine_fails_at_first` — so with room for its nesting a line is refused
  at the first token that no line of the grammar goes on with.

Design notes: where the text cannot be read on there is no token to reject, and the error is
that of the text.  It is met at the same place as a token would be, so both are refusals.
-/
import Linewise.Proofs.Reading.Places

namespace Linewise

open Linewise.Configuration Linewise.TokenStream

/-! ### Places and streams -/

namespace Place

/-- A token of the kind `k` cannot come next, or it is a number that cannot be read; the end
of the line can come where the line is complete. -/
def Rejects (p : Place) (k : Kind) : Prop :=
  (p.next? k = none ∨ ¬ Readable [k]) ∧ (k = .endOfLine → p.isEnd = false)

/-- At the place `p` of the stream a reading can only end with this error. -/
def Refuses (p : Place) (s : TokenStream) : LineError → Prop
  | .parse error => ∃ t, s.current = .ok t ∧ t.column = error.column ∧ p.Rejects t.kind
  | .lex error => s.current = .error error
  | _ => False

/-- The tokens of `s` before `s'` lead from `p` to `q`, and their numbers can be read. -/
def Reaches (p : Place) (s : TokenStream) (q : Place) (s' : TokenStream) : Prop :=
  s'.ending = s.ending ∧ ∃ before, s.tokens = before ++ s'.tokens ∧
    p.read? (before.map Token.kind) = some q ∧ Readable (before.map Token.kind)

/-- From `p` on the stream leads to a place at which a reading ends with this error. -/
def Stops (p : Place) (s : TokenStream) (error : LineError) : Prop :=
  ∃ q s', p.Reaches s q s' ∧ q.Refuses s' error

variable {p q q' : Place} {s s' s'' : TokenStream} {t : Token} {error : LineError}

theorem Reaches.refl (p : Place) (s : TokenStream) : p.Reaches s p s :=
  ⟨rfl, [], rfl, rfl, by simp [Readable]⟩

theorem Reaches.trans (h : p.Reaches s q s') (h' : q.Reaches s' q' s'') : p.Reaches s q' s'' := by
  obtain ⟨hending, before, htokens, hread, hnum⟩ := h
  obtain ⟨hending', before', htokens', hread', hnum'⟩ := h'
  refine ⟨hending'.trans hending, before ++ before', ?_, ?_, ?_⟩
  · rw [htokens, htokens', List.append_assoc]
  · rw [List.map_append, read?_append, hread]
    exact hread'
  · rw [List.map_append]
    exact readable_append.mpr ⟨hnum, hnum'⟩

/-- One token that can come next. -/
theorem Reaches.token {ts : List Token} {ending : Ending} (hnext : p.next? t.kind = some q)
    (hnum : Readable [t.kind]) : p.Reaches ⟨t :: ts, ending⟩ q ⟨ts, ending⟩ :=
  ⟨rfl, [t], rfl, by simp [hnext], hnum⟩

theorem Reaches.advance (hcurrent : s.current = .ok t) (hnext : p.next? t.kind = some q)
    (hnum : Readable [t.kind]) : p.Reaches s q s.advance := by
  have hkind : t.kind ≠ .endOfLine := by
    intro ht
    rw [ht, next?_endOfLine] at hnext
    exact absurd hnext (by simp)
  obtain ⟨rest, htokens⟩ := (Reader.current_eq_ok_iff hkind).mp hcurrent
  exact ⟨rfl, [t], by simp [TokenStream.advance, htokens], by simp [hnext], hnum⟩

theorem Reaches.stops (h : p.Reaches s q s') (hstops : q.Stops s' error) : p.Stops s error := by
  obtain ⟨last, s'', hreaches, hrefuses⟩ := hstops
  exact ⟨last, s'', h.trans hreaches, hrefuses⟩

theorem Refuses.stops (h : p.Refuses s error) : p.Stops s error :=
  ⟨p, s, Reaches.refl p s, h⟩

/-- Within an expression that is not complete a token is rejected if the stance does not
admit it. -/
theorem rejects_value {alone : Bool} {stance : Stance} {k : Kind} (hnone : stance.next? k = none)
    (hopen : stance ≠ .operator 0) : (value alone stance).Rejects k := by
  refine ⟨Or.inl ?_, fun _ => ?_⟩
  · rw [next?_value_of_none alone hnone]
    exact if_neg fun h => hopen h.1
  · rcases alone with _ | _
    · rfl
    · rcases stance with _ | _ | _ <;> first | rfl | exact absurd rfl hopen

theorem rejects_of_unreadable {k : Kind} (h : ¬ Readable [k]) : p.Rejects k := by
  refine ⟨Or.inr h, ?_⟩
  rintro rfl
  exact absurd (readable_singleton (by simp)) h

end Place

/-! ### Attempts -/

/-- From the place `p` of the stream `s` the attempt leads to a place and a stream that `Q`
says something about, or it stops on the way or is too deeply nested. -/
structure Attempt.Leads {α : Type} (a : Attempt α) (p : Place) (s : TokenStream)
    (Q : Place → TokenStream → Prop) : Prop where
  of_ok : ∀ value, a.result = .ok value → ∃ q, p.Reaches s q a.reader.input ∧ Q q a.reader.input
  of_error : ∀ error, a.result = .error error →
    (∃ limit column, error = .parse ⟨.nestingTooDeep limit, column⟩) ∨ p.Stops s error

namespace Attempt.Leads

variable {α β : Type} {a : Attempt α} {p q : Place} {s s' : TokenStream}
  {Q R : Place → TokenStream → Prop}

theorem of_reaches (h : p.Reaches s q s') (ha : a.Leads q s' Q) : a.Leads p s Q where
  of_ok value hvalue := by
    obtain ⟨last, hreaches, hlast⟩ := ha.of_ok value hvalue
    exact ⟨last, h.trans hreaches, hlast⟩
  of_error error herror := (ha.of_error error herror).imp_right h.stops

theorem of_result_error {error : LineError} (h : a.result = .error error)
    (herror : (∃ limit column, error = .parse ⟨.nestingTooDeep limit, column⟩) ∨
      p.Stops s error) : a.Leads p s Q where
  of_ok _ := by simp [h]
  of_error error' herror' := by
    obtain rfl := Except.error.inj (h.symm.trans herror')
    exact herror

theorem andThen {next : α → Reader → Attempt β} (h : a.Leads p s Q)
    (hnext : ∀ value q, Q q a.reader.input → (next value a.reader).Leads q a.reader.input R) :
    (a.andThen next).Leads p s R := by
  rw [Attempt.andThen]
  split
  · next value hvalue =>
    obtain ⟨q, hreaches, hq⟩ := h.of_ok value hvalue
    exact of_reaches hreaches (hnext value q hq)
  · next error herror => exact of_result_error rfl (h.of_error error herror)

end Attempt.Leads

namespace Reader

variable {α : Type} {r : Reader} {p q : Place} {t : Token} {Q : Place → TokenStream → Prop}

theorem leads_ok (value : α) (h : Q p r.input) :
    (⟨.ok value, r⟩ : Attempt α).Leads p r.input Q where
  of_ok _ _ := ⟨p, Place.Reaches.refl p _, h⟩
  of_error _ := by simp

theorem leads_refuse {fault : ParseFault} (hcurrent : r.input.current = .ok t)
    (h : p.Rejects t.kind) : (r.refuse t fault : Attempt α).Leads p r.input Q :=
  .of_result_error rfl (Or.inr (Place.Refuses.stops ⟨t, hcurrent, rfl, h⟩))

theorem leads_peek_andThen {next : Token → Reader → Attempt α}
    (h : ∀ t, r.input.current = .ok t → (next t r).Leads p r.input Q) :
    (r.peek.andThen next).Leads p r.input Q := by
  cases hcurrent : r.input.current with
  | ok t =>
    rw [peek_andThen_of_ok hcurrent]
    exact h t hcurrent
  | error error =>
    rw [peek_andThen_of_error hcurrent]
    exact .of_result_error rfl (Or.inr (Place.Refuses.stops hcurrent))

theorem leads_skip {a : Attempt α} (hcurrent : r.input.current = .ok t)
    (hnext : p.next? t.kind = some q) (hnum : Readable [t.kind])
    (h : a.Leads q r.skip.input Q) : a.Leads p r.input Q :=
  .of_reaches (.advance hcurrent hnext hnum) h

end Reader

/-! ### Expressions -/

namespace Configuration

variable {limit : Int} {c : Configuration} {t : Token}

/-- Reading an expression on from a configuration. -/
def readOn (limit : Int) (c : Configuration) (s : TokenStream) : Attempt Expr :=
  let reading := c.run limit s.ending s.tokens
  ⟨reading.result, ⟨⟨reading.rest, s.ending⟩, limit, reading.depth⟩⟩

/-- An expression is complete where an operator is due and no parenthesis is open. -/
theorem settles_finish (c : Configuration) (t : Token) :
    Settles (fun _ => c.stance = .operator 0)
      (fun error => c.stance ≠ .operator 0 ∧ error.column = t.column) (c.finish t) := by
  cases hexpected : c.expected with
  | operator left =>
    have hstance : c.stance = .operator (c.frames.countP Frame.isGroup) := by
      rw [stance, hexpected]
    rw [finish, hexpected]
    by_cases hany : c.frames.any Frame.isGroup = true
    · simp only [if_pos hany]
      refine .error ⟨?_, rfl⟩
      obtain ⟨f, hf, hgroup⟩ := List.any_eq_true.mp hany
      have hpos : 0 < c.frames.countP Frame.isGroup := List.countP_pos_iff.mpr ⟨f, hf, hgroup⟩
      rw [hstance]
      simp only [ne_eq, Stance.operator.injEq]
      omega
    · simp only [if_neg hany]
      refine .ok ?_
      have hnone : c.frames.countP Frame.isGroup = 0 := by
        rw [List.countP_eq_zero]
        intro f hf hgroup
        exact hany (List.any_eq_true.mpr ⟨f, hf, hgroup⟩)
      rw [hstance, hnone]
  | _ =>
    rw [finish, hexpected]
    exact .error ⟨by simp [stance, hexpected], rfl⟩

theorem fault_of_openRightSide {error : ParseError} (h : c.openRightSide limit = .error error) :
    error.fault = .nestingTooDeep limit := by
  unfold openRightSide at h
  split at h
  · rw [eq_of_deepen_error h]
  · exact absurd h (by simp)

/-- The expression is complete, and the next token cannot go on with it. -/
def EndsBefore (alone : Bool) (p : Place) (s : TokenStream) : Prop :=
  p = .value alone (.operator 0) ∧ ∃ t, s.current = .ok t ∧ (Stance.operator 0).next? t.kind = none

/-- An expression ends before a token that cannot come next, or the token is refused. -/
theorem leads_finish {alone : Bool} {s : TokenStream}
    (hopen : c.stance.next? t.kind = none) (hcurrent : s.current = .ok t) {a : Attempt Expr}
    (hresult : a.result = (c.finish t).mapError .parse) (hinput : a.reader.input = s) :
    a.Leads (.value alone c.stance) s (EndsBefore alone) := by
  have hfinish := settles_finish c t
  refine ⟨fun value hvalue => ?_, fun error herror => ?_⟩
  · rw [hresult, mapError_eq_ok_iff] at hvalue
    rw [hvalue] at hfinish
    have hstance := hfinish.of_ok
    rw [hinput]
    refine ⟨_, Place.Reaches.refl _ s, by rw [hstance], t, hcurrent, hstance ▸ hopen⟩
  · cases hend : c.finish t with
    | ok e => exact absurd herror (by simp [hresult, hend])
    | error refusal =>
      obtain rfl : LineError.parse refusal = error := by simpa [hresult, hend] using herror
      rw [hend] at hfinish
      obtain ⟨hstance, hcolumn⟩ := hfinish.of_error
      exact Or.inr (Place.Refuses.stops
        ⟨t, hcurrent, hcolumn.symm, Place.rejects_value hopen hstance⟩)

/-- A reading of an expression leads to its end, or it stops where the stance admits no
token. -/
theorem leads_readOn (alone : Bool) (ts : List Token) (ending : Ending) (c : Configuration) :
    (c.readOn limit ⟨ts, ending⟩).Leads (.value alone c.stance) ⟨ts, ending⟩
      (EndsBefore alone) := by
  -- By induction on the tokens: a token that is taken leads to the stance after it.
  induction ts generalizing c with
  | nil =>
    cases ending with
    | failed error => exact .of_result_error rfl (Or.inr (Place.Refuses.stops rfl))
    | endOfLine column =>
      cases hopen : c.openRightSide limit with
      | error error =>
        have hresult : (c.readOn limit ⟨[], .endOfLine column⟩).result = .error (.parse error) := by
          simp [readOn, run, hopen, Except.bind]
        exact .of_result_error hresult
          (Or.inl ⟨limit, error.column, by rw [← fault_of_openRightSide hopen]⟩)
      | ok opened =>
        rw [← stance_openRightSide hopen]
        exact leads_finish (Stance.next?_endOfLine _) rfl
          (by simp [readOn, run, hopen, Except.bind]) rfl
  | cons t ts ih =>
    cases hopen : c.openRightSide limit with
    | error error =>
      have hresult : (c.readOn limit ⟨t :: ts, ending⟩).result = .error (.parse error) := by
        simp [readOn, run, hopen]
      exact .of_result_error hresult
        (Or.inl ⟨limit, error.column, by rw [← fault_of_openRightSide hopen]⟩)
    | ok opened =>
      rw [← stance_openRightSide hopen]
      have hagrees := agrees_shift? limit opened t
      cases hshift : opened.shift? limit t with
      | none =>
        rw [hshift] at hagrees
        exact leads_finish hagrees rfl (by simp [readOn, run, hopen, hshift])
          (by simp [readOn, run, hopen, hshift])
      | some result =>
        rw [hshift] at hagrees
        cases result with
        | ok next =>
          obtain ⟨hnext, hnum⟩ := hagrees
          have hrun : c.readOn limit ⟨t :: ts, ending⟩ = next.readOn limit ⟨ts, ending⟩ := by
            simp only [readOn, run, hopen, hshift]
          rw [hrun]
          exact .of_reaches (.token (Place.next?_value alone hnext) hnum) (ih next)
        | error error =>
          have hresult : (c.readOn limit ⟨t :: ts, ending⟩).result = .error (.parse error) := by
            simp [readOn, run, hopen, hshift]
          refine .of_result_error hresult ?_
          rcases hagrees with ⟨bound, hfault⟩ | hunread
          · exact Or.inl ⟨bound, error.column, by rw [← hfault]⟩
          · refine Or.inr (Place.Refuses.stops ⟨t, rfl, ?_, Place.rejects_of_unreadable hunread⟩)
            exact ((pointsAt_shift? hshift).1 error rfl).symm

end Configuration

/-! ### Lines -/

namespace Reader

variable {r : Reader}

theorem leads_expression (alone : Bool) (r : Reader) :
    r.expression.Leads (.value alone (.operand true 0)) r.input (EndsBefore alone) :=
  leads_readOn alone r.input.tokens r.input.ending (start r.depth)

theorem leads_terminator {p : Place} (h : EndsBefore false p r.input) :
    r.terminator.Leads p r.input (fun q _ => q = .done) := by
  obtain ⟨rfl, t, hcurrent, hnone⟩ := h
  refine leads_peek_andThen fun t' hcurrent' => ?_
  obtain rfl : t = t' := Except.ok.inj (hcurrent.symm.trans hcurrent')
  have hnext := Place.next?_value_of_none false hnone
  split
  · next hsemicolon =>
    rw [if_pos ⟨rfl, hsemicolon⟩] at hnext
    refine leads_skip hcurrent hnext (readable_singleton (by simp [hsemicolon])) ?_
    exact leads_peek_andThen fun _ _ => leads_ok () rfl
  · next hsemicolon =>
    rw [if_neg fun h => hsemicolon h.2] at hnext
    exact leads_refuse hcurrent ⟨Or.inl hnext, fun _ => rfl⟩

/-- An expression with the semicolon that ends its statement. -/
theorem leads_terminated (r : Reader) (f : Expr → Statement) :
    (r.expression.andThen fun value r => r.terminator.andThen fun _ r =>
      (⟨.ok (f value), r⟩ : Attempt Statement)).Leads (.value false (.operand true 0)) r.input
        (fun q _ => q = .done) :=
  (leads_expression false r).andThen fun _ _ h =>
    (leads_terminator h).andThen fun _ _ h => leads_ok _ h

theorem leads_statement (r : Reader) :
    r.statement.Leads .start r.input (fun q _ => q = .done) := by
  refine leads_peek_andThen fun first hfirst => ?_
  split
  · next name hname =>
    refine leads_skip (q := .named) hfirst (by rw [hname]; rfl)
      (readable_singleton (by simp [hname])) ?_
    refine leads_peek_andThen fun sign hsign => ?_
    split
    · next hassign =>
      exact leads_skip hsign (by rw [hassign]; rfl) (readable_singleton (by simp [hassign]))
        (leads_terminated _ _)
    · next hassign =>
      refine leads_refuse hsign ⟨Or.inl ?_, fun _ => rfl⟩
      cases hkind : sign.kind <;> first | rfl | exact absurd hkind hassign
  · next hprint =>
    exact leads_skip hfirst (by rw [hprint]; rfl) (readable_singleton (by simp [hprint]))
      (leads_terminated _ _)
  · next hname hprint =>
    refine leads_refuse hfirst ⟨Or.inl ?_, fun _ => rfl⟩
    cases hkind : first.kind <;>
      first | rfl | exact absurd hkind (hname _) | exact absurd hkind hprint

/-- After a line that is complete only its end can come. -/
theorem leads_endOfLine {p : Place}
    (h : ∀ t, r.input.current = .ok t → t.kind ≠ .endOfLine → p.next? t.kind = none) :
    r.endOfLine.Leads p r.input (fun _ _ => True) := by
  refine leads_peek_andThen fun t hcurrent => ?_
  split
  · exact leads_ok () trivial
  · next hend => exact leads_refuse hcurrent ⟨Or.inl (h t hcurrent hend), fun ht => absurd ht hend⟩

theorem leads_ending_statement {p : Place} (h : p = .done) :
    (r.ending false).Leads p r.input (fun _ _ => True) := by
  subst h
  exact leads_peek_andThen fun t _ => leads_endOfLine fun _ _ _ => rfl

theorem leads_ending_expression {p : Place} (h : EndsBefore true p r.input) :
    (r.ending true).Leads p r.input (fun _ _ => True) := by
  obtain ⟨rfl, t, hcurrent, hnone⟩ := h
  have hnext := Place.next?_value_of_none true hnone
  refine leads_peek_andThen fun t' hcurrent' => ?_
  obtain rfl : t = t' := Except.ok.inj (hcurrent.symm.trans hcurrent')
  split
  · next hsemicolon =>
    have hkind : t.kind = .semicolon := by simpa using hsemicolon
    rw [if_pos ⟨rfl, hkind⟩] at hnext
    exact leads_skip hcurrent hnext (readable_singleton (by simp [hkind]))
      (leads_endOfLine fun _ _ _ => rfl)
  · next hsemicolon =>
    rw [if_neg fun h => hsemicolon (by simp [h.2])] at hnext
    refine leads_endOfLine fun u hu _ => ?_
    obtain rfl : t = u := Except.ok.inj (hcurrent.symm.trans hu)
    exact hnext

end Reader

/-- A phrase with the end of its line. -/
theorem Attempt.Leads.whole {α : Type} {a : Attempt α} {p : Place} {s : TokenStream}
    {Q : Place → TokenStream → Prop} {terminated : Bool} (h : a.Leads p s Q)
    (hending : ∀ (r : Reader) q, Q q r.input →
      (r.ending terminated).Leads q r.input (fun _ _ => True)) :
    (a.andThen fun value r => (r.ending terminated).andThen fun _ r =>
      (⟨.ok value, r⟩ : Attempt α)).Leads p s (fun _ _ => True) :=
  h.andThen fun _ q hq => (hending _ q hq).andThen fun _ _ _ => Reader.leads_ok _ trivial

/-- The error of a reading is that of the text, after the beginning of a word of `L`, or it
points at the first token with which no word of `L` goes on; the end of the line is refused if
its tokens are no word of `L`. -/
def FailsAtFirst (L : List Kind → Prop) (line : String) : LineError → Prop
  | .parse error =>
    (∃ before t rest, (TokenStream.ofString line).tokens = before ++ t :: rest ∧
      t.column = error.column ∧ Begins L (before.map Token.kind) ∧
      ¬ Begins L ((before ++ [t]).map Token.kind)) ∨
    ((TokenStream.ofString line).ending = .endOfLine error.column ∧
      Begins L ((TokenStream.ofString line).tokens.map Token.kind) ∧
      ¬ L ((TokenStream.ofString line).tokens.map Token.kind))
  | .lex error => tokenize line = .error error ∧
    Begins L ((TokenStream.ofString line).tokens.map Token.kind)
  | _ => False

/-- Where a reading stops is where no word goes on. -/
theorem Recognizes.failsAtFirst {p : Place} {L : List Kind → Prop} {line : String}
    {error : LineError} (h : Recognizes p L) (hstops : p.Stops (TokenStream.ofString line) error) :
    FailsAtFirst L line error := by
  obtain ⟨q, s', ⟨hending, before, htokens, hread, hnum⟩, hrefuses⟩ := hstops
  have hreadable : ∀ {ts : List Token}, ts ⊆ (TokenStream.ofString line).tokens →
      (Readable (ts.map Token.kind) ↔ OnePoint (ts.map Token.kind)) :=
    fun hts => TokenStream.readable_iff (List.map_subset _ hts)
  have hbefore : Begins L (before.map Token.kind) := by
    refine h.begins ((hreadable ?_).mp hnum) hnum hread
    rw [htokens]
    exact List.subset_append_left _ _
  obtain ⟨rest, ending⟩ := s'
  obtain rfl : ending = (TokenStream.ofString line).ending := hending
  have hall : rest = [] → (TokenStream.ofString line).tokens = before := by
    rintro rfl
    exact htokens.trans (List.append_nil before)
  rcases error with error | error | error | limit
  · obtain ⟨hnil, hfailed⟩ := current_eq_error_iff.mp hrefuses
    exact ⟨tokenize_eq_error_iff.mpr hfailed, hall hnil ▸ hbefore⟩
  · obtain ⟨t, hcurrent, hcolumn, hrejects, hend⟩ := hrefuses
    cases rest with
    | cons u rest =>
      obtain rfl : u = t := by simpa [TokenStream.current] using hcurrent
      refine Or.inl ⟨before, u, rest, htokens, hcolumn, hbefore, ?_⟩
      rw [List.map_append]
      rcases hrejects with hnone | hunread
      · exact h.not_begins hread hnone
      · rintro ⟨word, hword, hbegins⟩
        have hmem : [u] ⊆ (TokenStream.ofString line).tokens := by simp [htokens]
        refine hunread ((hreadable hmem).mpr fun s hs => ?_)
        exact h.onePoint hword s (hbegins.subset (List.mem_append_right _ hs))
    | nil =>
      obtain ⟨hkind, hline⟩ := eq_of_current_nil hcurrent
      refine Or.inr ⟨hcolumn ▸ hline, hall rfl ▸ hbefore, fun hword => ?_⟩
      obtain ⟨last, hlast, hcomplete⟩ := h.sound hword
      rw [hall rfl, hread] at hlast
      obtain rfl := Option.some.inj hlast
      exact absurd (hend hkind) (by simp [hcomplete])
  · exact hrefuses.elim
  · exact hrefuses.elim

/-- With two levels of nesting for each unit of a line, a line that is no statement or no
expression is refused at the first token with which none goes on. -/
theorem ofLine_fails_at_first {limit : Int} {line : String}
    (h : ((2 * Text.unitLength line.toList : Nat) : Int) ≤ limit) :
    (∀ error, Statement.ofLine limit line = .error error →
      FailsAtFirst StatementWord line error) ∧
    (∀ error, Expr.ofLine limit line = .error error →
      FailsAtFirst ExpressionWord line error) := by
  have hroom : ((totalLevels (TokenStream.ofString line).tokens : Nat) : Int) ≤ limit := by
    have hlevels := totalLevels_le (TokenStream.ofString line).tokens
    have hlength : (TokenStream.ofString line).tokens.length ≤ Text.unitLength line.toList :=
      TokenStream.length_tokens_scan_le 0 line.toList
    omega
  constructor
  · intro error herror
    have hleads := (Reader.leads_statement (Reader.ofString limit line)).whole
      fun _ _ h => Reader.leads_ending_statement h
    rcases hleads.of_error error herror with ⟨bound, column, rfl⟩ | hstops
    · exact absurd ⟨bound, column, herror⟩ (Statement.not_tooDeep_ofLine hroom)
    · exact recognizes_statement.failsAtFirst hstops
  · intro error herror
    have hleads := (Reader.leads_expression true (Reader.ofString limit line)).whole
      fun _ _ h => Reader.leads_ending_expression h
    rcases hleads.of_error error herror with ⟨bound, column, rfl⟩ | hstops
    · exact absurd ⟨bound, column, herror⟩ (Expr.not_tooDeep_ofLine hroom)
    · exact recognizes_expression.failsAtFirst hstops

/-- The semicolon comes where the parenthesis has to be closed. -/
theorem ofLine_fails_at_first_unclosed :
    ((2 * Text.unitLength "x = ( y ;".toList : Nat) : Int) ≤ 18 ∧
    Statement.ofLine 18 "x = ( y ;" = .error (.parse ⟨.mismatchedParentheses .semicolon, 8⟩) ∧
    FailsAtFirst StatementWord "x = ( y ;" (.parse ⟨.mismatchedParentheses .semicolon, 8⟩) := by
  have hlimit : ((2 * Text.unitLength "x = ( y ;".toList : Nat) : Int) ≤ 18 := by decide
  have hwellFormed : ∀ k ∈ [Kind.name "x", .assign, .leftParen, .name "y", .semicolon],
      k.WellFormed := by
    simp only [List.forall_mem_cons]
    exact ⟨Kind.wellFormed_letter rfl rfl rfl, trivial, trivial,
      Kind.wellFormed_letter rfl rfl rfl, trivial, by simp⟩
  have hspelled : String.ofList
      (spelled [.name "x", .assign, .leftParen, .name "y", .semicolon]) = "x = ( y ;" := rfl
  have hstream := TokenStream.ofString_spelled hwellFormed
  rw [hspelled] at hstream
  have herror : Statement.ofLine 18 "x = ( y ;" =
      .error (.parse ⟨.mismatchedParentheses .semicolon, 8⟩) := by
    rw [Statement.ofLine, Reader.ofString, hstream]
    rfl
  obtain ⟨hstatement, -⟩ := ofLine_fails_at_first hlimit
  exact ⟨hlimit, herror, hstatement _ herror⟩

end Linewise
