/-
Reading statements and the ends of lines.

* `Attempt.andThen_eq_ok_iff` — two readings in turn succeed if both do;
* `terminator_eq_ok_iff`, `endOfLine_eq_ok_iff`, `exists_ending_iff` — where a
  statement and a line can end;
* `statement_eq_ok_iff` — exactly which statements are read, from which tokens and
  within which limits.
-/
import Linewise.Proofs.Reading.Expression

namespace Linewise

open Linewise.Configuration Linewise.TokenStream

/-! ### Parts of a reading -/

theorem Attempt.andThen_eq_ok_iff {α β : Type} {a : Attempt α} {next : α → Reader → Attempt β}
    {value : β} {r : Reader} : a.andThen next = ⟨.ok value, r⟩ ↔
      ∃ u r', a = ⟨.ok u, r'⟩ ∧ next u r' = ⟨.ok value, r⟩ := by
  obtain ⟨error | u, r'⟩ := a
  · simp [andThen]
  · constructor
    · intro h
      exact ⟨u, r', rfl, h⟩
    · rintro ⟨u, r', heq, h⟩
      obtain ⟨rfl, rfl⟩ : _ = u ∧ _ = r' := by simpa using heq
      exact h

theorem Attempt.result_eq_ok_iff {α : Type} {a : Attempt α} {value : α} :
    a.result = .ok value ↔ ∃ r, a = ⟨.ok value, r⟩ := by
  constructor
  · intro h
    exact ⟨a.reader, by rw [← h]⟩
  · rintro ⟨r, rfl⟩
    rfl

namespace Reader

variable {r r' : Reader} {t : Token}

theorem peek_andThen_eq_ok_iff {α : Type} {next : Token → Reader → Attempt α} {value : α} :
    r.peek.andThen next = ⟨.ok value, r'⟩ ↔
      ∃ t, r.input.current = .ok t ∧ next t r = ⟨.ok value, r'⟩ := by
  rw [peek]
  cases r.input.current with
  | error error => simp [Attempt.andThen]
  | ok t => simp [Attempt.andThen]

theorem current_eq_ok_iff {s : TokenStream} (h : t.kind ≠ .endOfLine) :
    s.current = .ok t ↔ ∃ rest, s.tokens = t :: rest := by
  obtain ⟨_ | ⟨u, rest⟩, column | error⟩ := s
  · have hne : (⟨.endOfLine, column⟩ : Token) ≠ t := by
      rintro rfl
      exact h rfl
    simp [current, hne]
  · simp [current]
  · simp [current]
  · simp [current]

theorem terminator_eq_ok_iff : r.terminator = ⟨.ok (), r'⟩ ↔
    ∃ t rest next, r.input.tokens = t :: rest ∧ t.kind = .semicolon ∧ r' = r.skip ∧
      r'.input.current = .ok next := by
  rw [terminator, peek_andThen_eq_ok_iff]
  constructor
  · rintro ⟨t, hcur, h⟩
    split at h
    · next ht =>
      obtain ⟨rest, htokens⟩ := (current_eq_ok_iff (by simp [ht])).mp hcur
      obtain ⟨next, hnext, h⟩ := peek_andThen_eq_ok_iff.mp h
      obtain rfl := congrArg Attempt.reader h
      exact ⟨t, rest, next, htokens, ht, rfl, hnext⟩
    · exact absurd (congrArg Attempt.result h) (by simp [refuse])
  · rintro ⟨t, rest, next, htokens, ht, rfl, hnext⟩
    have hcur := (current_eq_ok_iff (s := r.input) (by simp [ht])).mpr ⟨rest, htokens⟩
    refine ⟨t, hcur, ?_⟩
    rw [if_pos ht]
    exact peek_andThen_eq_ok_iff.mpr ⟨next, hnext, rfl⟩

theorem current_eq_endOfLine_iff {s : TokenStream} (h : ∀ t ∈ s.tokens, t.kind ≠ .endOfLine) :
    (∃ t, s.current = .ok t ∧ t.kind = .endOfLine) ↔
      s.tokens = [] ∧ ∃ column, s.ending = .endOfLine column := by
  obtain ⟨_ | ⟨u, rest⟩, column | error⟩ := s
  · simp [current]
  · simp [current]
  · simp [current, h u List.mem_cons_self]
  · simp [current, h u List.mem_cons_self]

theorem endOfLine_eq_ok_iff (h : ∀ t ∈ r.input.tokens, t.kind ≠ .endOfLine) :
    r.endOfLine = ⟨.ok (), r'⟩ ↔
      r' = r ∧ r.input.tokens = [] ∧ ∃ column, r.input.ending = .endOfLine column := by
  rw [endOfLine, peek_andThen_eq_ok_iff, ← current_eq_endOfLine_iff h]
  constructor
  · rintro ⟨t, hcur, h⟩
    split at h
    · next ht => exact ⟨(congrArg Attempt.reader h).symm, t, hcur, ht⟩
    · exact absurd (congrArg Attempt.result h) (by simp [refuse])
  · rintro ⟨rfl, t, hcur, ht⟩
    exact ⟨t, hcur, if_pos ht⟩

/-- The line ends here, or one semicolon later if `terminated` allows it. -/
theorem exists_ending_iff {terminated : Bool} (h : ∀ t ∈ r.input.tokens, t.kind ≠ .endOfLine) :
    (∃ r', r.ending terminated = ⟨.ok (), r'⟩) ↔
      (∃ column, r.input.ending = .endOfLine column) ∧ (r.input.tokens = [] ∨
        terminated = true ∧ ∃ t, r.input.tokens = [t] ∧ t.kind = .semicolon) := by
  have hskip : ∀ t ∈ r.skip.input.tokens, t.kind ≠ .endOfLine :=
    fun t ht => h t (List.mem_of_mem_tail ht)
  simp only [ending, peek_andThen_eq_ok_iff]
  constructor
  · rintro ⟨r', t, hcur, hend⟩
    split at hend
    · next hsemi =>
      obtain ⟨hterm, ht⟩ : terminated = true ∧ t.kind = .semicolon := by simpa using hsemi
      obtain ⟨rest, htokens⟩ := (current_eq_ok_iff (by simp [ht])).mp hcur
      obtain ⟨-, hnil, hending⟩ := (endOfLine_eq_ok_iff hskip).mp hend
      have hrest : rest = [] := by simpa [skip, advance, htokens] using hnil
      exact ⟨hending, Or.inr ⟨hterm, t, by rw [htokens, hrest], ht⟩⟩
    · obtain ⟨-, hnil, hending⟩ := (endOfLine_eq_ok_iff h).mp hend
      exact ⟨hending, Or.inl hnil⟩
  · rintro ⟨hending, hnil | ⟨rfl, t, htokens, ht⟩⟩
    · obtain ⟨t, hcur, ht⟩ := (current_eq_endOfLine_iff h).mpr ⟨hnil, hending⟩
      refine ⟨r, t, hcur, ?_⟩
      rw [if_neg (by simp [ht])]
      exact (endOfLine_eq_ok_iff h).mpr ⟨rfl, hnil, hending⟩
    · refine ⟨r.skip, t, (current_eq_ok_iff (by simp [ht])).mpr ⟨[], htokens⟩, ?_⟩
      rw [if_pos (by simp [ht])]
      exact (endOfLine_eq_ok_iff hskip).mpr ⟨rfl, by simp [skip, advance, htokens], hending⟩

/-! ### Statements -/

/-- An expression with the semicolon that ends its statement. -/
theorem terminated_eq_ok_iff {f : Expr → Statement} {s : Statement} :
    (r.expression.andThen fun value r => r.terminator.andThen fun _ r => ⟨.ok (f value), r⟩) =
        ⟨.ok s, r'⟩ ↔
      ∃ (d : Derivation .expression) (consumed rest : List Token) (next : Token),
        r.input.tokens = consumed ++ rest ∧ d.word ++ [.semicolon] = consumed.map Token.kind ∧
        r' = { r with input.tokens := rest } ∧ r'.input.current = .ok next ∧
        d.Extends .semicolon ∧ Readable d.word ∧ d.charge ≤ room r.limit r.depth ∧
        f d.tree = s := by
  constructor
  · intro h
    obtain ⟨value, r₁, hexpr, h⟩ := Attempt.andThen_eq_ok_iff.mp h
    obtain ⟨u, r₂, hterm, h⟩ := Attempt.andThen_eq_ok_iff.mp h
    obtain ⟨d, consumed, left, next, htokens, hword, rfl, hnext, -, hext, hnum, hcharge, rfl⟩ :=
      expression_eq_ok_iff.mp hexpr
    obtain ⟨t, rest, after, hleft, ht, rfl, hafter⟩ := terminator_eq_ok_iff.mp hterm
    obtain rfl : left = t :: rest := hleft
    obtain rfl : t = next := by simpa [current] using hnext
    obtain ⟨hs, rfl⟩ : f d.tree = s ∧ _ = r' := by simpa using h
    refine ⟨d, consumed ++ [t], rest, after, by simp [htokens], by simp [hword, ht], rfl, hafter,
      ht ▸ hext, hnum, hcharge, hs⟩
  · rintro ⟨d, consumed, rest, next, htokens, hword, rfl, hnext, hext, hnum, hcharge, rfl⟩
    obtain ⟨taken, semicolon, rfl, htaken, hsemicolon⟩ := List.map_eq_append_iff.mp hword.symm
    obtain ⟨t, _, rfl, ht, hnil⟩ := List.map_eq_cons_iff.mp hsemicolon
    obtain rfl := List.map_eq_nil_iff.mp hnil
    rw [List.append_assoc, List.singleton_append] at htokens
    have hend : t.kind.EndsGroup := Kind.endsGroup_iff.mpr (by rw [ht]; rfl)
    have hexpr := expression_eq_ok_iff.mpr ⟨d, taken, t :: rest, t, htokens, htaken.symm, rfl, rfl,
      hend, ht.symm ▸ hext, hnum, hcharge, rfl⟩
    refine Attempt.andThen_eq_ok_iff.mpr ⟨d.tree, _, hexpr, ?_⟩
    exact Attempt.andThen_eq_ok_iff.mpr
      ⟨(), _, terminator_eq_ok_iff.mpr ⟨t, rest, next, rfl, ht, rfl, hnext⟩, rfl⟩

/-- Exactly which statements are read. -/
theorem statement_eq_ok_iff {s : Statement} : r.statement = ⟨.ok s, r'⟩ ↔
    ∃ (d : StatementDerivation) (consumed rest : List Token) (next : Token),
      r.input.tokens = consumed ++ rest ∧ d.word = consumed.map Token.kind ∧
      r' = { r with input.tokens := rest } ∧ r'.input.current = .ok next ∧
      d.value.Extends .semicolon ∧ Readable d.value.word ∧
      d.value.charge ≤ room r.limit r.depth ∧ d.tree = s := by
  rw [statement, peek_andThen_eq_ok_iff]
  constructor
  · rintro ⟨first, hfirst, h⟩
    split at h
    · next name hname =>
      obtain ⟨afterName, htokens⟩ := (current_eq_ok_iff (by simp [hname])).mp hfirst
      obtain ⟨sign, hsign, h⟩ := peek_andThen_eq_ok_iff.mp h
      split at h
      · next hassign =>
        obtain ⟨afterSign, htokens'⟩ := (current_eq_ok_iff (by simp [hassign])).mp hsign
        obtain ⟨d, consumed, rest, next, hleft, hword, rfl, hnext, hext, hnum, hcharge, htree⟩ :=
          terminated_eq_ok_iff.mp h
        obtain rfl : afterName = sign :: afterSign := by
          simpa [skip, advance, htokens] using htokens'
        have hsplit : afterSign = consumed ++ rest := by
          simpa [skip, advance, htokens] using hleft
        refine ⟨.assign name d, first :: sign :: consumed, rest, next, ?_, ?_, rfl, hnext, hext,
          hnum, hcharge, htree⟩
        · simp [htokens, hsplit]
        · simp [StatementDerivation.word, StatementDerivation.opening, StatementDerivation.value,
            hname, hassign, hword]
      · exact absurd (congrArg Attempt.result h) (by simp [refuse])
    · next hprint =>
      obtain ⟨afterPrint, htokens⟩ := (current_eq_ok_iff (by simp [hprint])).mp hfirst
      obtain ⟨d, consumed, rest, next, hleft, hword, rfl, hnext, hext, hnum, hcharge, htree⟩ :=
        terminated_eq_ok_iff.mp h
      have hsplit : afterPrint = consumed ++ rest := by
        simpa [skip, advance, htokens] using hleft
      refine ⟨.print d, first :: consumed, rest, next, ?_, ?_, rfl, hnext, hext, hnum, hcharge,
        htree⟩
      · simp [htokens, hsplit]
      · simp [StatementDerivation.word, StatementDerivation.opening, StatementDerivation.value,
          hprint, hword]
    · exact absurd (congrArg Attempt.result h) (by simp [refuse])
  · rintro ⟨d, consumed, rest, next, htokens, hword, rfl, hnext, hext, hnum, hcharge, rfl⟩
    cases d with
    | assign name d =>
      obtain ⟨first, us, rfl, hname, hus⟩ := List.map_eq_cons_iff.mp hword.symm
      obtain ⟨sign, vs, rfl, hassign, hvs⟩ := List.map_eq_cons_iff.mp hus
      refine ⟨first, (current_eq_ok_iff (by simp [hname])).mpr ⟨_, htokens⟩, ?_⟩
      rw [hname]
      have hrest : r.skip.input.tokens = sign :: (vs ++ rest) := by
        simp [skip, advance, htokens]
      have hsign := (current_eq_ok_iff (s := r.skip.input) (by simp [hassign])).mpr ⟨_, hrest⟩
      refine peek_andThen_eq_ok_iff.mpr ⟨sign, hsign, ?_⟩
      rw [if_pos hassign]
      refine terminated_eq_ok_iff.mpr ⟨d, vs, rest, next, ?_, hvs.symm, rfl, hnext, hext, hnum,
        hcharge, rfl⟩
      simp [skip, advance, htokens]
    | print d =>
      obtain ⟨first, us, rfl, hprint, hus⟩ := List.map_eq_cons_iff.mp hword.symm
      refine ⟨first, (current_eq_ok_iff (by simp [hprint])).mpr ⟨_, htokens⟩, ?_⟩
      rw [hprint]
      refine terminated_eq_ok_iff.mpr ⟨d, us, rest, next, ?_, hus.symm, rfl, hnext, hext, hnum,
        hcharge, rfl⟩
      simp [skip, advance, htokens]

end Reader

end Linewise
