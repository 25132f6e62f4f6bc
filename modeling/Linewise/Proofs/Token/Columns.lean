/-
Where the tokens of a line stand.

* `TokenStream.columns` — the columns of the tokens of a stream, and that at which
  it ends;
* `pairwise_columns_scan` — along a line the columns ascend;
* `TokenStream.column` — the column of the next token, the least that is left.
-/
import Linewise.Proofs.Token.Scan

namespace Linewise

open Text

/-- The column at which a line ends, or at which it cannot be read on. -/
def Ending.column : Ending → Nat
  | endOfLine column => column
  | failed error => error.column

namespace TokenStream

/-- The columns of the tokens of a stream, and that of its ending. -/
def columns (s : TokenStream) : List Nat :=
  s.tokens.map Token.column ++ [s.ending.column]

@[simp] theorem columns_nil (ending : Ending) : columns ⟨[], ending⟩ = [ending.column] := rfl

@[simp] theorem columns_cons (t : Token) (ts : List Token) (ending : Ending) :
    columns ⟨t :: ts, ending⟩ = t.column :: columns ⟨ts, ending⟩ := rfl

theorem le_of_mem_columns_scan (column : Nat) (cs : List Char) :
    ∀ k ∈ (scan column cs).columns, column ≤ k := by
  induction column, cs using scan.induct with
  | case1 column => simp [scan, Ending.column]
  | case2 column c rest hblank ih =>
    rw [scan_blank hblank]
    intro k hk
    exact Nat.le_of_add_right_le (ih k hk)
  | case3 column c rest hblank fault hread =>
    rw [scan_fault (by simpa using hblank) hread]
    simp [Ending.column]
  | case4 column c rest hblank kind after hread ih =>
    rw [scan_token (by simpa using hblank) hread, columns_cons]
    intro k hk
    rcases List.mem_cons.mp hk with rfl | hk
    · exact Nat.le_refl _
    · exact Nat.le_of_add_right_le (ih k hk)

/-- Along a line the columns ascend: every token takes at least one unit. -/
theorem pairwise_columns_scan (column : Nat) (cs : List Char) :
    (scan column cs).columns.Pairwise (· < ·) := by
  induction column, cs using scan.induct with
  | case1 column => simp [scan]
  | case2 column c rest hblank ih =>
    rw [scan_blank hblank]
    exact ih
  | case3 column c rest hblank fault hread =>
    rw [scan_fault (by simpa using hblank) hread]
    simp
  | case4 column c rest hblank kind after hread ih =>
    rw [scan_token (by simpa using hblank) hread, columns_cons, List.pairwise_cons]
    refine ⟨fun k hk => ?_, ih⟩
    have hwidth := Kind.width_pos_of_readKind hread
    have hle := le_of_mem_columns_scan (column + kind.width) after k hk
    exact Nat.lt_of_lt_of_le (Nat.lt_add_of_pos_right hwidth) hle

/-! ### The next token -/

/-- The column of the next token, or that at which the stream ends. -/
def column (s : TokenStream) : Nat :=
  match s.tokens with
  | t :: _ => t.column
  | [] => s.ending.column

variable {s : TokenStream}

theorem column_mem_columns (s : TokenStream) : s.column ∈ s.columns := by
  obtain ⟨_ | ⟨t, ts⟩, ending⟩ := s
  · exact List.mem_singleton_self _
  · exact List.mem_cons_self

theorem column_eq_of_current_ok {t : Token} (h : s.current = .ok t) : t.column = s.column := by
  obtain ⟨_ | ⟨u, us⟩, column | error⟩ := s
  · obtain rfl : _ = t := by simpa [current] using h
    rfl
  · exact absurd h (by simp [current])
  · obtain rfl : u = t := by simpa [current] using h
    rfl
  · obtain rfl : u = t := by simpa [current] using h
    rfl

/-- Only after the last token a line cannot be read on. -/
theorem current_eq_error_iff {error : LexError} :
    s.current = .error error ↔ s.tokens = [] ∧ s.ending = .failed error := by
  obtain ⟨_ | ⟨t, ts⟩, column | fault⟩ := s <;> simp [current]

/-- After the last token the end of the line comes next. -/
theorem eq_of_current_nil {ending : Ending} {t : Token} (h : current ⟨[], ending⟩ = .ok t) :
    t.kind = .endOfLine ∧ ending = .endOfLine t.column := by
  cases ending with
  | failed error => exact absurd h (by simp [current])
  | endOfLine column =>
    obtain rfl : _ = t := Except.ok.inj h
    exact ⟨rfl, rfl⟩

theorem column_eq_of_current_error {error : LexError} (h : s.current = .error error) :
    error.column = s.column := by
  obtain ⟨tokens, ending⟩ := s
  obtain ⟨rfl, rfl⟩ : tokens = [] ∧ ending = .failed error := current_eq_error_iff.mp h
  rfl

theorem columns_advance_suffix (s : TokenStream) : s.advance.columns <:+ s.columns := by
  obtain ⟨_ | ⟨t, ts⟩, ending⟩ := s
  · exact List.suffix_refl _
  · exact List.suffix_cons _ _

/-- The next token of a line stands before all others. -/
theorem column_le_of_mem_columns (h : s.columns.Pairwise (· < ·)) :
    ∀ k ∈ s.columns, s.column ≤ k := by
  obtain ⟨_ | ⟨t, ts⟩, ending⟩ := s
  · simp [column]
  · intro k hk
    rcases List.mem_cons.mp hk with rfl | hk
    · exact Nat.le_refl _
    · exact Nat.le_of_lt ((List.pairwise_cons.mp h).1 k hk)

end TokenStream

end Linewise
