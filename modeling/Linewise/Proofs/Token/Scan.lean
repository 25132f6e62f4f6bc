/-
What the tokens of a line are.

* `scan_blank`, `scan_token`, `scan_fault` — the steps of the scan;
* `forall_mem_scan` — what holds of every token that can be read holds of every
  token of a line;
* `length_tokens_scan_le` — there are no more tokens than units in a line;
* `LineWord` — the tokens of a line that is scanned to its end;
* `readable_iff` — they hold numerals only exactly if each number among them has at most
  one point.
-/
import Linewise.Proofs.Grammar
import Linewise.Proofs.Number.Points

namespace Linewise

open Text

/-- A token takes at least one unit, because its spelling is not empty. -/
theorem Kind.width_pos_of_readKind {c : Char} {rest after : List Char} {kind : Kind}
    (h : readKind c rest = .ok (kind, after)) : 0 < kind.width := by
  obtain ⟨d, ds, hspelling⟩ := List.exists_cons_of_ne_nil (Kind.spelling_ne_nil_of_readKind h)
  rw [Kind.width, hspelling, unitLength_cons]
  exact Nat.add_pos_left (unitWidth_pos d) _

theorem Kind.ne_endOfLine_of_readKind {c : Char} {rest after : List Char} {kind : Kind}
    (h : readKind c rest = .ok (kind, after)) : kind ≠ .endOfLine := by
  rintro rfl
  exact Kind.spelling_ne_nil_of_readKind h rfl

namespace TokenStream

variable {column : Nat} {c : Char} {rest after : List Char} {kind : Kind}

/-! ### Steps -/

theorem scan_blank (h : isBlank c = true) :
    scan column (c :: rest) = scan (column + unitWidth c) rest := by
  rw [scan, if_pos h]

theorem scan_token (h : isBlank c = false) (hread : readKind c rest = .ok (kind, after)) :
    scan column (c :: rest) = { scan (column + kind.width) after with
      tokens := ⟨kind, column⟩ :: (scan (column + kind.width) after).tokens } := by
  rw [scan, if_neg (by simp [h])]
  split
  · next hfault => exact absurd (hread.symm.trans hfault) (by simp)
  · next hkind =>
    obtain ⟨rfl, rfl⟩ : kind = _ ∧ after = _ := by simpa using hread.symm.trans hkind
    rfl

theorem scan_fault {fault : LexFault} (h : isBlank c = false)
    (hread : readKind c rest = .error fault) :
    scan column (c :: rest) = ⟨[], .failed ⟨fault, column⟩⟩ := by
  rw [scan, if_neg (by simp [h])]
  split
  · next hfault =>
    obtain rfl : fault = _ := by simpa using hread.symm.trans hfault
    rfl
  · next hkind => exact absurd (hread.symm.trans hkind) (by simp)

/-! ### Every token of a line -/

theorem forall_mem_scan {P : Kind → Prop}
    (h : ∀ {c rest kind after}, readKind c rest = .ok (kind, after) → P kind) (column : Nat)
    (cs : List Char) : ∀ t ∈ (scan column cs).tokens, P t.kind := by
  induction column, cs using scan.induct with
  | case1 column => simp [scan]
  | case2 column c rest hblank ih =>
    rw [scan_blank hblank]
    exact ih
  | case3 column c rest hblank fault hread =>
    rw [scan_fault (by simpa using hblank) hread]
    simp
  | case4 column c rest hblank kind after hread ih =>
    rw [scan_token (by simpa using hblank) hread]
    intro t ht
    rcases List.mem_cons.mp ht with rfl | ht
    · exact h hread
    · exact ih t ht

theorem kind_ne_endOfLine (line : String) :
    ∀ t ∈ (ofString line).tokens, t.kind ≠ .endOfLine := by
  exact forall_mem_scan Kind.ne_endOfLine_of_readKind 0 line.toList

theorem length_tokens_scan_le (column : Nat) (cs : List Char) :
    (scan column cs).tokens.length ≤ unitLength cs := by
  induction column, cs using scan.induct with
  | case1 column => simp [scan]
  | case2 column c rest hblank ih =>
    rw [scan_blank hblank, unitLength_cons]
    exact Nat.le_add_left_of_le ih
  | case3 column c rest hblank fault hread =>
    rw [scan_fault (by simpa using hblank) hread]
    exact Nat.zero_le _
  | case4 column c rest hblank kind after hread ih =>
    rw [scan_token (by simpa using hblank) hread, ← readKind_spelling hread, unitLength_append,
      List.length_cons]
    have hwidth := Kind.width_pos_of_readKind hread
    rw [Kind.width] at hwidth
    omega

end TokenStream

/-! ### Whole lines -/

theorem tokenize_eq_ok_iff {line : String} {tokens : List Token} :
    tokenize line = .ok tokens ↔ ∃ column,
      (TokenStream.ofString line).ending = .endOfLine column ∧
      tokens = (TokenStream.ofString line).tokens ++ [⟨.endOfLine, column⟩] := by
  rw [tokenize, TokenStream.toExcept]
  cases (TokenStream.ofString line).ending with
  | endOfLine column => simp [eq_comm]
  | failed error => simp

theorem tokenize_eq_error_iff {line : String} {error : LexError} :
    tokenize line = .error error ↔ (TokenStream.ofString line).ending = .failed error := by
  rw [tokenize, TokenStream.toExcept]
  cases (TokenStream.ofString line).ending with
  | endOfLine column => simp
  | failed fault => simp

/-- The line `line` is scanned to its end, and `word` are its tokens. -/
def LineWord (line : String) (word : List Kind) : Prop :=
  ∃ tokens, tokenize line = .ok tokens ∧ tokens.map Token.kind = word ++ [.endOfLine]

theorem lineWord_iff {line : String} {word : List Kind} :
    LineWord line word ↔ (∃ column, (TokenStream.ofString line).ending = .endOfLine column) ∧
      (TokenStream.ofString line).tokens.map Token.kind = word := by
  constructor
  · rintro ⟨tokens, htokens, hword⟩
    obtain ⟨column, hending, rfl⟩ := tokenize_eq_ok_iff.mp htokens
    rw [List.map_append] at hword
    exact ⟨⟨column, hending⟩, List.append_cancel_right hword⟩
  · rintro ⟨⟨column, hending⟩, rfl⟩
    exact ⟨_, tokenize_eq_ok_iff.mpr ⟨column, hending, rfl⟩, List.map_append⟩

theorem LineWord.unique {line : String} {v w : List Kind} (hv : LineWord line v)
    (hw : LineWord line w) : v = w :=
  (lineWord_iff.mp hv).2.symm.trans (lineWord_iff.mp hw).2

theorem LineWord.length_le {line : String} {word : List Kind} (h : LineWord line word) :
    word.length ≤ unitLength line.toList := by
  obtain ⟨-, rfl⟩ := lineWord_iff.mp h
  rw [List.length_map]
  exact TokenStream.length_tokens_scan_le 0 line.toList

/-- The number tokens of a line have the text of one. -/
theorem TokenStream.numberText_of_mem {line : String} {t : Token}
    (ht : t ∈ (ofString line).tokens) {s : String} (h : t.kind = .number s) :
    NumberText s.toList := by
  refine forall_mem_scan (P := fun k => ∀ s, k = .number s → NumberText s.toList)
    ?_ 0 line.toList t ht s h
  rintro c rest kind after hread s rfl
  exact numberText_of_readKind hread

/-- Among the tokens of a line the numbers are numerals exactly if they have at most one
point each. -/
theorem TokenStream.readable_iff {line : String} {word : List Kind}
    (h : word ⊆ (ofString line).tokens.map Token.kind) :
    Readable word ↔ ∀ s, Kind.number s ∈ word → s.toList.count '.' ≤ 1 := by
  have hiff : ∀ s, Kind.number s ∈ word →
      ((Number.read? s).isSome = true ↔ s.toList.count '.' ≤ 1) := by
    intro s hs
    obtain ⟨t, ht, hkind⟩ := List.mem_map.mp (h hs)
    exact Number.isSome_read?_iff (numberText_of_mem ht hkind)
  constructor
  · intro hreadable s hs
    exact (hiff s hs).mp (hreadable s hs)
  · intro hcount s hs
    exact (hiff s hs).mpr (hcount s hs)

theorem LineWord.readable_iff {line : String} {word : List Kind} (h : LineWord line word) :
    Readable word ↔ ∀ s, Kind.number s ∈ word → s.toList.count '.' ≤ 1 := by
  obtain ⟨-, rfl⟩ := lineWord_iff.mp h
  exact TokenStream.readable_iff (List.Subset.refl _)

end Linewise
