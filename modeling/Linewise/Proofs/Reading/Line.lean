/-
Which lines are read.

* `Statement.ofLine_eq_ok_iff`, `Expr.ofLine_eq_ok_iff` — exactly which lines are
  statements and expressions within which limits, and of which trees;
* `Expr.ofLine_eq_ok_iff_of_word`, `Statement.ofLine_eq_ok_iff_of_word` — the limits
  that read a line with a given derivation;
* `ofLine_accepts_grammar` — with two levels of nesting for each unit of the line,
  the lines that are read are those that the grammar derives.
-/
import Linewise.Proofs.Reading.Stance
import Linewise.Proofs.Reading.Statement
import Linewise.Proofs.Token.Spelling

namespace Linewise

open Linewise.Configuration Linewise.TokenStream

/-! ### Lines -/

/-- A line is one phrase as a whole if the phrase is read and nothing but a
semicolon, where one may end it, is left of the line. -/
theorem Attempt.whole_eq_ok_iff {α : Type} {a : Attempt α} {terminated : Bool} {value : α}
    (h : ∀ u r, a = ⟨.ok u, r⟩ → ∀ t ∈ r.input.tokens, t.kind ≠ .endOfLine) :
    (a.andThen fun value r => (r.ending terminated).andThen fun _ r => ⟨.ok value, r⟩).result =
        .ok value ↔
      ∃ r, a = ⟨.ok value, r⟩ ∧ (∃ column, r.input.ending = .endOfLine column) ∧
        (r.input.tokens = [] ∨
          terminated = true ∧ ∃ t, r.input.tokens = [t] ∧ t.kind = .semicolon) := by
  rw [result_eq_ok_iff]
  constructor
  · rintro ⟨r', hwhole⟩
    obtain ⟨u, r, ha, hwhole⟩ := andThen_eq_ok_iff.mp hwhole
    obtain ⟨v, r'', hending, hwhole⟩ := andThen_eq_ok_iff.mp hwhole
    obtain ⟨rfl, rfl⟩ : u = value ∧ r'' = r' := by simpa using hwhole
    exact ⟨r, ha, (Reader.exists_ending_iff (h u r ha)).mp ⟨r'', hending⟩⟩
  · rintro ⟨r, ha, hend⟩
    obtain ⟨r', hending⟩ := (Reader.exists_ending_iff (h value r ha)).mpr hend
    exact ⟨r', andThen_eq_ok_iff.mpr ⟨value, r, ha, andThen_eq_ok_iff.mpr ⟨(), r', hending, rfl⟩⟩⟩

/-- The end of the line is what follows its last token. -/
theorem current_nil {line : String} {column : Nat}
    (h : (TokenStream.ofString line).ending = .endOfLine column) :
    TokenStream.current ⟨[], (TokenStream.ofString line).ending⟩ = .ok ⟨.endOfLine, column⟩ := by
  rw [h]
  rfl

theorem kind_ne_endOfLine_of_append {line : String} {consumed rest : List Token}
    (h : (TokenStream.ofString line).tokens = consumed ++ rest) :
    ∀ t ∈ rest, t.kind ≠ .endOfLine := by
  intro t ht
  refine TokenStream.kind_ne_endOfLine line t ?_
  rw [h]
  exact List.mem_append_right consumed ht

/-- Exactly which lines are statements. -/
theorem Statement.ofLine_eq_ok_iff {limit : Int} {line : String} {s : Statement} :
    Statement.ofLine limit line = .ok s ↔ ∃ d : StatementDerivation, LineWord line d.word ∧
      d.value.Extends .semicolon ∧ Readable d.value.word ∧ d.value.charge ≤ room limit 0 ∧
      d.tree = s := by
  rw [Statement.ofLine, Attempt.whole_eq_ok_iff]
  · constructor
    · rintro ⟨r, hstatement, ⟨column, hend⟩, hrest⟩
      obtain ⟨d, consumed, rest, next, htokens, hword, rfl, -, hext, hnum, hcharge, rfl⟩ :=
        Reader.statement_eq_ok_iff.mp hstatement
      obtain rfl : rest = [] := by simpa using hrest
      refine ⟨d, lineWord_iff.mpr ⟨⟨column, hend⟩, ?_⟩, hext, hnum, hcharge, rfl⟩
      rw [hword, ← List.append_nil consumed, ← htokens]
      rfl
    · rintro ⟨d, hline, hext, hnum, hcharge, rfl⟩
      obtain ⟨⟨column, hend⟩, hword⟩ := lineWord_iff.mp hline
      exact ⟨_, Reader.statement_eq_ok_iff.mpr ⟨d, (TokenStream.ofString line).tokens, [], _,
        (List.append_nil _).symm, hword.symm, rfl, current_nil hend, hext, hnum, hcharge, rfl⟩,
        ⟨column, hend⟩, Or.inl rfl⟩
  · intro s r hstatement t ht
    obtain ⟨d, consumed, rest, next, htokens, hword, rfl, -⟩ :=
      Reader.statement_eq_ok_iff.mp hstatement
    exact kind_ne_endOfLine_of_append htokens t ht

/-- Exactly which lines are expressions. -/
theorem Expr.ofLine_eq_ok_iff {limit : Int} {line : String} {e : Expr} :
    Expr.ofLine limit line = .ok e ↔ ∃ d : Derivation .expression,
      (LineWord line d.word ∨ LineWord line (d.word ++ [.semicolon])) ∧
      d.Extends .semicolon ∧ Readable d.word ∧ d.charge ≤ room limit 0 ∧ d.tree = e := by
  rw [Expr.ofLine, Attempt.whole_eq_ok_iff]
  · constructor
    · rintro ⟨r, hexpr, ⟨column, hend⟩, hrest⟩
      obtain ⟨d, consumed, rest, next, htokens, hword, rfl, -, -, hext, hnum, hcharge, rfl⟩ :=
        Reader.expression_eq_ok_iff.mp hexpr
      refine ⟨d, ?_, hext.of_endsGroup Kind.endsGroup_semicolon, hnum, hcharge, rfl⟩
      have hline : (TokenStream.ofString line).tokens.map Token.kind =
          d.word ++ rest.map Token.kind := by
        rw [hword, ← List.map_append, ← htokens]
        rfl
      rcases hrest with hnil | ⟨-, t, hsingle, ht⟩
      · obtain rfl : rest = [] := hnil
        exact Or.inl (lineWord_iff.mpr ⟨⟨column, hend⟩, by simpa using hline⟩)
      · obtain rfl : rest = [t] := hsingle
        exact Or.inr (lineWord_iff.mpr ⟨⟨column, hend⟩, by simpa [ht] using hline⟩)
    · rintro ⟨d, hline | hline, hext, hnum, hcharge, rfl⟩
      · obtain ⟨⟨column, hend⟩, hword⟩ := lineWord_iff.mp hline
        exact ⟨_, Reader.expression_eq_ok_iff.mpr ⟨d, (TokenStream.ofString line).tokens, [], _,
          (List.append_nil _).symm, hword.symm, rfl, current_nil hend, Kind.endsGroup_endOfLine,
          hext.of_endsGroup Kind.endsGroup_endOfLine, hnum, hcharge, rfl⟩, ⟨column, hend⟩,
          Or.inl rfl⟩
      · obtain ⟨⟨column, hend⟩, hword⟩ := lineWord_iff.mp hline
        obtain ⟨consumed, semicolon, htokens, hconsumed, hsingle⟩ := List.map_eq_append_iff.mp hword
        obtain ⟨t, _, rfl, ht, hnil⟩ := List.map_eq_cons_iff.mp hsingle
        obtain rfl := List.map_eq_nil_iff.mp hnil
        exact ⟨_, Reader.expression_eq_ok_iff.mpr ⟨d, consumed, [t], t, htokens, hconsumed.symm,
          rfl, rfl, ht ▸ Kind.endsGroup_semicolon, ht ▸ hext, hnum, hcharge, rfl⟩, ⟨column, hend⟩,
          Or.inr ⟨rfl, t, rfl, ht⟩⟩
  · intro s r hexpr t ht
    obtain ⟨d, consumed, rest, next, htokens, hword, rfl, -⟩ :=
      Reader.expression_eq_ok_iff.mp hexpr
    exact kind_ne_endOfLine_of_append htokens t ht

/-! ### Lines with a derivation -/

/-- A line of an expression is read exactly within the limits from its charge on, and
always as its tree. -/
theorem Expr.ofLine_eq_ok_iff_of_word {limit : Int} {line : String} {e : Expr}
    {d : Derivation .expression}
    (hline : LineWord line d.word ∨ LineWord line (d.word ++ [.semicolon]))
    (hext : d.Extends .semicolon) (hnum : Readable d.word) :
    Expr.ofLine limit line = .ok e ↔ d.charge ≤ room limit 0 ∧ d.tree = e := by
  rw [Expr.ofLine_eq_ok_iff]
  constructor
  · rintro ⟨d', hline', hext', -, hcharge, rfl⟩
    have hword : d.word = d'.word := by
      rcases hline with hline | hline <;> rcases hline' with hline' | hline'
      · exact hline.unique hline'
      · exact absurd (hline.unique hline' ▸ List.mem_append_right d'.word List.mem_cons_self)
          d.semicolon_notMem_word
      · exact absurd (hline'.unique hline ▸ List.mem_append_right d.word List.mem_cons_self)
          d'.semicolon_notMem_word
      · exact List.append_cancel_right (hline.unique hline')
    rw [Derivation.charge_eq_of_word_eq hword hnum hext hext']
    exact ⟨hcharge, Derivation.tree_eq_of_word_eq hword hnum hext hext'⟩
  · rintro ⟨hcharge, rfl⟩
    exact ⟨d, hline, hext, hnum, hcharge, rfl⟩

/-- The tokens of a statement determine what it does with its expression. -/
theorem StatementDerivation.value_word_eq_of_word_eq {d d' : StatementDerivation}
    (h : d.word = d'.word) : d.value.word = d'.value.word ∧
      (d.value.tree = d'.value.tree → d.tree = d'.tree) := by
  have hword := List.append_cancel_right h
  cases d with
  | assign name value =>
    cases d' with
    | assign name' value' =>
      obtain ⟨rfl, hvalue⟩ : name = name' ∧ value.word = value'.word := by
        simpa [opening, StatementDerivation.value] using hword
      exact ⟨hvalue, congrArg (Statement.assign name)⟩
    | print value' => exact absurd hword (by simp [opening])
  | print value =>
    cases d' with
    | assign name' value' => exact absurd hword (by simp [opening])
    | print value' =>
      have hvalue : value.word = value'.word := by
        simpa [opening, StatementDerivation.value] using hword
      exact ⟨hvalue, congrArg Statement.print⟩

/-- A line of a statement is read exactly within the limits from its charge on, and
always as its tree. -/
theorem Statement.ofLine_eq_ok_iff_of_word {limit : Int} {line : String} {s : Statement}
    {d : StatementDerivation} (hline : LineWord line d.word) (hext : d.value.Extends .semicolon)
    (hnum : Readable d.value.word) :
    Statement.ofLine limit line = .ok s ↔ d.value.charge ≤ room limit 0 ∧ d.tree = s := by
  rw [Statement.ofLine_eq_ok_iff]
  constructor
  · rintro ⟨d', hline', hext', -, hcharge, rfl⟩
    obtain ⟨hword, htree⟩ :=
      StatementDerivation.value_word_eq_of_word_eq (hline.unique hline')
    rw [Derivation.charge_eq_of_word_eq hword hnum hext hext']
    exact ⟨hcharge, htree (Derivation.tree_eq_of_word_eq hword hnum hext hext')⟩
  · rintro ⟨hcharge, rfl⟩
    exact ⟨d, hline, hext, hnum, hcharge, rfl⟩

/-! ### The lines of the grammar -/

/-- The derivation of the same statement with another derivation of its expression. -/
def StatementDerivation.withValue (d : Derivation .expression) :
    StatementDerivation → StatementDerivation
  | assign name _ => assign name d
  | print _ => print d

theorem StatementDerivation.word_withValue {d : StatementDerivation} {d' : Derivation .expression}
    (h : d'.word = d.value.word) : (d.withValue d').word = d.word := by
  cases d with
  | assign name value => rw [withValue, word, word, StatementDerivation.value, h]; rfl
  | print value => rw [withValue, word, word, StatementDerivation.value, h]; rfl

theorem StatementDerivation.value_withValue (d : StatementDerivation)
    (d' : Derivation .expression) : (d.withValue d').value = d' := by
  cases d <;> rfl

theorem StatementDerivation.readable_iff (d : StatementDerivation) :
    Readable d.word ↔ Readable d.value.word := by
  have hopening : Readable d.opening := by
    cases d <;> simp [Readable, opening]
  have hsemicolon : Readable [Kind.semicolon] := readable_singleton (by simp)
  rw [word, readable_append, readable_append]
  exact ⟨fun hd => hd.1.2, fun hvalue => ⟨⟨hopening, hvalue⟩, hsemicolon⟩⟩

section Accepts

variable {limit : Int} {line : String} (h : ((2 * Text.unitLength line.toList : Nat) : Int) ≤ limit)

include h

theorem Statement.exists_ofLine_iff : (∃ s, Statement.ofLine limit line = .ok s) ↔
    ∃ d : StatementDerivation, LineWord line d.word ∧ Readable d.word := by
  constructor
  · rintro ⟨s, hok⟩
    obtain ⟨d, hline, -, hnum, -⟩ := Statement.ofLine_eq_ok_iff.mp hok
    exact ⟨d, hline, d.readable_iff.mpr hnum⟩
  · rintro ⟨d, hline, hnum⟩
    rw [d.readable_iff] at hnum
    obtain ⟨d', hword, hext, hcharge⟩ := d.value.exists_extends hnum Kind.endsGroup_semicolon
    have hlength : d.value.word.length ≤ Text.unitLength line.toList := by
      have hle := hline.length_le
      rw [StatementDerivation.word, List.length_append, List.length_append] at hle
      omega
    have hroom : d'.charge ≤ room limit 0 := le_room_zero (by omega)
    refine ⟨(d.withValue d').tree, Statement.ofLine_eq_ok_iff.mpr ⟨d.withValue d', ?_, ?_⟩⟩
    · rw [StatementDerivation.word_withValue hword]
      exact hline
    · rw [d.value_withValue]
      exact ⟨hext, hword ▸ hnum, hroom, rfl⟩

theorem Expr.exists_ofLine_iff : (∃ e, Expr.ofLine limit line = .ok e) ↔
    ∃ d : Derivation .expression,
      (LineWord line d.word ∨ LineWord line (d.word ++ [.semicolon])) ∧ Readable d.word := by
  constructor
  · rintro ⟨e, hok⟩
    obtain ⟨d, hline, -, hnum, -⟩ := Expr.ofLine_eq_ok_iff.mp hok
    exact ⟨d, hline, hnum⟩
  · rintro ⟨d, hline, hnum⟩
    obtain ⟨d', hword, hext, hcharge⟩ := d.exists_extends hnum Kind.endsGroup_semicolon
    have hlength : d.word.length ≤ Text.unitLength line.toList := by
      rcases hline with hline | hline
      · exact hline.length_le
      · have hle := hline.length_le
        rw [List.length_append] at hle
        exact Nat.le_of_add_right_le hle
    have hroom : d'.charge ≤ room limit 0 := le_room_zero (by omega)
    exact ⟨d'.tree, Expr.ofLine_eq_ok_iff.mpr ⟨d', hword ▸ hline, hext, hword ▸ hnum, hroom, rfl⟩⟩

/-- With two levels of nesting for each unit of a line, a line is a statement or an
expression exactly if its tokens are derived from one and its numbers have at most
one point each.  A semicolon may end an expression. -/
theorem ofLine_accepts_grammar :
    ((∃ s, Statement.ofLine limit line = .ok s) ↔
      ∃ word, LineWord line word ∧ (∀ s, Kind.number s ∈ word → s.toList.count '.' ≤ 1) ∧
        ∃ d : StatementDerivation, d.word = word) ∧
    ((∃ e, Expr.ofLine limit line = .ok e) ↔
      ∃ word, LineWord line word ∧ (∀ s, Kind.number s ∈ word → s.toList.count '.' ≤ 1) ∧
        ∃ d : Derivation .expression, d.word = word ∨ d.word ++ [.semicolon] = word) := by
  refine ⟨?_, ?_⟩
  · rw [Statement.exists_ofLine_iff h]
    constructor
    · rintro ⟨d, hline, hnum⟩
      exact ⟨d.word, hline, hline.readable_iff.mp hnum, d, rfl⟩
    · rintro ⟨word, hline, hpoints, d, rfl⟩
      exact ⟨d, hline, hline.readable_iff.mpr hpoints⟩
  · have hsemicolon : Readable [Kind.semicolon] := readable_singleton (by simp)
    rw [Expr.exists_ofLine_iff h]
    constructor
    · rintro ⟨d, hline | hline, hnum⟩
      · exact ⟨_, hline, hline.readable_iff.mp hnum, d, Or.inl rfl⟩
      · have hnum' := readable_append.mpr ⟨hnum, hsemicolon⟩
        exact ⟨_, hline, hline.readable_iff.mp hnum', d, Or.inr rfl⟩
    · rintro ⟨word, hline, hpoints, d, rfl | rfl⟩
      · exact ⟨d, Or.inl hline, hline.readable_iff.mpr hpoints⟩
      · exact ⟨d, Or.inr hline, (readable_append.mp (hline.readable_iff.mpr hpoints)).1⟩

end Accepts

theorem ofLine_accepts_grammar_assignment :
    ((2 * Text.unitLength "a = b ;".toList : Nat) : Int) ≤ 14 ∧
      ∃ s, Statement.ofLine 14 "a = b ;" = .ok s := by
  have hlimit : ((2 * Text.unitLength "a = b ;".toList : Nat) : Int) ≤ 14 := by decide
  have hwellFormed : ∀ k ∈ [Kind.name "a", .assign, .name "b", .semicolon], k.WellFormed := by
    simp only [List.forall_mem_cons]
    exact ⟨Kind.wellFormed_letter rfl rfl rfl, trivial, Kind.wellFormed_letter rfl rfl rfl, trivial,
      by simp⟩
  have hspelled : String.ofList (spelled [.name "a", .assign, .name "b", .semicolon]) = "a = b ;" :=
    rfl
  have hline := lineWord_spelled hwellFormed
  rw [hspelled] at hline
  obtain ⟨d, hword, -⟩ :=
    Derivation.exists_lift (m := .expression) (by decide) (Derivation.name "b")
  have hassign : (StatementDerivation.assign "a" d).word =
      [.name "a", .assign, .name "b", .semicolon] := by
    rw [StatementDerivation.word, StatementDerivation.value, hword]
    rfl
  obtain ⟨haccepts, -⟩ := ofLine_accepts_grammar hlimit
  exact ⟨hlimit, haccepts.mpr ⟨_, hline, by simp, _, hassign⟩⟩

end Linewise
