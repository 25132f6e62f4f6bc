/-
The text of an expression inside a longer line.

* `EndsOpen` — a line does not end with a semicolon;
* `Expr.exists_derivation` — what an expression on a line of its own is derived from;
* `Statement.ofLine_print`, `Statement.ofLine_assign` — the same text in a statement is
  read as the same tree, within the same limit;
* `Expr.ofLine_name` — a name on a line of its own is a variable.
-/
import Linewise.Proofs.Reading.Line
import Linewise.Proofs.Token.Append

namespace Linewise

/-- The last token of a line is no semicolon. -/
def EndsOpen (line : String) : Prop :=
  ∀ t ∈ (TokenStream.ofString line).tokens.getLast?, t.kind ≠ .semicolon

theorem EndsOpen.ne_append {line : String} {word : List Kind} (h : EndsOpen line) :
    ¬ LineWord line (word ++ [.semicolon]) := by
  intro hline
  have hlast : ((TokenStream.ofString line).tokens.map Token.kind).getLast? = some .semicolon := by
    rw [(lineWord_iff.mp hline).2, List.getLast?_append]
    rfl
  rw [List.getLast?_map] at hlast
  obtain ⟨t, ht, hkind⟩ := Option.map_eq_some_iff.mp hlast
  exact h t ht hkind

variable {limit : Int} {text name : String} {e : Expr}

section Accepted

variable (h : Expr.ofLine limit text = .ok e) (hopen : EndsOpen text)

include h hopen

theorem Expr.exists_derivation : ∃ d : Derivation .expression, LineWord text d.word ∧
    d.Extends .semicolon ∧ Readable d.word ∧ d.charge ≤ Configuration.room limit 0 ∧ d.tree = e := by
  obtain ⟨d, hline | hline, hd⟩ := Expr.ofLine_eq_ok_iff.mp h
  · exact ⟨d, hline, hd⟩
  · exact absurd hline hopen.ne_append

theorem Statement.ofLine_print :
    Statement.ofLine limit ("print " ++ text ++ ";") = .ok (.print e) := by
  obtain ⟨d, hline, hext, hnum, hcharge, rfl⟩ := Expr.exists_derivation h hopen
  refine Statement.ofLine_eq_ok_iff.mpr ⟨.print d, ?_, hext, hnum, hcharge, rfl⟩
  have hprint : LineWord "print" [.print] := lineWord_spelling (k := .print) trivial
  exact (hprint.spaced hline).semicolon

theorem Statement.ofLine_assign (hname : Identifier name) :
    Statement.ofLine limit (name ++ " = " ++ text ++ ";") = .ok (.assign name e) := by
  obtain ⟨d, hline, hext, hnum, hcharge, rfl⟩ := Expr.exists_derivation h hopen
  refine Statement.ofLine_eq_ok_iff.mpr ⟨.assign name d, ?_, hext, hnum, hcharge, rfl⟩
  have hline' : LineWord name [.name name] := lineWord_spelling hname.wellFormed
  have hsign : LineWord "=" [.assign] := lineWord_spelling (k := .assign) trivial
  have hsplit : name ++ " = " ++ text = name ++ " " ++ "=" ++ " " ++ text := by
    simp only [String.append_assoc]
    rfl
  rw [hsplit]
  exact ((hline'.spaced hsign).spaced hline).semicolon

end Accepted

theorem Expr.ofLine_name (limit : Int) (hname : Identifier name) :
    Expr.ofLine limit name = .ok (.var name) := by
  obtain ⟨d, hword, hext, htree, hcharge⟩ :=
    Derivation.exists_lift (m := .expression) (by decide) (Derivation.name name)
  refine Expr.ofLine_eq_ok_iff.mpr ⟨d, Or.inl ?_, (hext .semicolon).mpr trivial, ?_, ?_, htree⟩
  · rw [hword]
    exact lineWord_spelling hname.wellFormed
  · rw [hword]
    exact readable_singleton (by simp)
  · rw [hcharge]
    exact Nat.zero_le _

end Linewise
