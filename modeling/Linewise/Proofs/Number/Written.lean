/-
The characters that numbers are written with.

* `isWritten` — the letters and digits of ASCII, the point and the two signs;
* `isWritten_of_mem_write` — a layout writes nothing else, if its words have nothing else;
* `isWritten_of_mem_text` — so the text of a number has no blanks, quotes or line ends.
-/
import Linewise.Number.Layout

namespace Linewise.Number

/-- The characters that a number is written with. -/
def isWritten (c : Char) : Bool := c.isAlphanum || c == '.' || c == '+' || c == '-'

theorem isWritten_of_isDigit {c : Char} (h : c.isDigit = true) : isWritten c = true := by
  simp [isWritten, Char.isAlphanum, h]

theorem isWritten_of_mem_toDigits {n : Nat} {c : Char} (h : c ∈ Nat.toDigits 10 n) :
    isWritten c = true :=
  isWritten_of_isDigit (Nat.isDigit_of_mem_toDigits (by decide) (by decide) h)

theorem Decimal.isWritten_of_mem_significant {d : Decimal} {c : Char} (h : c ∈ d.significant) :
    isWritten c = true := by
  rw [significant, List.mem_reverse] at h
  have hdigits : c ∈ (Nat.toDigits 10 d.digits).reverse := (List.dropWhile_sublist _).mem h
  exact isWritten_of_mem_toDigits (List.mem_reverse.mp hdigits)

namespace Layout

section Digits

variable {digits : List Char} (h : ∀ c ∈ digits, isWritten c = true) (point : Int)

include h

theorem isWritten_of_mem_positional : ∀ c ∈ positional digits point, isWritten c = true := by
  have hzeros : ∀ n, ∀ c ∈ List.replicate n '0', isWritten c = true := by
    intro n c hc
    rw [(List.mem_replicate.mp hc).2]
    rfl
  unfold positional
  split
  · refine List.forall_mem_append.mpr ⟨?_, h⟩
    exact List.forall_mem_cons.mpr ⟨rfl, List.forall_mem_cons.mpr ⟨rfl, hzeros _⟩⟩
  · simp only
    split
    · exact List.forall_mem_append.mpr ⟨h, hzeros _⟩
    · refine List.forall_mem_append.mpr ⟨fun c hc => h c (List.mem_of_mem_take hc), ?_⟩
      exact List.forall_mem_cons.mpr ⟨rfl, fun c hc => h c (List.mem_of_mem_drop hc)⟩

theorem isWritten_of_mem_scientific : ∀ c ∈ scientific digits point, isWritten c = true := by
  have hsign : isWritten (if point - 1 < 0 then '-' else '+') = true := by
    split <;> rfl
  have hdigits : ∀ c ∈ Nat.toDigits 10 (point - 1).natAbs, isWritten c = true :=
    fun c => isWritten_of_mem_toDigits
  refine List.forall_mem_append.mpr ⟨?_, List.forall_mem_cons.mpr
    ⟨rfl, List.forall_mem_cons.mpr ⟨hsign, hdigits⟩⟩⟩
  split
  · exact h
  · exact h
  · obtain ⟨hd, hrest⟩ := List.forall_mem_cons.mp h
    exact List.forall_mem_cons.mpr ⟨hd, List.forall_mem_cons.mpr ⟨rfl, hrest⟩⟩

end Digits

theorem isWritten_of_mem_writeDecimal (l : Layout) (d : Decimal) :
    ∀ c ∈ l.writeDecimal d, isWritten c = true := by
  have hdigits : ∀ c ∈ d.significant, isWritten c = true :=
    fun c => Decimal.isWritten_of_mem_significant
  rw [writeDecimal]
  split
  · exact isWritten_of_mem_positional hdigits d.point
  · exact isWritten_of_mem_scientific hdigits d.point

/-- A layout writes numbers with these characters, if its words have no other ones. -/
theorem isWritten_of_mem_write {l : Layout} (hundefined : ∀ c ∈ l.undefined.toList, isWritten c)
    (hinfinity : ∀ c ∈ l.infinity.toList, isWritten c) (x : Float) :
    ∀ c ∈ (l.write x).toList, isWritten c = true := by
  have hsign : ∀ shown : Bool, ∀ c ∈ if shown then ['-'] else [], isWritten c = true := by
    intro shown
    cases shown with
    | true => exact List.forall_mem_singleton.mpr rfl
    | false => simp
  unfold write
  simp only
  split
  · rw [String.toList_ofList]
    refine List.forall_mem_append.mpr ⟨?_, List.forall_mem_singleton.mpr rfl⟩
    split
    · exact hsign _
    · simp
  · split
    · rw [String.toList_ofList]
      exact List.forall_mem_append.mpr ⟨hsign _, l.isWritten_of_mem_writeDecimal _⟩
    · split
      · rw [String.toList_ofList]
        exact List.forall_mem_append.mpr ⟨hsign _, hinfinity⟩
      · exact hundefined

end Layout

/-- The text of a number has no other characters. -/
theorem isWritten_of_mem_text {x : Float} {c : Char} (h : c ∈ (text x).toList) :
    isWritten c = true := by
  refine Layout.isWritten_of_mem_write ?_ ?_ x c h
  · exact List.all_eq_true.mp (by decide)
  · exact List.all_eq_true.mp (by decide)

end Linewise.Number
