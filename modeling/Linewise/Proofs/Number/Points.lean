/-
Number tokens that are numerals.

* `NumberText` — a digit, with a minus before it or not, and then digits and
  points in any order: the text of a number token;
* `isSome_read?_iff` — such a text is a numeral exactly if it has at most one
  point.
-/
import Linewise.Token.Stream
import Linewise.Number.Numeral
import Mathlib.Data.List.TakeWhile

namespace Linewise

/-- The characters of a number token. -/
def NumberText (cs : List Char) : Prop :=
  ∃ (d : Char) (ds : List Char), d.isDigit = true ∧ (∀ x ∈ ds, isNumberPart x = true) ∧
    (cs = d :: ds ∨ cs = '-' :: d :: ds)

theorem NumberText.ne_nil {cs : List Char} (h : NumberText cs) : cs ≠ [] := by
  obtain ⟨d, ds, -, -, rfl | rfl⟩ := h
  · exact List.cons_ne_nil d ds
  · exact List.cons_ne_nil '-' (d :: ds)

theorem Kind.ofWord_ne_number (word s : String) : Kind.ofWord word ≠ .number s := by
  unfold Kind.ofWord
  split <;> simp

theorem numberText_of_readKind {c : Char} {rest after : List Char} {s : String}
    (h : readKind c rest = .ok (.number s, after)) : NumberText s.toList := by
  unfold readKind at h
  repeat' split at h
  all_goals simp only [Except.ok.injEq, Prod.mk.injEq, reduceCtorEq, Kind.number.injEq,
    false_and, Kind.ofWord_ne_number] at h
  case isTrue hc =>
    obtain ⟨rfl, -⟩ := h
    exact ⟨c, _, hc, fun x hx => List.mem_takeWhile_imp hx, Or.inl String.toList_ofList⟩
  next d tail _ _ hd =>
    obtain ⟨rfl, -⟩ := h
    have hpart : isNumberPart d = true := by simp [isNumberPart, hd]
    refine ⟨d, tail.takeWhile isNumberPart, hd, fun x hx => List.mem_takeWhile_imp hx, Or.inr ?_⟩
    rw [String.toList_ofList, List.takeWhile_cons_of_pos hpart]

namespace Number

open Numeral

/-- After its leading digits, a text of digits and points ends or has a point. -/
theorem dropWhile_isDigit {ds : List Char} (h : ∀ x ∈ ds, isNumberPart x = true) :
    (ds.dropWhile Char.isDigit = [] ∧ ds.count '.' = 0) ∨
      ∃ more, ds.dropWhile Char.isDigit = '.' :: more ∧ (∀ x ∈ more, isNumberPart x = true) ∧
        ds.count '.' = more.count '.' + 1 := by
  induction ds with
  | nil => exact Or.inl ⟨rfl, rfl⟩
  | cons d ds ih =>
    have hds : ∀ x ∈ ds, isNumberPart x = true := fun x hx => h x (List.mem_cons_of_mem d hx)
    by_cases hd : d.isDigit = true
    · have hne : d ≠ '.' := by
        rintro rfl
        exact absurd hd (by decide)
      rw [List.dropWhile_cons_of_pos hd, List.count_cons_of_ne hne]
      exact ih hds
    · have hpoint : d = '.' := by simpa [isNumberPart, hd] using h d List.mem_cons_self
      subst hpoint
      rw [List.dropWhile_cons_of_neg hd, List.count_cons_self]
      exact Or.inr ⟨ds, rfl, hds, rfl⟩

/-- Nothing of a number token is left for an exponent, unless a second point is. -/
theorem readExponent?_dropWhile {more : List Char} (h : ∀ x ∈ more, isNumberPart x = true) :
    (readExponent? (more.dropWhile Char.isDigit)).isSome = true ↔ more.count '.' = 0 := by
  rcases dropWhile_isDigit h with ⟨hnil, hcount⟩ | ⟨rest, hrest, -, hcount⟩
  · simp [hnil, hcount, readExponent?]
  · simp [hrest, hcount, readExponent?]

theorem isSome_readChars?_digits {cs : List Char} {negative : Bool} {d : Char} {ds : List Char}
    (hsign : readSign cs = (negative, d :: ds)) (hd : d.isDigit = true)
    (hds : ∀ x ∈ ds, isNumberPart x = true) :
    (readChars? cs).isSome = true ↔ ds.count '.' ≤ 1 := by
  have hwhole : (d :: ds).takeWhile Char.isDigit = d :: ds.takeWhile Char.isDigit :=
    List.takeWhile_cons_of_pos hd
  have hrest : (d :: ds).dropWhile Char.isDigit = ds.dropWhile Char.isDigit :=
    List.dropWhile_cons_of_pos hd
  unfold readChars?
  simp only [hsign, hwhole, hrest, List.isEmpty_cons, Bool.false_and, Bool.false_eq_true, if_false,
    Option.isSome_map]
  rcases dropWhile_isDigit hds with ⟨hnil, hcount⟩ | ⟨more, hmore, hparts, hcount⟩
  · rw [hnil, hcount]
    simp [readFraction, readExponent?]
  · rw [hmore, hcount]
    have hexp := readExponent?_dropWhile hparts
    simp only [readFraction, hexp]
    omega

theorem isSome_read?_iff {s : String} (h : NumberText s.toList) :
    (Number.read? s).isSome = true ↔ s.toList.count '.' ≤ 1 := by
  obtain ⟨d, ds, hd, hds, hs⟩ := h
  have hpoint : d ≠ '.' := by
    rintro rfl
    exact absurd hd (by decide)
  have hsign : readSign (d :: ds) = (false, d :: ds) := by
    unfold readSign
    split
    · next heq => exact absurd hd (by rw [(List.cons.inj heq).1]; decide)
    · next heq => exact absurd hd (by rw [(List.cons.inj heq).1]; decide)
    · rfl
  rw [Number.read?, Option.isSome_map, Numeral.read?]
  have hminus : readSign ('-' :: d :: ds) = (true, d :: ds) := rfl
  rcases hs with hs | hs
  · rw [hs, isSome_readChars?_digits hsign hd hds, List.count_cons_of_ne hpoint]
  · rw [hs, isSome_readChars?_digits hminus hd hds,
      List.count_cons_of_ne (by decide), List.count_cons_of_ne hpoint]

end Number

end Linewise
