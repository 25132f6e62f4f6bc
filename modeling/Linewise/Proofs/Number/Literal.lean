/-
The texts that are numerals, as formal languages.

* `decimal` — an optional sign, digits with at most one point among or around them, and an
  optional exponent;
* `isSome_readChars?_iff_mem`, `isSome_read?_iff_mem` — these are the texts that are read as a numeral;
* `literal` — all texts that can be converted to a number: besides decimals there are blank
  texts, infinities and whole numbers in three other bases, and blanks around each;
* `mem_literal_iff_of_numberText`, `mem_decimal_iff_of_numberText` — the text of a number token
  is one of either exactly if it has at most one point.

Design notes: the reader takes as many digits as there are, so a decimal is brought into the
form in which all digits before the point stand together (`mem_magnitude_mul_iff`).
-/
import Linewise.Proofs.Token.Append
import Mathlib.Computability.Language

namespace Linewise.Number

open Numeral

/-! ### Languages -/

/-- Digits, or none. -/
def digits : Language Char := {cs | ∀ c ∈ cs, c.isDigit = true}

/-- At least one character, and only such for which the test holds. -/
def oneOrMore (p : Char → Bool) : Language Char := {cs | cs ≠ [] ∧ ∀ c ∈ cs, p c = true}

def sign : Language Char := {['+'], ['-']}

def point : Language Char := {['.']}

/-- Digits with a point among, before or after them, or without one. -/
def magnitude : Language Char :=
  oneOrMore Char.isDigit * (1 + point) * digits + point * oneOrMore Char.isDigit

/-- A power of ten, or nothing. -/
def exponent : Language Char :=
  1 + {['e'], ['E']} * (1 + sign) * oneOrMore Char.isDigit

/-- Decimal numerals. -/
def decimal : Language Char := (1 + sign) * (magnitude * exponent)

variable {cs : List Char}

theorem mem_oneOrMore_iff {p : Char → Bool} :
    cs ∈ oneOrMore p ↔ cs ≠ [] ∧ ∀ c ∈ cs, p c = true := Iff.rfl

theorem nil_mem_digits : [] ∈ digits := List.forall_mem_nil _

theorem mem_sign_iff : cs ∈ 1 + sign ↔ cs = [] ∨ cs = ['+'] ∨ cs = ['-'] := Iff.rfl

/-! ### Signs and exponents -/

/-- The sign that is split off is one, and nothing is lost. -/
theorem exists_sign (cs : List Char) : ∃ s ∈ 1 + sign, cs = s ++ (readSign cs).2 := by
  unfold readSign
  split
  · exact ⟨['-'], mem_sign_iff.mpr (by simp), rfl⟩
  · exact ⟨['+'], mem_sign_iff.mpr (by simp), rfl⟩
  · exact ⟨[], mem_sign_iff.mpr (by simp), rfl⟩

/-- A sign is split off from a text that does not start with another one. -/
theorem readSign_append {s : List Char} (hs : s ∈ 1 + sign)
    (hcs : ∀ c ∈ cs.head?, c ≠ '+' ∧ c ≠ '-') : (readSign (s ++ cs)).2 = cs := by
  rcases mem_sign_iff.mp hs with rfl | rfl | rfl
  · cases cs with
    | nil => rfl
    | cons c cs =>
      obtain ⟨hplus, hminus⟩ := hcs c rfl
      rw [List.nil_append, readSign]
      · exact fun _ h => hminus (List.cons.inj h).1
      · exact fun _ h => hplus (List.cons.inj h).1
  · rfl
  · rfl

theorem ne_sign_of_isDigit {c : Char} (h : c.isDigit = true) : c ≠ '+' ∧ c ≠ '-' := by
  constructor
  · rintro rfl
    exact absurd h (by decide)
  · rintro rfl
    exact absurd h (by decide)

/-- So a sign is split off from a text of digits that is followed by no other sign. -/
theorem readSign_digits {s ds rest : List Char} (hs : s ∈ 1 + sign) (hds : ds ∈ digits)
    (hrest : ∀ c ∈ rest.head?, c ≠ '+' ∧ c ≠ '-') :
    (readSign (s ++ (ds ++ rest))).2 = ds ++ rest := by
  refine readSign_append hs fun c hc => ?_
  cases ds with
  | nil => exact hrest c hc
  | cons d ds =>
    obtain rfl := Option.some.inj hc
    exact ne_sign_of_isDigit (hds d List.mem_cons_self)

theorem mem_exponent_cons_iff {e : Char} {rest : List Char} : e :: rest ∈ exponent ↔
    (e = 'e' ∨ e = 'E') ∧ ∃ s ∈ 1 + sign, ∃ ds ∈ oneOrMore Char.isDigit, s ++ ds = rest := by
  constructor
  · rintro (h | ⟨_, ⟨letter, hletter, s, hs, rfl⟩, ds, hds, h⟩)
    · exact nomatch (Language.mem_one _).mp h
    · rcases hletter with rfl | rfl
      · obtain ⟨rfl, rfl⟩ := List.cons.inj h
        exact ⟨Or.inl rfl, s, hs, ds, hds, rfl⟩
      · obtain ⟨rfl, rfl⟩ := List.cons.inj h
        exact ⟨Or.inr rfl, s, hs, ds, hds, rfl⟩
  · rintro ⟨he, s, hs, ds, hds, rfl⟩
    have hletter : [e] ∈ ({['e'], ['E']} : Language Char) := by
      rcases he with rfl | rfl
      · exact Or.inl rfl
      · exact Or.inr rfl
    exact Or.inr ⟨[e] ++ s, ⟨[e], hletter, s, hs, rfl⟩, ds, hds, rfl⟩

theorem isSome_readExponent?_cons_iff {e : Char} {rest : List Char} :
    (readExponent? (e :: rest)).isSome = true ↔
      (e = 'e' ∨ e = 'E') ∧ (readSign rest).2 ∈ oneOrMore Char.isDigit := by
  rw [mem_oneOrMore_iff, readExponent?]
  simp only
  split
  · next h => simpa [and_assoc] using h
  · next h => simpa [and_assoc] using h

theorem isSome_readExponent?_iff : (readExponent? cs).isSome = true ↔ cs ∈ exponent := by
  cases cs with
  | nil => exact iff_of_true rfl (Or.inl rfl)
  | cons e rest =>
    rw [isSome_readExponent?_cons_iff, mem_exponent_cons_iff]
    refine and_congr_right fun _ => ⟨fun h => ?_, ?_⟩
    · obtain ⟨s, hs, hrest⟩ := exists_sign rest
      exact ⟨s, hs, _, h, hrest.symm⟩
    · rintro ⟨s, hs, ds, hds, rfl⟩
      have hhead : ∀ c ∈ ds.head?, c ≠ '+' ∧ c ≠ '-' := fun c hc =>
        ne_sign_of_isDigit (hds.2 c (List.mem_of_mem_head? hc))
      rwa [readSign_append hs hhead]

/-! ### Digits and points -/

/-- A text with its digits before the point taken together. -/
theorem mem_magnitude_mul_iff : cs ∈ magnitude * exponent ↔
    ∃ whole ∈ digits, ∃ fraction ∈ digits, ∃ rest ∈ exponent,
      (whole ≠ [] ∧ cs = whole ++ rest) ∨
      ((whole ≠ [] ∨ fraction ≠ []) ∧ cs = whole ++ '.' :: (fraction ++ rest)) := by
  constructor
  · rintro ⟨_, (⟨_, ⟨whole, hwhole, middle, hmiddle, rfl⟩, fraction, hfraction, rfl⟩ |
      ⟨_, rfl, fraction, hfraction, rfl⟩), rest, hrest, rfl⟩
    · rcases hmiddle with rfl | rfl
      · refine ⟨whole ++ fraction, List.forall_mem_append.mpr ⟨hwhole.2, hfraction⟩, [],
          nil_mem_digits, rest, hrest, Or.inl ⟨?_, ?_⟩⟩
        · simp [hwhole.1]
        · simp
      · exact ⟨whole, hwhole.2, fraction, hfraction, rest, hrest,
          Or.inr ⟨Or.inl hwhole.1, by simp⟩⟩
    · exact ⟨[], nil_mem_digits, fraction, hfraction.2, rest, hrest,
        Or.inr ⟨Or.inr hfraction.1, by simp⟩⟩
  · rintro ⟨whole, hwhole, fraction, hfraction, rest, hrest, h⟩
    rcases h with ⟨hne, rfl⟩ | ⟨hne, rfl⟩
    · refine ⟨whole, Or.inl ⟨whole, ⟨whole, ⟨hne, hwhole⟩, [], Or.inl rfl, ?_⟩, [],
        nil_mem_digits, ?_⟩, rest, hrest, rfl⟩ <;> simp
    · by_cases hempty : whole = []
      · have hfew : fraction ≠ [] := hne.resolve_left (by simp [hempty])
        subst hempty
        exact ⟨'.' :: fraction, Or.inr ⟨['.'], rfl, fraction, ⟨hfew, hfraction⟩, rfl⟩, rest,
          hrest, rfl⟩
      · refine ⟨whole ++ '.' :: fraction, Or.inl ⟨whole ++ ['.'], ⟨whole, ⟨hempty, hwhole⟩,
          ['.'], Or.inr rfl, rfl⟩, fraction, hfraction, ?_⟩, rest, hrest, ?_⟩ <;> simp

theorem head_of_mem_exponent {rest : List Char} (h : rest ∈ exponent) :
    ∀ c ∈ rest.head?, c = 'e' ∨ c = 'E' := by
  intro c hc
  cases rest with
  | nil => exact nomatch hc
  | cons e rest =>
    obtain rfl := Option.some.inj hc
    exact (mem_exponent_cons_iff.mp h).1

/-- Digits are taken as far as they go, and what comes after them starts with none. -/
theorem span_digits {ds rest : List Char} (hds : ds ∈ digits)
    (hrest : ∀ c ∈ rest.head?, c.isDigit = false) :
    (ds ++ rest).takeWhile Char.isDigit = ds ∧ (ds ++ rest).dropWhile Char.isDigit = rest := by
  obtain ⟨htake, hdrop⟩ := takeWhile_append_of_head hrest ds
  rw [htake, hdrop, List.takeWhile_eq_self_iff.mpr hds, List.dropWhile_eq_nil_iff.mpr hds]
  exact ⟨rfl, rfl⟩

theorem span_digits_exponent {ds rest : List Char} (hds : ds ∈ digits) (hrest : rest ∈ exponent) :
    (ds ++ rest).takeWhile Char.isDigit = ds ∧ (ds ++ rest).dropWhile Char.isDigit = rest := by
  refine span_digits hds fun c hc => ?_
  rcases head_of_mem_exponent hrest c hc with rfl | rfl <;> rfl

theorem readFraction_of_ne {rest : List Char} (h : rest.head? ≠ some '.') :
    readFraction rest = ([], rest) := by
  unfold readFraction
  split
  · exact absurd rfl h
  · rfl

theorem readFraction_exponent {rest : List Char} (h : rest ∈ exponent) :
    readFraction rest = ([], rest) := by
  refine readFraction_of_ne fun hpoint => ?_
  exact absurd (head_of_mem_exponent h '.' hpoint) (by decide)

/-! ### The reader -/

/-- What is read as a numeral has a digit, and after its digits an exponent at most. -/
theorem isSome_readChars?_iff (whole fraction rest : List Char)
    (hwhole : (readSign cs).2.takeWhile Char.isDigit = whole)
    (hrest : readFraction ((readSign cs).2.dropWhile Char.isDigit) = (fraction, rest)) :
    (readChars? cs).isSome = true ↔ (whole ≠ [] ∨ fraction ≠ []) ∧ rest ∈ exponent := by
  have hread : readChars? cs = if whole.isEmpty && fraction.isEmpty then none
      else (readExponent? rest).map (⟨(readSign cs).1, whole, fraction, ·⟩) := by
    rw [readChars?, ← hwhole]
    simp only [hrest]
  rw [hread, ← isSome_readExponent?_iff]
  split
  · next h =>
    rw [Bool.and_eq_true, List.isEmpty_iff, List.isEmpty_iff] at h
    simp [h]
  · next h =>
    rw [Bool.and_eq_true, List.isEmpty_iff, List.isEmpty_iff, not_and_or] at h
    rw [Option.isSome_map]
    exact (and_iff_right h).symm

theorem mem_magnitude_mul_of_readChars? (h : (readChars? cs).isSome = true) :
    (readSign cs).2 ∈ magnitude * exponent := by
  have hdigits : ∀ ds : List Char, ds.takeWhile Char.isDigit ∈ digits :=
    fun ds c hc => List.mem_takeWhile_imp hc
  have hsplit := (List.takeWhile_append_dropWhile (p := Char.isDigit) (l := (readSign cs).2)).symm
  rw [mem_magnitude_mul_iff]
  by_cases hpoint : ((readSign cs).2.dropWhile Char.isDigit).head? = some '.'
  · obtain ⟨more, hmore⟩ := List.head?_eq_some_iff.mp hpoint
    obtain ⟨hne, hrest⟩ := (isSome_readChars?_iff _ (more.takeWhile Char.isDigit)
      (more.dropWhile Char.isDigit) rfl (by rw [hmore]; rfl)).mp h
    refine ⟨_, hdigits _, _, hdigits more, _, hrest, Or.inr ⟨hne, ?_⟩⟩
    rw [List.takeWhile_append_dropWhile, ← hmore]
    exact hsplit
  · obtain ⟨hne, hrest⟩ := (isSome_readChars?_iff _ _ _ rfl (readFraction_of_ne hpoint)).mp h
    exact ⟨_, hdigits _, [], nil_mem_digits, _, hrest,
      Or.inl ⟨hne.resolve_right (by simp), hsplit⟩⟩

/-- The texts that are read as numerals are the decimals. -/
theorem isSome_readChars?_iff_mem : (readChars? cs).isSome = true ↔ cs ∈ decimal := by
  constructor
  · intro h
    obtain ⟨s, hs, hcs⟩ := exists_sign cs
    exact ⟨s, hs, _, mem_magnitude_mul_of_readChars? h, hcs.symm⟩
  · rintro ⟨s, hs, u, hu, rfl⟩
    obtain ⟨whole, hwhole, fraction, hfraction, rest, hrest, h⟩ := mem_magnitude_mul_iff.mp hu
    rcases h with ⟨hne, rfl⟩ | ⟨hne, rfl⟩
    · have hsign := readSign_digits hs hwhole fun c hc => by
        rcases head_of_mem_exponent hrest c hc with rfl | rfl <;> decide
      obtain ⟨htake, hdrop⟩ := span_digits_exponent hwhole hrest
      refine (isSome_readChars?_iff whole [] rest (by rw [hsign, htake]) ?_).mpr
        ⟨Or.inl hne, hrest⟩
      rw [hsign, hdrop, readFraction_exponent hrest]
    · have hpoint : ∀ c ∈ ('.' :: (fraction ++ rest)).head?, c = '.' := by simp
      have hsign := readSign_digits hs hwhole fun c hc => by
        rw [hpoint c hc]
        decide
      obtain ⟨htake, hdrop⟩ := span_digits hwhole fun c hc => by
        rw [hpoint c hc]
        rfl
      obtain ⟨htake', hdrop'⟩ := span_digits_exponent hfraction hrest
      refine (isSome_readChars?_iff whole fraction rest (by rw [hsign, htake]) ?_).mpr
        ⟨hne, hrest⟩
      rw [hsign, hdrop, readFraction, htake', hdrop']

theorem isSome_read?_iff_mem {s : String} :
    (Number.read? s).isSome = true ↔ s.toList ∈ decimal := by
  rw [← isSome_readChars?_iff_mem, Number.read?, Option.isSome_map]
  rfl

/-! ### Other texts that are converted to a number -/

def blankText : Language Char := {cs | ∀ c ∈ cs, Text.isBlank c = true}

def infinity : Language Char := {"Infinity".toList}

/-- Whole numbers in base sixteen, eight and two. -/
def radix : Language Char :=
  {['0', 'x'], ['0', 'X']} * oneOrMore "0123456789abcdefABCDEF".toList.contains +
    {['0', 'o'], ['0', 'O']} * oneOrMore "01234567".toList.contains +
    {['0', 'b'], ['0', 'B']} * oneOrMore "01".toList.contains

/-- The texts that can be converted to a number.  Nothing but blanks counts as zero. -/
def literal : Language Char :=
  blankText * (1 + (1 + sign) * infinity + decimal + radix) * blankText

theorem eq_nil_of_mem_blankText (hcs : cs ∈ blankText) (h : ∀ c ∈ cs, Text.isBlank c = false) :
    cs = [] := by
  refine List.eq_nil_iff_forall_not_mem.mpr fun c hc => ?_
  exact absurd (hcs c hc) (by simp [h c hc])

theorem exists_letter_of_mem_radix (h : cs ∈ radix) :
    ∃ c ∈ cs, c ∈ ['x', 'X', 'o', 'O', 'b', 'B'] := by
  rcases h with (⟨_, rfl | rfl, ds, -, rfl⟩ | ⟨_, rfl | rfl, ds, -, rfl⟩) |
    ⟨_, rfl | rfl, ds, -, rfl⟩
  · exact ⟨'x', by simp, by decide⟩
  · exact ⟨'X', by simp, by decide⟩
  · exact ⟨'o', by simp, by decide⟩
  · exact ⟨'O', by simp, by decide⟩
  · exact ⟨'b', by simp, by decide⟩
  · exact ⟨'B', by simp, by decide⟩

theorem part_or_minus_of_numberText (h : NumberText cs) :
    ∀ c ∈ cs, isNumberPart c = true ∨ c = '-' := by
  obtain ⟨d, ds, hd, hds, hcs⟩ := h
  have hparts : ∀ c ∈ d :: ds, isNumberPart c = true :=
    List.forall_mem_cons.mpr ⟨by simp [isNumberPart, hd], hds⟩
  rcases hcs with rfl | rfl
  · exact fun c hc => Or.inl (hparts c hc)
  · exact List.forall_mem_cons.mpr ⟨Or.inr rfl, fun c hc => Or.inl (hparts c hc)⟩

theorem isBlank_eq_false_of_numberText (h : NumberText cs) :
    ∀ c ∈ cs, Text.isBlank c = false := by
  intro c hc
  rw [Bool.eq_false_iff]
  intro hblank
  rcases part_or_minus_of_numberText h c hc with hpart | rfl
  · exact absurd hpart (by simp [isNumberPart_eq_false_of_isBlank c hblank])
  · exact absurd hblank (by decide)

/-- Of the texts of number tokens only decimals are converted to a number. -/
theorem mem_literal_iff_mem_decimal (h : NumberText cs) : cs ∈ literal ↔ cs ∈ decimal := by
  constructor
  · rintro ⟨_, ⟨before, hbefore, middle, hmiddle, rfl⟩, after, hafter, rfl⟩
    have hblank := isBlank_eq_false_of_numberText h
    obtain rfl := eq_nil_of_mem_blankText hbefore fun c hc => hblank c (by simp [hc])
    obtain rfl := eq_nil_of_mem_blankText hafter fun c hc => hblank c (by simp [hc])
    have hplain : ∀ c ∈ middle, isNumberPart c = true ∨ c = '-' := fun c hc =>
      part_or_minus_of_numberText h c (by simpa using hc)
    show [] ++ middle ++ [] ∈ decimal
    rw [List.nil_append, List.append_nil]
    rcases hmiddle with ((hnil | ⟨s, -, _, rfl, rfl⟩) | hdecimal) | hradix
    · obtain ⟨d, ds, -, -, hcs⟩ := h
      obtain rfl := (Language.mem_one _).mp hnil
      simp at hcs
    · exact absurd (hplain 'I' (by simp)) (by decide)
    · exact hdecimal
    · obtain ⟨c, hc, hletter⟩ := exists_letter_of_mem_radix hradix
      have hnone : ∀ c ∈ ['x', 'X', 'o', 'O', 'b', 'B'], ¬ (isNumberPart c = true ∨ c = '-') := by
        simp [isNumberPart]
      exact absurd (hplain c hc) (hnone c hletter)
  · intro hcs
    have hnumber : cs ∈ 1 + (1 + sign) * infinity + decimal + radix := Or.inl (Or.inr hcs)
    exact ⟨cs, ⟨[], List.forall_mem_nil _, cs, hnumber, rfl⟩, [], List.forall_mem_nil _,
      List.append_nil cs⟩

/-! ### Number tokens -/

theorem mem_decimal_iff_of_numberText {s : String} (h : NumberText s.toList) :
    s.toList ∈ decimal ↔ s.toList.count '.' ≤ 1 := by
  rw [← isSome_read?_iff h, isSome_read?_iff_mem]

theorem mem_literal_iff_of_numberText {s : String} (h : NumberText s.toList) :
    s.toList ∈ literal ↔ s.toList.count '.' ≤ 1 :=
  (mem_literal_iff_mem_decimal h).trans (mem_decimal_iff_of_numberText h)

end Linewise.Number
