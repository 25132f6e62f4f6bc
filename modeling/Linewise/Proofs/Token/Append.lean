/-
The tokens of a text that is put together from two.

* `Delimited` — a text that no token before it goes on with, and `readKind_append`;
* `TokenStream.shift`, `scan_add`, `exists_scan_dropBlankStart` — the same text further
  to the right, and without the blanks at its start;
* `ending_scan`, `scan_append` — after a text that is scanned to its end, the scan
  starts anew;
* `LineWord.append`, `LineWord.spaced`, `LineWord.group`, `LineWord.semicolon` — the
  tokens of texts that are put together;
* `tokenize_append_blank_append` — behind a text and a blank the tokens of a second text
  follow, and so does its error.
-/
import Linewise.Proofs.Token.Spelling

namespace Linewise

open Text

/-! ### The seam -/

/-- The text ends here, or it goes on with a character that no token before it goes on
with. -/
def Delimited (cs : List Char) : Prop :=
  ∀ c ∈ cs.head?, isNumberPart c = false ∧ isWordPart c = false ∧ c ≠ '='

theorem delimited_cons {c : Char} {rest : List Char} (hnumber : isNumberPart c = false)
    (hword : isWordPart c = false) (hsign : c ≠ '=') : Delimited (c :: rest) := by
  intro d hd
  obtain rfl := Option.some.inj hd
  exact ⟨hnumber, hword, hsign⟩

theorem takeWhile_append_of_head {p : Char → Bool} {more : List Char}
    (h : ∀ c ∈ more.head?, p c = false) (cs : List Char) :
    (cs ++ more).takeWhile p = cs.takeWhile p ∧
      (cs ++ more).dropWhile p = cs.dropWhile p ++ more := by
  induction cs with
  | nil =>
    cases more with
    | nil => simp
    | cons c rest => simp [h c rfl]
  | cons d ds ih =>
    obtain ⟨htake, hdrop⟩ := ih
    by_cases hd : p d = true
    · simp [hd, htake, hdrop]
    · simp [hd]

section Seam

variable {more : List Char} (h : Delimited more)

include h

theorem Delimited.isDigit_eq_false : ∀ c ∈ more.head?, c.isDigit = false := by
  intro c hc
  have hpart := (h c hc).1
  simp only [isNumberPart, Bool.or_eq_false_iff] at hpart
  exact hpart.1

theorem Delimited.append_ne_cons {cs : List Char} (hcs : ∀ rest, cs ≠ '=' :: rest) :
    ∀ rest, cs ++ more ≠ '=' :: rest := by
  intro rest heq
  rcases List.append_eq_cons_iff.mp heq with ⟨-, hmore⟩ | ⟨rest', hcs', -⟩
  · exact (h '=' (by rw [hmore]; rfl)).2.2 rfl
  · exact hcs rest' hcs'

/-- A token ends where it did if what is put behind the text is delimited. -/
theorem readKind_append {c : Char} {rest after : List Char} {k : Kind}
    (hread : readKind c rest = .ok (k, after)) :
    readKind c (rest ++ more) = .ok (k, after ++ more) := by
  obtain ⟨htakeNumber, hdropNumber⟩ := takeWhile_append_of_head (fun c hc => (h c hc).1) rest
  obtain ⟨htakeWord, hdropWord⟩ := takeWhile_append_of_head (fun c hc => (h c hc).2.1) rest
  unfold readKind at hread
  repeat' split at hread
  all_goals simp only [Except.ok.injEq, Prod.mk.injEq, reduceCtorEq] at hread
  all_goals obtain ⟨rfl, rfl⟩ := hread
  case isTrue hdigit =>
    unfold readKind
    rw [if_pos hdigit, htakeNumber, hdropNumber]
  case isFalse.isTrue hdigit hletter =>
    unfold readKind
    rw [if_neg hdigit, if_pos hletter, htakeWord, hdropWord]
  -- A text ends at its closing quote, which is already there.
  case h_2 contents after hquoted =>
    rw [eq_append_of_readText? hquoted, List.append_assoc, List.cons_append,
      readKind_text _ _ (notMem_of_readText? hquoted)]
  -- Three signs could go on: what follows them is unchanged, or it is the seam.
  case h_13 hne => exact readKind_not (h.append_ne_cons hne)
  case h_15 hne => exact readKind_assign (h.append_ne_cons hne)
  case h_17 => exact readKind_minus h.isDigit_eq_false
  case h_16.isTrue d tail _ _ hdigit =>
    rw [List.cons_append] at htakeNumber hdropNumber ⊢
    simp only [readKind, show ('-' : Char).isDigit = false from rfl,
      show isLetter '-' = false from rfl, Bool.false_eq_true, if_false, hdigit, if_true,
      htakeNumber, hdropNumber]
  case h_16.isFalse d tail _ _ hdigit => exact readKind_minus (by simpa using hdigit)
  all_goals rfl

end Seam

/-! ### Columns -/

/-- The same ending `k` columns further to the right. -/
def Ending.shift (k : Nat) : Ending → Ending
  | endOfLine column => .endOfLine (column + k)
  | failed error => .failed { error with column := error.column + k }

namespace TokenStream

/-- The same tokens `k` columns further to the right. -/
def shift (k : Nat) (s : TokenStream) : TokenStream :=
  ⟨s.tokens.map fun t => { t with column := t.column + k }, s.ending.shift k⟩

theorem map_kind_shift (k : Nat) (s : TokenStream) :
    (s.shift k).tokens.map Token.kind = s.tokens.map Token.kind := by
  simp [shift, Function.comp_def]

theorem scan_add (column k : Nat) (cs : List Char) :
    scan (column + k) cs = (scan column cs).shift k := by
  induction column, cs using scan.induct with
  | case1 column => rw [scan, scan]; rfl
  | case2 column c rest hblank ih =>
    rw [scan_blank hblank, scan_blank hblank, ← ih, Nat.add_right_comm]
  | case3 column c rest hblank fault hread =>
    rw [Bool.not_eq_true] at hblank
    rw [scan_fault hblank hread, scan_fault hblank hread]
    rfl
  | case4 column c rest hblank kind after hread ih =>
    rw [Bool.not_eq_true] at hblank
    rw [scan_token hblank hread, scan_token hblank hread, Nat.add_right_comm, ih]
    rfl

theorem exists_scan_dropBlankStart (column : Nat) (cs : List Char) :
    ∃ column', scan column cs = scan column' (dropBlankStart cs) := by
  induction cs generalizing column with
  | nil => exact ⟨column, rfl⟩
  | cons c rest ih =>
    by_cases hblank : isBlank c = true
    · rw [scan_blank hblank, dropBlankStart, List.dropWhile_cons_of_pos hblank]
      exact ih _
    · rw [dropBlankStart, List.dropWhile_cons_of_neg hblank]
      exact ⟨column, rfl⟩

/-- A text that is scanned to its end ends behind its last unit. -/
theorem ending_scan {column last : Nat} {cs : List Char}
    (h : (scan column cs).ending = .endOfLine last) : last = column + unitLength cs := by
  induction column, cs using scan.induct with
  | case1 column =>
    rw [scan] at h
    exact (Ending.endOfLine.inj h).symm
  | case2 column c rest hblank ih =>
    rw [scan_blank hblank] at h
    rw [ih h, unitLength_cons, Nat.add_assoc]
  | case3 column c rest hblank fault hread =>
    rw [scan_fault (by simpa using hblank) hread] at h
    exact absurd h (by simp)
  | case4 column c rest hblank kind after hread ih =>
    rw [scan_token (by simpa using hblank) hread] at h
    rw [ih h, ← readKind_spelling hread, unitLength_append, Nat.add_assoc, Kind.width]

/-- After a text that is scanned to its end, the scan starts anew. -/
theorem scan_append {column last : Nat} {cs more : List Char}
    (h : (scan column cs).ending = .endOfLine last) (hmore : Delimited more) :
    scan column (cs ++ more) = { scan last more with
      tokens := (scan column cs).tokens ++ (scan last more).tokens } := by
  induction column, cs using scan.induct with
  | case1 column =>
    rw [scan] at h ⊢
    obtain rfl := Ending.endOfLine.inj h
    rfl
  | case2 column c rest hblank ih =>
    rw [scan_blank hblank] at h ⊢
    rw [List.cons_append, scan_blank hblank, ih h]
  | case3 column c rest hblank fault hread =>
    rw [scan_fault (by simpa using hblank) hread] at h
    exact absurd h (by simp)
  | case4 column c rest hblank kind after hread ih =>
    rw [Bool.not_eq_true] at hblank
    rw [scan_token hblank hread] at h ⊢
    rw [List.cons_append, scan_token hblank (readKind_append hmore hread), ih h]
    rfl

end TokenStream

/-! ### Lines -/

open TokenStream

variable {s t : String} {v w : List Kind}

/-- A line has the same tokens from any column. -/
theorem lineWord_iff_scan (column : Nat) : LineWord t w ↔
    (∃ last, (scan column t.toList).ending = .endOfLine last) ∧
      (scan column t.toList).tokens.map Token.kind = w := by
  rw [lineWord_iff, ofString, ← Nat.zero_add column, scan_add, map_kind_shift]
  rcases scan 0 t.toList with ⟨tokens, last | error⟩
  · simp [shift, Ending.shift]
  · simp [shift, Ending.shift]

theorem LineWord.append (hs : LineWord s v) (ht : LineWord t w) (h : Delimited t.toList) :
    LineWord (s ++ t) (v ++ w) := by
  obtain ⟨⟨last, hlast⟩, hv⟩ := (lineWord_iff_scan 0).mp hs
  obtain ⟨hending, hw⟩ := (lineWord_iff_scan last).mp ht
  rw [lineWord_iff_scan 0, String.toList_append, scan_append hlast h]
  refine ⟨hending, ?_⟩
  rw [List.map_append, hv, hw]

theorem LineWord.blank_append (ht : LineWord t w) : LineWord (" " ++ t) w := by
  have hscan : scan 0 (" " ++ t).toList = scan 1 t.toList := by
    rw [String.toList_append]
    exact scan_blank rfl
  rw [lineWord_iff_scan 0, hscan]
  exact (lineWord_iff_scan 1).mp ht

/-- Nothing goes on with an opening parenthesis. -/
theorem LineWord.leftParen_append (ht : LineWord t w) : LineWord ("(" ++ t) (.leftParen :: w) := by
  have hscan : scan 0 ("(" ++ t).toList =
      { scan 1 t.toList with tokens := ⟨.leftParen, 0⟩ :: (scan 1 t.toList).tokens } := by
    rw [String.toList_append]
    exact scan_token rfl rfl
  obtain ⟨hending, hw⟩ := (lineWord_iff_scan 1).mp ht
  rw [lineWord_iff_scan 0, hscan]
  exact ⟨hending, congrArg (Kind.leftParen :: ·) hw⟩

theorem delimited_blank_append (t : String) : Delimited (" " ++ t).toList := by
  rw [String.toList_append]
  exact delimited_cons rfl rfl (by decide)

theorem LineWord.spaced (hs : LineWord s v) (ht : LineWord t w) :
    LineWord (s ++ " " ++ t) (v ++ w) := by
  rw [String.append_assoc]
  exact hs.append ht.blank_append (delimited_blank_append t)

theorem lineWord_spelling {k : Kind} (h : k.WellFormed) : LineWord k.spelling [k] := by
  have hword : ∀ l ∈ [k], l.WellFormed := by simpa using h
  have hline := lineWord_spelled hword
  rwa [spelled, String.ofList_toList] at hline

theorem LineWord.group (ht : LineWord t w) :
    LineWord ("(" ++ t ++ ")") (.leftParen :: (w ++ [.rightParen])) := by
  have hdelimited : Delimited ")".toList := delimited_cons rfl rfl (by decide)
  rw [String.append_assoc]
  exact (ht.append (lineWord_spelling (k := .rightParen) trivial) hdelimited).leftParen_append

theorem LineWord.semicolon (ht : LineWord t w) : LineWord (t ++ ";") (w ++ [.semicolon]) := by
  have hdelimited : Delimited ";".toList := delimited_cons rfl rfl (by decide)
  exact ht.append (lineWord_spelling (k := .semicolon) trivial) hdelimited

/-! ### A blank at the seam -/

theorem delimited_of_isBlank {b : Char} (h : isBlank b = true) (rest : List Char) :
    Delimited (b :: rest) := by
  have hsign : b ≠ '=' := by
    rintro rfl
    exact absurd h (by decide)
  exact delimited_cons (isNumberPart_eq_false_of_isBlank b h) (isWordPart_eq_false_of_isBlank b h)
    hsign

theorem unitWidth_of_isBlank {b : Char} (h : isBlank b = true) : unitWidth b = 1 := by
  have hbound : ∀ n ∈ blanks, n < 0x10000 := by decide
  exact if_pos (hbound _ (isBlank_eq_true_iff.mp h))

/-- After a text that is scanned to its end and a blank, the scan is that of what follows,
further to the right. -/
theorem TokenStream.ofString_append_blank_append {last : Nat} {b : Char} (hb : isBlank b = true)
    (h : (ofString s).ending = .endOfLine last) :
    ofString (s ++ b.toString ++ t) =
      { (ofString t).shift (unitLength s.toList + 1) with
        tokens := (ofString s).tokens ++
          ((ofString t).shift (unitLength s.toList + 1)).tokens } := by
  have hchars : (s ++ b.toString ++ t).toList = s.toList ++ b :: t.toList := by
    simp
  have hlast : last = unitLength s.toList := by
    rw [ending_scan h, Nat.zero_add]
  have hshift : scan last (b :: t.toList) = (ofString t).shift (unitLength s.toList + 1) := by
    have hmoved := scan_add 0 (unitLength s.toList + 1) t.toList
    rw [Nat.zero_add] at hmoved
    rw [scan_blank hb, unitWidth_of_isBlank hb, hlast, hmoved, ofString]
  rw [ofString, hchars, scan_append h (delimited_of_isBlank hb _), hshift]
  rfl

theorem filter_tokens_ofString (line : String) :
    (ofString line).tokens.filter (·.kind ≠ .endOfLine) = (ofString line).tokens := by
  rw [List.filter_eq_self]
  intro u hu
  exact decide_eq_true (kind_ne_endOfLine line u hu)

/-- Behind a text that has tokens and a blank, a second text adds its own tokens, further to
the right by the length of both, or its own error there. -/
theorem tokenize_append_blank_append {b : Char} {tokens : List Token}
    (hs : tokenize s = .ok tokens) (hb : isBlank b = true) :
    tokenize (s ++ b.toString ++ t) =
      match tokenize t with
      | .ok more => .ok (tokens.filter (·.kind ≠ .endOfLine) ++
          more.map fun u => { u with column := u.column + (unitLength s.toList + 1) })
      | .error error =>
        .error { error with column := error.column + (unitLength s.toList + 1) } := by
  obtain ⟨last, hlast, rfl⟩ := tokenize_eq_ok_iff.mp hs
  have hstream := TokenStream.ofString_append_blank_append (t := t) hb hlast
  have hkept : ((ofString s).tokens ++ [(⟨.endOfLine, last⟩ : Token)]).filter
      (·.kind ≠ .endOfLine) = (ofString s).tokens := by
    rw [List.filter_append, filter_tokens_ofString]
    simp
  rw [hkept]
  cases ht : (ofString t).ending with
  | endOfLine column =>
    have hmore := tokenize_eq_ok_iff.mpr ⟨column, ht, rfl⟩
    rw [hmore]
    refine tokenize_eq_ok_iff.mpr ⟨column + (unitLength s.toList + 1), ?_, ?_⟩
    · rw [hstream, shift, ht]
      rfl
    · rw [hstream, List.map_append, ← List.append_assoc]
      rfl
  | failed error =>
    rw [tokenize_eq_error_iff.mpr ht]
    refine tokenize_eq_error_iff.mpr ?_
    rw [hstream, shift, ht]
    rfl

/-- A sign that could go on with `=` stands before the blank, and a character of two units
that starts no token behind it. -/
theorem tokenize_append_blank_append_sign :
    tokenize "a !" = .ok [⟨.name "a", 0⟩, ⟨.not, 2⟩, ⟨.endOfLine, 3⟩] ∧
      isBlank '\t' = true ∧
      tokenize "= 😀" = .error ⟨.unexpectedCharacter '😀', 2⟩ ∧
      tokenize ("a !" ++ '\t'.toString ++ "= 😀") = .error ⟨.unexpectedCharacter '😀', 6⟩ := by
  have hs : tokenize "a !" = .ok [⟨.name "a", 0⟩, ⟨.not, 2⟩, ⟨.endOfLine, 3⟩] := by decide +kernel
  have hb : isBlank '\t' = true := rfl
  have ht : tokenize "= 😀" = .error ⟨.unexpectedCharacter '😀', 2⟩ := by decide +kernel
  refine ⟨hs, hb, ht, ?_⟩
  rw [tokenize_append_blank_append hs hb, ht]
  rfl

end Linewise
