/-
Reading back the spelling of tokens.

* `Kind.WellFormed` — the tokens that a line can hold;
* `wellFormed_of_readKind`, `LineWord.wellFormed` — all tokens of a line are such;
* `readKind_spelling_append` — such a token is read back from its spelling, if the
  text ends or a blank follows;
* `spelled`, `placed` — the spellings of tokens with one blank between them, and the
  tokens at their columns;
* `scan_spelled` — exactly these tokens are scanned there;
* `lead`, `exists_spelled_append`, `getElem?_placed` — where each of the spellings stands;
* `tokenize_intercalate_spelling` — so spelling tokens and reading them again gives the
  tokens, at the columns of their spellings.
-/
import Linewise.Proofs.Token.Scan

namespace Linewise

open Text

/-- What a token of a line can be. -/
def Kind.WellFormed : Kind → Prop
  | number s => NumberText s.toList
  | text s => '"' ∉ s.toList
  | name s => ofWord s = name s ∧
      ∃ c cs, s.toList = c :: cs ∧ isLetter c = true ∧ ∀ x ∈ cs, isWordPart x = true
  | endOfLine => False
  | _ => True

/-- The words that are no names. -/
def keywords : List String := ["true", "false", "and", "or", "print"]

theorem Kind.ofWord_eq_name_iff {word : String} : ofWord word = name word ↔ word ∉ keywords := by
  unfold ofWord
  split <;> simp_all [keywords]

/-- What a variable can be called: a letter and then letters and digits, but no
keyword. -/
def Identifier (name : String) : Prop :=
  (∃ c cs, name.toList = c :: cs ∧ isLetter c = true ∧ ∀ x ∈ cs, isWordPart x = true) ∧
    name ∉ keywords

theorem Kind.wellFormed_name_iff {s : String} : (name s).WellFormed ↔ Identifier s := by
  rw [WellFormed, Identifier, ofWord_eq_name_iff, and_comm]

theorem Identifier.wellFormed {name : String} (h : Identifier name) : (Kind.name name).WellFormed :=
  Kind.wellFormed_name_iff.mpr h

/-! ### Single tokens -/

/-- The text ends here, or it goes on with a blank. -/
def Separated (cs : List Char) : Prop := ∀ c ∈ cs.head?, isBlank c = true

theorem isNumberPart_eq_false_of_isBlank (c : Char) (h : isBlank c = true) :
    isNumberPart c = false := by
  have hne : c ≠ '.' := by
    rintro rfl
    exact absurd h (by decide)
  simp [isNumberPart, isDigit_eq_false_of_isBlank h, hne]

theorem isWordPart_eq_false_of_isBlank (c : Char) (h : isBlank c = true) :
    isWordPart c = false := by
  simp [isWordPart, isLetter_eq_false_of_isBlank h, isDigit_eq_false_of_isBlank h]

theorem notMem_of_readText? {cs contents after : List Char}
    (h : readText? cs = some (contents, after)) : '"' ∉ contents := by
  unfold readText? at h
  split at h
  · exact absurd h (by simp)
  · obtain ⟨rfl, -⟩ : cs.takeWhile (· != '"') = contents ∧ _ = after := by simpa using h
    intro hquote
    exact absurd (List.mem_takeWhile_imp hquote) (by simp)

theorem quote_notMem_of_readKind {c : Char} {rest after : List Char} {contents : String}
    (h : readKind c rest = .ok (.text contents, after)) : '"' ∉ contents.toList := by
  have hword : ∀ word, Kind.ofWord word ≠ .text contents := by
    intro word
    unfold Kind.ofWord
    split <;> simp
  unfold readKind at h
  repeat' split at h
  all_goals simp only [Except.ok.injEq, Prod.mk.injEq, reduceCtorEq, Kind.text.injEq, hword,
    false_and] at h
  next cs _ htext =>
    obtain ⟨rfl, -⟩ := h
    rw [String.toList_ofList]
    exact notMem_of_readText? htext

theorem identifier_of_readKind {c : Char} {rest after : List Char} {s : String}
    (h : readKind c rest = .ok (.name s, after)) : Identifier s := by
  unfold readKind at h
  repeat' split at h
  all_goals simp only [Except.ok.injEq, Prod.mk.injEq, reduceCtorEq, false_and] at h
  next hletter =>
    -- A word that is a name is the name itself.
    have hspelling : s = String.ofList (c :: rest.takeWhile isWordPart) := by
      rw [← Kind.spelling_ofWord (String.ofList (c :: rest.takeWhile isWordPart)), h.1]
      rfl
    refine ⟨⟨c, rest.takeWhile isWordPart, ?_, hletter, fun x hx => List.mem_takeWhile_imp hx⟩, ?_⟩
    · rw [hspelling, String.toList_ofList]
    · rw [← hspelling] at h
      exact Kind.ofWord_eq_name_iff.mp h.1

/-- A token that is read is one of these. -/
theorem wellFormed_of_readKind {c : Char} {rest after : List Char} {kind : Kind}
    (h : readKind c rest = .ok (kind, after)) : kind.WellFormed := by
  cases kind with
  | number s => exact numberText_of_readKind h
  | text s => exact quote_notMem_of_readKind h
  | name s => exact (identifier_of_readKind h).wellFormed
  | endOfLine => exact absurd rfl (Kind.ne_endOfLine_of_readKind h)
  | _ => trivial

theorem LineWord.wellFormed {line : String} {word : List Kind} (h : LineWord line word) :
    ∀ k ∈ word, k.WellFormed := by
  intro k hk
  obtain ⟨-, rfl⟩ := lineWord_iff.mp h
  obtain ⟨t, ht, rfl⟩ := List.mem_map.mp hk
  exact TokenStream.forall_mem_scan wellFormed_of_readKind 0 line.toList t ht

theorem readText?_contents (contents after : List Char) (hcontents : '"' ∉ contents) :
    readText? (contents ++ '"' :: after) = some (contents, after) := by
  have hplain : ∀ x ∈ contents, (x != '"') = true := by
    intro x hx
    simp only [bne_iff_ne, ne_eq]
    rintro rfl
    exact hcontents hx
  unfold readText?
  rw [List.dropWhile_append_of_pos hplain, List.takeWhile_append_of_pos hplain]
  simp

theorem readKind_text (contents after : List Char) (hcontents : '"' ∉ contents) :
    readKind '"' (contents ++ '"' :: after) = .ok (.text (String.ofList contents), after) := by
  have hread := readText?_contents contents after hcontents
  simp only [readKind, show ('"' : Char).isDigit = false from rfl,
    show isLetter '"' = false from rfl, Bool.false_eq_true, if_false, hread]

theorem readKind_not {cs : List Char} (h : ∀ rest, cs ≠ '=' :: rest) :
    readKind '!' cs = .ok (.not, cs) := by
  simp [readKind, show isLetter '!' = false from rfl]

theorem readKind_assign {cs : List Char} (h : ∀ rest, cs ≠ '=' :: rest) :
    readKind '=' cs = .ok (.assign, cs) := by
  simp [readKind, show isLetter '=' = false from rfl]

theorem readKind_minus {cs : List Char} (h : ∀ c ∈ cs.head?, c.isDigit = false) :
    readKind '-' cs = .ok (.minus, cs) := by
  rcases cs with _ | ⟨c, rest⟩
  · rfl
  · simp [readKind, show isLetter '-' = false from rfl, h c rfl]

section Separated

variable {after : List Char} (h : Separated after)

include h

theorem Separated.takeWhile_append {p : Char → Bool} {cs : List Char}
    (hp : ∀ c, isBlank c = true → p c = false) (hcs : ∀ x ∈ cs, p x = true) :
    (cs ++ after).takeWhile p = cs ∧ (cs ++ after).dropWhile p = after := by
  rw [List.takeWhile_append_of_pos hcs, List.dropWhile_append_of_pos hcs]
  cases after with
  | nil => simp
  | cons c rest => simp [hp c (h c rfl)]

theorem Separated.ne_cons {c : Char} {rest : List Char} (hc : isBlank c = false) :
    after ≠ c :: rest := by
  rintro rfl
  exact absurd (h c rfl) (by simp [hc])

theorem readKind_word {c : Char} {cs : List Char} (hc : isLetter c = true)
    (hcs : ∀ x ∈ cs, isWordPart x = true) :
    readKind c (cs ++ after) = .ok (.ofWord (String.ofList (c :: cs)), after) := by
  have hdigit : c.isDigit = false := by
    rw [Bool.eq_false_iff]
    intro hd
    exact absurd hc (by simp [isLetter_eq_false_of_isDigit hd])
  obtain ⟨htake, hdrop⟩ := h.takeWhile_append isWordPart_eq_false_of_isBlank hcs
  unfold readKind
  rw [if_neg (by simp [hdigit]), if_pos hc, htake, hdrop]

theorem readKind_digits {c : Char} {cs : List Char} (hc : c.isDigit = true)
    (hcs : ∀ x ∈ cs, isNumberPart x = true) :
    readKind c (cs ++ after) = .ok (.number (String.ofList (c :: cs)), after) := by
  obtain ⟨htake, hdrop⟩ := h.takeWhile_append isNumberPart_eq_false_of_isBlank hcs
  unfold readKind
  rw [if_pos hc, htake, hdrop]

theorem readKind_negative {c : Char} {cs : List Char} (hc : c.isDigit = true)
    (hcs : ∀ x ∈ cs, isNumberPart x = true) :
    readKind '-' (c :: cs ++ after) = .ok (.number (String.ofList ('-' :: c :: cs)), after) := by
  have hparts : ∀ x ∈ c :: cs, isNumberPart x = true := by
    intro x hx
    rcases List.mem_cons.mp hx with rfl | hx
    · simp [isNumberPart, hc]
    · exact hcs x hx
  obtain ⟨htake, hdrop⟩ := h.takeWhile_append isNumberPart_eq_false_of_isBlank hparts
  rw [List.cons_append] at htake hdrop ⊢
  simp only [readKind, show ('-' : Char).isDigit = false from rfl,
    show isLetter '-' = false from rfl, Bool.false_eq_true, if_false, hc, if_true, htake, hdrop]

/-- A well-formed token is read back from its spelling. -/
theorem readKind_spelling_append {k : Kind} (hk : k.WellFormed) :
    ∃ c cs, k.spelling.toList = c :: cs ∧ isBlank c = false ∧
      readKind c (cs ++ after) = .ok (k, after) := by
  have hword : ∀ c cs, isLetter c = true → cs.all isWordPart = true →
      isBlank c = false ∧
        readKind c (cs ++ after) = .ok (.ofWord (String.ofList (c :: cs)), after) := by
    intro c cs hc hcs
    refine ⟨?_, readKind_word h hc (List.all_eq_true.mp hcs)⟩
    rw [Bool.eq_false_iff]
    intro hblank
    exact absurd hc (by simp [isLetter_eq_false_of_isBlank hblank])
  have hdigit : ∀ c : Char, c.isDigit = true → isBlank c = false := by
    intro c hc
    rw [Bool.eq_false_iff]
    intro hblank
    exact absurd hc (by simp [isDigit_eq_false_of_isBlank hblank])
  cases k with
  | number s =>
    obtain ⟨d, ds, hd, hds, hs | hs⟩ := hk
    · refine ⟨d, ds, hs, hdigit d hd, ?_⟩
      rw [readKind_digits h hd hds, ← hs, String.ofList_toList]
    · refine ⟨'-', d :: ds, hs, rfl, ?_⟩
      rw [readKind_negative h hd hds, ← hs, String.ofList_toList]
  | text s =>
    refine ⟨'"', s.toList ++ ['"'], by simp [Kind.spelling], rfl, ?_⟩
    rw [List.append_assoc, List.singleton_append, readKind_text s.toList after hk,
      String.ofList_toList]
  | name s =>
    obtain ⟨hname, c, cs, hs, hc, hcs⟩ := hk
    obtain ⟨hblank, hread⟩ := hword c cs hc (List.all_eq_true.mpr hcs)
    refine ⟨c, cs, hs, hblank, ?_⟩
    rw [hread, ← hs, String.ofList_toList, hname]
  | boolean value =>
    cases value with
    | true => exact ⟨'t', ['r', 'u', 'e'], rfl, hword 't' ['r', 'u', 'e'] rfl rfl⟩
    | false =>
      exact ⟨'f', ['a', 'l', 's', 'e'], rfl, hword 'f' ['a', 'l', 's', 'e'] rfl rfl⟩
  | print =>
    exact ⟨'p', ['r', 'i', 'n', 't'], rfl, hword 'p' ['r', 'i', 'n', 't'] rfl rfl⟩
  | and style =>
    cases style with
    | word => exact ⟨'a', ['n', 'd'], rfl, hword 'a' ['n', 'd'] rfl rfl⟩
    | sign => exact ⟨'&', [], rfl, rfl, rfl⟩
  | or style =>
    cases style with
    | word => exact ⟨'o', ['r'], rfl, hword 'o' ['r'] rfl rfl⟩
    | sign => exact ⟨'|', [], rfl, rfl, rfl⟩
  | equal => exact ⟨'=', ['='], rfl, rfl, rfl⟩
  | notEqual => exact ⟨'!', ['='], rfl, rfl, rfl⟩
  -- Three signs go on if the right character follows, and a blank is none of these.
  | not => exact ⟨'!', [], rfl, rfl, readKind_not fun rest => h.ne_cons rfl⟩
  | assign => exact ⟨'=', [], rfl, rfl, readKind_assign fun rest => h.ne_cons rfl⟩
  | minus =>
    exact ⟨'-', [], rfl, rfl, readKind_minus fun c hc => isDigit_eq_false_of_isBlank (h c hc)⟩
  | endOfLine => exact hk.elim
  | _ => exact ⟨_, [], rfl, rfl, rfl⟩

end Separated

/-! ### Tokens with blanks between them -/

/-- The spellings of tokens with one blank between them. -/
def spelled : List Kind → List Char
  | [] => []
  | [k] => k.spelling.toList
  | k :: l :: rest => k.spelling.toList ++ ' ' :: spelled (l :: rest)

/-- Tokens with one column between them, the first one at `column`. -/
def placed (column : Nat) : List Kind → List Token
  | [] => []
  | k :: rest => ⟨k, column⟩ :: placed (column + k.width + 1) rest

theorem map_kind_placed (column : Nat) (word : List Kind) :
    (placed column word).map Token.kind = word := by
  induction word generalizing column with
  | nil => rfl
  | cons k rest ih => rw [placed, List.map_cons, ih]

/-- A letter that is no word of its own is a name. -/
theorem Kind.wellFormed_letter {s : String} {c : Char} (hs : s.toList = [c])
    (hname : ofWord s = name s) (hc : isLetter c = true) : (name s).WellFormed :=
  ⟨hname, c, [], hs, hc, by simp⟩

namespace TokenStream

theorem scan_spelling_append {k : Kind} {after : List Char} (column : Nat) (hk : k.WellFormed)
    (hafter : Separated after) : scan column (k.spelling.toList ++ after) =
      { scan (column + k.width) after with
        tokens := ⟨k, column⟩ :: (scan (column + k.width) after).tokens } := by
  obtain ⟨c, cs, hspelling, hblank, hread⟩ := readKind_spelling_append hafter hk
  rw [hspelling, List.cons_append, scan_token hblank hread]

theorem scan_spelled {word : List Kind} (h : ∀ k ∈ word, k.WellFormed) (column : Nat) :
    scan column (spelled word) =
      ⟨placed column word, .endOfLine (column + unitLength (spelled word))⟩ := by
  induction word generalizing column with
  | nil => rw [spelled, scan]; rfl
  | cons k rest ih =>
    have hk := h k List.mem_cons_self
    have hrest := fun l hl => h l (List.mem_cons_of_mem k hl)
    cases rest with
    | nil =>
      have hnil := scan_spelling_append column hk (show Separated [] by simp [Separated])
      rw [List.append_nil] at hnil
      rw [spelled, hnil, scan]
      rfl
    | cons l rest =>
      have hafter : Separated (' ' :: spelled (l :: rest)) := by
        simp [Separated, show isBlank ' ' = true from rfl]
      have hplaced : placed column (k :: l :: rest) =
          ⟨k, column⟩ :: placed (column + k.width + 1) (l :: rest) := rfl
      have hblank : unitWidth ' ' = 1 := rfl
      rw [spelled, scan_spelling_append column hk hafter, scan_blank rfl, ih hrest, hplaced,
        unitLength_append, unitLength_cons, hblank]
      simp only [← Nat.add_assoc, Kind.width]

theorem ofString_spelled {word : List Kind} (h : ∀ k ∈ word, k.WellFormed) :
    ofString (String.ofList (spelled word)) =
      ⟨placed 0 word, .endOfLine (unitLength (spelled word))⟩ := by
  rw [ofString, String.toList_ofList, scan_spelled h, Nat.zero_add]

end TokenStream

/-- Well-formed tokens are the tokens of a line. -/
theorem lineWord_spelled {word : List Kind} (h : ∀ k ∈ word, k.WellFormed) :
    LineWord (String.ofList (spelled word)) word := by
  rw [lineWord_iff, TokenStream.ofString_spelled h]
  exact ⟨⟨_, rfl⟩, map_kind_placed 0 word⟩

/-! ### Columns -/

/-- The spellings of tokens with a blank behind each: what stands before the token that
follows them. -/
def lead (word : List Kind) : List Char := word.flatMap fun k => k.spelling.toList ++ [' ']

theorem lead_cons (k : Kind) (word : List Kind) :
    lead (k :: word) = k.spelling.toList ++ ' ' :: lead word := by
  simp [lead]

theorem ofList_spelled (word : List Kind) :
    String.ofList (spelled word) = " ".intercalate (word.map Kind.spelling) := by
  induction word with
  | nil => rfl
  | cons k rest ih =>
    cases rest with
    | nil => rw [spelled, String.ofList_toList]; rfl
    | cons l rest =>
      rw [List.map_cons] at ih
      rw [spelled, List.map_cons, List.map_cons, String.intercalate_cons_cons, ← ih]
      apply String.ext
      simp

/-- Behind its lead every token is spelled. -/
theorem exists_spelled_append (before : List Kind) (k : Kind) (after : List Kind) :
    ∃ behind, spelled (before ++ k :: after) = lead before ++ k.spelling.toList ++ behind := by
  induction before with
  | nil =>
    cases after with
    | nil => exact ⟨[], (List.append_nil _).symm⟩
    | cons l after => exact ⟨' ' :: spelled (l :: after), rfl⟩
  | cons b before ih =>
    obtain ⟨behind, hbehind⟩ := ih
    obtain ⟨l, rest, hrest⟩ : ∃ l rest, before ++ k :: after = l :: rest :=
      List.exists_cons_of_ne_nil (by simp)
    refine ⟨behind, ?_⟩
    rw [hrest] at hbehind
    rw [List.cons_append, hrest, spelled, hbehind, lead_cons]
    simp

/-- Every token is placed at the end of its lead. -/
theorem getElem?_placed (column : Nat) (before : List Kind) (k : Kind) (after : List Kind) :
    (placed column (before ++ k :: after))[before.length]? =
      some ⟨k, column + unitLength (lead before)⟩ := by
  induction before generalizing column with
  | nil => rfl
  | cons b before ih =>
    have hwidth : unitLength (lead (b :: before)) = b.width + 1 + unitLength (lead before) := by
      rw [lead_cons, unitLength_append, unitLength_cons, ← Kind.width, Nat.add_assoc]
      rfl
    rw [List.cons_append, placed, List.length_cons, List.getElem?_cons_succ, ih, hwidth]
    simp only [← Nat.add_assoc]

/-- Well-formed tokens that are spelled with one blank between them are read back, each
with the column at which its spelling stands, and the line ends behind them. -/
theorem tokenize_intercalate_spelling {word : List Kind} (h : ∀ k ∈ word, k.WellFormed) :
    let line := " ".intercalate (word.map Kind.spelling)
    ∃ tokens, tokenize line = .ok (tokens ++ [⟨.endOfLine, unitLength line.toList⟩]) ∧
      tokens.map Token.kind = word ∧
      ∀ before k after, word = before ++ k :: after → ∃ behind,
        line.toList = lead before ++ k.spelling.toList ++ behind ∧
        tokens[before.length]? = some ⟨k, unitLength (lead before)⟩ := by
  intro line
  have hline : line = String.ofList (spelled word) := (ofList_spelled word).symm
  have htext : line.toList = spelled word := by rw [hline, String.toList_ofList]
  refine ⟨placed 0 word, ?_, map_kind_placed 0 word, ?_⟩
  · rw [htext, hline, tokenize, TokenStream.ofString_spelled h]
    rfl
  · rintro before k after rfl
    obtain ⟨behind, hbehind⟩ := exists_spelled_append before k after
    refine ⟨behind, htext.trans hbehind, ?_⟩
    rw [getElem?_placed, Nat.zero_add]

/-- A minus that stands alone, a number with its own minus, signs that are part of longer
ones, and a text that holds a word and a sign. -/
theorem tokenize_intercalate_spelling_signs :
    (∀ k ∈ [Kind.minus, .number "-1.", .not, .assign, .equal, .text "or ="], k.WellFormed) ∧
      ∃ tokens, tokenize "- -1. ! = == \"or =\"" = .ok (tokens ++ [⟨.endOfLine, 19⟩]) ∧
        tokens.map Token.kind = [.minus, .number "-1.", .not, .assign, .equal, .text "or ="] ∧
        tokens[1]? = some ⟨.number "-1.", 2⟩ := by
  have hnumber : NumberText "-1.".toList :=
    ⟨'1', ['.'], rfl, by simp [isNumberPart], Or.inr rfl⟩
  have hwellFormed : ∀ k ∈ [Kind.minus, .number "-1.", .not, .assign, .equal, .text "or ="],
      k.WellFormed := by
    simp only [List.forall_mem_cons]
    exact ⟨trivial, hnumber, trivial, trivial, trivial, by simp [Kind.WellFormed], by simp⟩
  have hline : " ".intercalate ([Kind.minus, .number "-1.", .not, .assign, .equal,
      .text "or ="].map Kind.spelling) = "- -1. ! = == \"or =\"" := rfl
  obtain ⟨tokens, htokens, hkinds, hcolumn⟩ := tokenize_intercalate_spelling hwellFormed
  rw [hline] at htokens
  obtain ⟨-, -, hsecond⟩ := hcolumn [.minus] (.number "-1.") _ rfl
  exact ⟨hwellFormed, tokens, htokens, hkinds, hsecond⟩

end Linewise
