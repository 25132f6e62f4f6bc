/-
Where the tokens of a line lie in it.

* `Laid` — tokens that make up a text together with the blanks between them;
* `Laid.exists_split`, `Laid.apart`, `Laid.spanned` — such tokens stand at their columns,
  one behind the other, and what is outside of them is blank;
* `Stops`, `exists_laid_scan` — the tokens that are scanned are laid in the text up to where
  the scan stops;
* `startsToken`, `startsToken_iff`, `readKind_error_cases` — the characters that tokens start
  with, and what is wrong at a character at which none is read;
* `leadUnit`, `leadUnit_ne_of_startsToken` — no other character looks like one of these in
  its first UTF-16 unit;
* `current_iterate` — what reading on gives;
* `Covers`, `tokenize_covers` — what all this means for a line with its tokens, and for a
  line up to its error.

Design notes: `Laid` follows the steps of the scan, and `Covers` says the same of the whole
text without an order of reading.  A character lies in a token with all its units or with
none, so that columns in UTF-16 units never point into a character.
-/
import Linewise.Proofs.Token.Append
import Linewise.Proofs.Token.Columns
import Mathlib.Logic.Function.Iterate

namespace Linewise

open Text

/-! ### Tokens in a text -/

/-- From a column on, the text is made up of the spellings of the tokens, each at its
column, and of blanks. -/
inductive Laid : Nat → List Char → List Token → Prop
  | nil (column : Nat) : Laid column [] []
  | blank {column : Nat} {c : Char} {cs : List Char} {ts : List Token} (h : isBlank c = true)
      (rest : Laid (column + unitWidth c) cs ts) : Laid column (c :: cs) ts
  | token {column : Nat} (kind : Kind) {cs : List Char} {ts : List Token}
      (rest : Laid (column + kind.width) cs ts) :
      Laid column (kind.spelling.toList ++ cs) (⟨kind, column⟩ :: ts)

/-- The units from `first` on, up to `last`, belong to one of the tokens. -/
def Spanned (ts : List Token) (first last : Nat) : Prop :=
  ∃ t ∈ ts, t.column ≤ first ∧ last ≤ t.column + t.kind.width

theorem Spanned.cons {ts : List Token} {first last : Nat} (h : Spanned ts first last)
    (t : Token) : Spanned (t :: ts) first last := by
  obtain ⟨u, hu, hspan⟩ := h
  exact ⟨u, List.mem_cons_of_mem t hu, hspan⟩

namespace Laid

variable {column : Nat} {cs : List Char} {ts : List Token}

theorem le_column (h : Laid column cs ts) : ∀ t ∈ ts, column ≤ t.column := by
  induction h with
  | nil column => simp
  | blank h rest ih => exact fun t ht => Nat.le_of_add_right_le (ih t ht)
  | token kind rest ih =>
    exact List.forall_mem_cons.mpr ⟨Nat.le_refl _, fun t ht => Nat.le_of_add_right_le (ih t ht)⟩

/-- Every token stands in the text at its column. -/
theorem exists_split (h : Laid column cs ts) : ∀ t ∈ ts, ∃ before after,
    cs = before ++ t.kind.spelling.toList ++ after ∧ column + unitLength before = t.column := by
  induction h with
  | nil column => simp
  | @blank column c cs ts h rest ih =>
    intro t ht
    obtain ⟨before, after, hsplit, hcolumn⟩ := ih t ht
    refine ⟨c :: before, after, by rw [hsplit]; rfl, ?_⟩
    rw [unitLength_cons, ← Nat.add_assoc, hcolumn]
  | @token column kind cs ts rest ih =>
    intro t ht
    rcases List.mem_cons.mp ht with rfl | ht
    · exact ⟨[], cs, rfl, rfl⟩
    · obtain ⟨before, after, hsplit, hcolumn⟩ := ih t ht
      refine ⟨kind.spelling.toList ++ before, after, by simp [hsplit], ?_⟩
      rw [unitLength_append, ← Nat.add_assoc, ← Kind.width, hcolumn]

/-- The tokens stand one behind the other. -/
theorem apart (h : Laid column cs ts) :
    ts.Pairwise fun t u => t.column + t.kind.width ≤ u.column := by
  induction h with
  | nil column => exact .nil
  | blank h rest ih => exact ih
  | token kind rest ih => exact .cons rest.le_column ih

/-- A character that is no blank belongs to one of the tokens, with all its units. -/
theorem spanned (h : Laid column cs ts) {before after : List Char} {c : Char}
    (hsplit : cs = before ++ c :: after) (hc : isBlank c = false) :
    Spanned ts (column + unitLength before) (column + unitLength before + unitWidth c) := by
  induction h generalizing before with
  | nil column => exact absurd hsplit (by simp)
  | @blank column b cs ts hb rest ih =>
    cases before with
    | nil =>
      obtain ⟨rfl, -⟩ := List.cons.inj hsplit
      exact absurd hb (by simp [hc])
    | cons d before =>
      obtain ⟨rfl, hrest⟩ := List.cons.inj hsplit
      rw [unitLength_cons, ← Nat.add_assoc]
      exact ih hrest
  | @token column kind cs ts rest ih =>
    have hbehind : ∀ behind, before = kind.spelling.toList ++ behind → cs = behind ++ c :: after →
        Spanned (⟨kind, column⟩ :: ts) (column + unitLength before)
          (column + unitLength before + unitWidth c) := by
      rintro behind rfl hrest
      rw [unitLength_append, ← Nat.add_assoc, ← Kind.width]
      exact (ih hrest).cons ⟨kind, column⟩
    -- The character is in the first token, or in what follows it.
    rcases List.append_eq_append_iff.mp hsplit with ⟨behind, hbefore, hrest⟩ |
      ⟨_ | ⟨d, inside⟩, hspelling, hrest⟩
    · exact hbehind behind hbefore hrest
    · exact hbehind [] (by simpa using hspelling.symm) hrest.symm
    · obtain ⟨rfl, -⟩ := List.cons.inj hrest
      have hwidth : kind.width = unitLength before + (unitWidth c + unitLength inside) := by
        rw [Kind.width, hspelling, unitLength_append, unitLength_cons]
      refine ⟨⟨kind, column⟩, List.mem_cons_self, Nat.le_add_right _ _, ?_⟩
      show column + unitLength before + unitWidth c ≤ column + kind.width
      omega

end Laid

/-! ### The scan -/

/-- A scan ends where the text does, or at a character at which no token is read. -/
inductive Stops : Ending → List Char → Prop
  | endOfLine (column : Nat) : Stops (.endOfLine column) []
  | failed {column : Nat} {c : Char} {rest : List Char} {fault : LexFault}
      (hread : readKind c rest = .error fault) : Stops (.failed ⟨fault, column⟩) (c :: rest)

/-- The tokens that are scanned are laid in the text up to where the scan stops. -/
theorem TokenStream.exists_laid_scan (column : Nat) (cs : List Char) : ∃ read left,
    cs = read ++ left ∧ Laid column read (scan column cs).tokens ∧
      (scan column cs).ending.column = column + unitLength read ∧
      Stops (scan column cs).ending left := by
  induction column, cs using scan.induct with
  | case1 column =>
    rw [scan]
    exact ⟨[], [], rfl, .nil column, rfl, .endOfLine column⟩
  | case2 column c rest hblank ih =>
    obtain ⟨read, left, hsplit, hlaid, hending, hstops⟩ := ih
    rw [scan_blank hblank]
    refine ⟨c :: read, left, by rw [hsplit]; rfl, .blank hblank hlaid, ?_, hstops⟩
    rw [hending, unitLength_cons, Nat.add_assoc]
  | case3 column c rest hblank fault hread =>
    rw [scan_fault (by simpa using hblank) hread]
    exact ⟨[], c :: rest, rfl, .nil column, rfl, .failed hread⟩
  | case4 column c rest hblank kind after hread ih =>
    obtain ⟨read, left, hsplit, hlaid, hending, hstops⟩ := ih
    rw [scan_token (by simpa using hblank) hread]
    refine ⟨kind.spelling.toList ++ read, left, ?_, .token kind hlaid, ?_, hstops⟩
    · rw [List.append_assoc, ← hsplit, readKind_spelling hread]
    · rw [hending, unitLength_append, Nat.add_assoc, Kind.width]

/-! ### Characters that start a token -/

/-- The signs that a token can start with. -/
def leadingSigns : List Char :=
  ['"', '+', '*', '/', '(', ')', ';', '<', '>', '&', '|', '!', '=', '-']

/-- Whether tokens start with the character. -/
def startsToken (c : Char) : Bool := c.isDigit || isLetter c || leadingSigns.contains c

theorem startsToken_of_readKind {c : Char} {rest after : List Char} {kind : Kind}
    (h : readKind c rest = .ok (kind, after)) : startsToken c = true := by
  unfold readKind at h
  unfold startsToken
  split at h
  · next hdigit => simp [hdigit]
  · split at h
    · next hletter => simp [hletter]
    · split at h
      -- In the last case no token is read.
      case h_18 => exact absurd h (by simp)
      all_goals simp [leadingSigns]

theorem quote_notMem_of_readText? {cs : List Char} (h : readText? cs = none) : '"' ∉ cs := by
  unfold readText? at h
  split at h
  · next hdrop =>
    intro hquote
    exact absurd (List.dropWhile_eq_nil_iff.mp hdrop '"' hquote) (by decide)
  · exact absurd h (by simp)

/-- No token is read at a quote that is the last one, and at a character that starts none. -/
theorem readKind_error_cases {c : Char} {rest : List Char} {fault : LexFault}
    (h : readKind c rest = .error fault) :
    (c = '"' ∧ fault = .unterminatedText ∧ '"' ∉ rest) ∨
      (c ≠ '"' ∧ fault = .unexpectedCharacter c ∧ startsToken c = false) := by
  unfold readKind at h
  repeat' split at h
  all_goals simp only [Except.error.injEq, reduceCtorEq] at h
  all_goals obtain rfl := h
  · exact Or.inl ⟨rfl, rfl, quote_notMem_of_readText? ‹_›⟩
  · have hhyphen : c ≠ '-' := by
      intro hc
      cases rest with
      | nil => exact ‹c = '-' → [] = [] → False› hc rfl
      | cons d tail => exact ‹∀ e after, c = '-' → d :: tail = e :: after → False› d tail hc rfl
    refine Or.inr ⟨‹c ≠ '"'›, rfl, ?_⟩
    simp_all [startsToken, leadingSigns]

/-- The characters that start tokens are those at which a token can be read. -/
theorem startsToken_iff {c : Char} :
    startsToken c = true ↔ ∃ rest kind after, readKind c rest = .ok (kind, after) := by
  constructor
  · intro h
    -- A quote behind the character closes a text, and it does not matter to other tokens.
    cases hread : readKind c ['"'] with
    | ok result => exact ⟨['"'], result.1, result.2, hread⟩
    | error fault =>
      rcases readKind_error_cases hread with ⟨-, -, hquote⟩ | ⟨-, -, hstarts⟩
      · exact absurd List.mem_cons_self hquote
      · exact absurd h (by simp [hstarts])
  · rintro ⟨rest, kind, after, hread⟩
    exact startsToken_of_readKind hread

/-- The first character of every token of a line is one that tokens start with. -/
theorem startsToken_of_spelling {line : String} {t : Token}
    (ht : t ∈ (TokenStream.ofString line).tokens) {c : Char} {cs : List Char}
    (hspelling : t.kind.spelling.toList = c :: cs) : startsToken c = true := by
  refine TokenStream.forall_mem_scan
    (P := fun kind => ∀ c cs, kind.spelling.toList = c :: cs → startsToken c = true)
    ?_ 0 line.toList t ht c cs hspelling
  intro d rest kind after hread c cs hkind
  have happend := readKind_spelling hread
  rw [hkind] at happend
  obtain ⟨rfl, -⟩ := List.cons.inj happend
  exact startsToken_iff.mpr ⟨rest, kind, after, hread⟩

/-! ### First units -/

/-- The first UTF-16 unit of a character: the character itself, or the first half of the
pair for a character that takes two units. -/
def Text.leadUnit (c : Char) : Nat :=
  if c.toNat < 0x10000 then c.toNat else 0xD800 + (c.toNat - 0x10000) / 0x400

example : leadUnit '𝕏' = 0xD835 := by decide

/-- A character of one unit has its unit for itself: no character is half of a pair. -/
theorem Text.leadUnit_injective_of_lt {c d : Char} (hc : c.toNat < 0x10000)
    (h : leadUnit c = leadUnit d) : c = d := by
  have hvalid : c.toNat < 0xD800 ∨ 0xDFFF < c.toNat ∧ c.toNat < 0x110000 := c.valid
  have hvalid' : d.toNat < 0xD800 ∨ 0xDFFF < d.toNat ∧ d.toNat < 0x110000 := d.valid
  unfold leadUnit at h
  rw [if_pos hc] at h
  split at h
  · exact Char.toNat_inj.mp h
  · omega

theorem toNat_lt_of_startsToken {c : Char} (h : startsToken c = true) : c.toNat < 0x10000 := by
  have htable : ∀ r ∈ letterRanges, r.2 < 0x10000 := by decide +kernel
  have hsigns : leadingSigns.all (fun d => decide (d.toNat < 0x10000)) = true := by decide
  simp only [startsToken, Bool.or_eq_true, List.contains_iff_mem] at h
  obtain (hdigit | hletter) | hsign := h
  · simp only [Char.isDigit, Bool.and_eq_true, decide_eq_true_eq, UInt32.le_iff_toNat_le] at hdigit
    have hle : c.toNat ≤ 57 := hdigit.2
    omega
  · unfold isLetter at hletter
    split at hletter
    · omega
    · simp only [inRanges, List.any_eq_true, Bool.and_eq_true, decide_eq_true_eq] at hletter
      obtain ⟨r, hr, -, hle⟩ := hletter
      exact Nat.lt_of_le_of_lt hle (htable r hr)
  · exact of_decide_eq_true (List.all_eq_true.mp hsigns c hsign)

/-- Where no token starts, the unit is not the first one of any token. -/
theorem leadUnit_ne_of_startsToken {c d : Char} (hd : startsToken d = true)
    (hc : startsToken c = false) : leadUnit d ≠ leadUnit c := by
  intro h
  obtain rfl := leadUnit_injective_of_lt (toNat_lt_of_startsToken hd) h
  exact absurd hd (by simp [hc])

/-! ### Reading on -/

namespace TokenStream

theorem iterate_advance (s : TokenStream) (n : Nat) :
    advance^[n] s = ⟨s.tokens.drop n, s.ending⟩ := by
  induction n generalizing s with
  | zero => rfl
  | succ n ih => rw [Function.iterate_succ_apply, ih, advance, List.drop_tail]

/-- A line delivers its tokens, and what it ends with from then on. -/
theorem current_iterate (s : TokenStream) (n : Nat) :
    (advance^[n] s).current = s.tokens[n]?.elim (current ⟨[], s.ending⟩) .ok := by
  rw [iterate_advance, ← List.head?_drop]
  cases s.tokens.drop n <;> rfl

theorem current_iterate_advance {s : TokenStream} {error : LexError}
    (h : s.ending = .failed error) (n : Nat) :
    (advance^[n] s).current = s.tokens[n]?.elim (.error error) .ok := by
  rw [current_iterate, h]
  rfl

end TokenStream

/-! ### Lines -/

/-- The tokens are all that a text holds, blanks apart: each stands in it at its column,
their columns ascend up to the end of the text, they do not overlap, and outside of them
there are only blanks. -/
structure Covers (text : List Char) (tokens : List Token) : Prop where
  stands : ∀ t ∈ tokens, ∃ before after, text = before ++ t.kind.spelling.toList ++ after ∧
    unitLength before = t.column
  ascend : (tokens.map Token.column ++ [unitLength text]).Pairwise (· < ·)
  apart : tokens.Pairwise fun t u => t.column + t.kind.width ≤ u.column
  blank : ∀ before c after, text = before ++ c :: after → isBlank c = true ∨
    Spanned tokens (unitLength before) (unitLength before + unitWidth c)

theorem Laid.covers {text : List Char} {tokens : List Token} (h : Laid 0 text tokens)
    (hascend : (tokens.map Token.column ++ [unitLength text]).Pairwise (· < ·)) :
    Covers text tokens where
  stands t ht := by simpa using h.exists_split t ht
  ascend := hascend
  apart := h.apart
  blank before c after hsplit := by
    cases hc : isBlank c with
    | true => exact Or.inl rfl
    | false => exact Or.inr (by simpa using h.spanned hsplit hc)

/-- The tokens of a line cover it up to the place where the scan stops. -/
theorem TokenStream.exists_covers (line : String) : ∃ read left,
    line.toList = read ++ left ∧ Covers read (ofString line).tokens ∧
      (ofString line).ending.column = unitLength read ∧ Stops (ofString line).ending left := by
  obtain ⟨read, left, hsplit, hlaid, hending, hstops⟩ := exists_laid_scan 0 line.toList
  rw [Nat.zero_add] at hending
  refine ⟨read, left, hsplit, hlaid.covers ?_, hending, hstops⟩
  have hascend := pairwise_columns_scan 0 line.toList
  rwa [columns, hending] at hascend

/-- The tokens of a line are what it holds: all of it where it has an end, and otherwise
what is before the character at which no token can be read.  That character is a quote
with no quote behind it, or one that starts no token: then no token of any line begins with
its first unit. -/
theorem tokenize_covers (line : String) :
    (∀ tokens, tokenize line = .ok tokens → ∃ delivered,
      tokens = delivered ++ [⟨.endOfLine, unitLength line.toList⟩] ∧
        (∀ t ∈ delivered, t.kind ≠ .endOfLine) ∧ Covers line.toList delivered) ∧
      ∀ error, tokenize line = .error error → ∃ delivered before c rest,
        (∀ n, (TokenStream.advance^[n] (TokenStream.ofString line)).current =
          delivered[n]?.elim (.error error) .ok) ∧
        line.toList = before ++ c :: rest ∧ unitLength before = error.column ∧
        Covers before delivered ∧
        (error.fault.code = "unterminated-string" ↔ c = '"') ∧ (c = '"' → '"' ∉ rest) ∧
        (c ≠ '"' → error.fault.code = "unexpected-character" ∧ startsToken c = false ∧
          ∀ line', ∀ t ∈ (TokenStream.ofString line').tokens, ∀ d cs,
            t.kind.spelling.toList = d :: cs → leadUnit d ≠ leadUnit c) := by
  obtain ⟨read, left, hsplit, hcovers, hcolumn, hstops⟩ := TokenStream.exists_covers line
  unfold tokenize TokenStream.toExcept
  generalize hending : (TokenStream.ofString line).ending = ending at hcolumn hstops
  cases hstops with
  | endOfLine column =>
    refine ⟨fun tokens htokens => ?_, fun error herror => absurd herror (by simp)⟩
    rw [List.append_nil] at hsplit
    rw [hsplit, ← hcolumn]
    exact ⟨_, (Except.ok.inj htokens).symm, TokenStream.kind_ne_endOfLine line, hcovers⟩
  | @failed column c rest fault hread =>
    refine ⟨fun tokens htokens => absurd htokens (by simp), fun error herror => ?_⟩
    obtain rfl := Except.error.inj herror
    refine ⟨_, read, c, rest, TokenStream.current_iterate_advance hending, hsplit, hcolumn.symm,
      hcovers, ?_⟩
    rcases readKind_error_cases hread with ⟨rfl, rfl, hquote⟩ | ⟨hc, rfl, hstarts⟩
    · exact ⟨by simp [LexFault.code], fun _ => hquote, fun hne => absurd rfl hne⟩
    · refine ⟨by simp [LexFault.code, hc], fun heq => absurd heq hc, fun _ => ⟨rfl, hstarts, ?_⟩⟩
      intro line' t ht d cs hspelling
      exact leadUnit_ne_of_startsToken (startsToken_of_spelling ht hspelling) hstarts

end Linewise
