/-
What a quoted text is made of, and reading it back.

* `escape_cases` — the three ways to write a character between quotes;
* `mem_escape` — so it is written with itself, letters, digits and backslashes only, and
  neither with a line end (`newline_notMem_escape`) nor, unless it is one, with a quote
  (`quote_notMem_escape`);
* `exists_readString` — a quoted text is read back as the contents of a JSON string;
* `flatMap_escape_injective` — so no two texts have one quoted form.

Design notes: a control character without a letter of its own is read back as a UTF-16 unit
that was spelled out.  Such a unit is never half of a surrogate pair, so it is put together
with nothing that follows it.
-/
import Linewise.Json.Token
import Linewise.Text.Quoted

namespace Linewise.Text

open JsonToken

/-- The characters that are written as another one after a backslash, behind that one. -/
def lettered : List (Char × Char) :=
  [('"', '"'), ('\\', '\\'), ('b', '\x08'), ('f', '\x0c'), ('n', '\n'), ('r', '\r'), ('t', '\t')]

theorem escape_of_lettered {letter c : Char} (h : (letter, c) ∈ lettered) :
    escape c = ['\\', letter] := by
  have written : ∀ p ∈ lettered, escape p.2 = ['\\', p.1] := by decide
  exact written _ h

/-- A character between quotes is written as it is, as another one after a backslash, or by
its code. -/
theorem escape_cases (c : Char) :
    (escape c = [c] ∧ c ≠ '"' ∧ c ≠ '\\' ∧ 0x20 ≤ c.toNat) ∨
    (∃ letter, escape c = ['\\', letter] ∧ (letter, c) ∈ lettered) ∨
    (escape c = ['\\', 'u', '0', '0', hexDigit (c.toNat / 16), hexDigit (c.toNat % 16)] ∧
      c.toNat < 0x20) := by
  by_cases hlettered : ∃ letter, (letter, c) ∈ lettered
  · obtain ⟨letter, h⟩ := hlettered
    exact Or.inr (Or.inl ⟨letter, escape_of_lettered h, h⟩)
  · simp only [lettered, List.mem_cons, Prod.mk.injEq, List.not_mem_nil, or_false, exists_or,
      exists_eq_left, not_or] at hlettered
    obtain ⟨hquote, hbackslash, hb, hf, hn, hr, ht⟩ := hlettered
    rw [escape, if_neg hquote, if_neg hbackslash, if_neg hb, if_neg hf, if_neg hn, if_neg hr,
      if_neg ht]
    by_cases hcode : c.toNat < 0x20
    · rw [if_pos hcode]
      exact Or.inr (Or.inr ⟨rfl, hcode⟩)
    · rw [if_neg hcode]
      exact Or.inl ⟨rfl, hquote, hbackslash, Nat.not_lt.mp hcode⟩

theorem isAlphanum_hexDigit (n : Nat) (h : n < 16) : (hexDigit n).isAlphanum = true := by
  have digits : ∀ m : Fin 16, (hexDigit m.val).isAlphanum = true := by decide
  exact digits ⟨n, h⟩

/-- A character is written with itself, with letters and digits and with backslashes. -/
theorem mem_escape {c d : Char} (h : d ∈ escape c) :
    d = '\\' ∨ d.isAlphanum = true ∨ d = c ∧ 0x20 ≤ c.toNat := by
  rcases escape_cases c with ⟨hc, -, -, hcode⟩ | ⟨letter, hc, hlettered⟩ | ⟨hc, hcode⟩
  · rw [hc] at h
    exact Or.inr (Or.inr ⟨List.mem_singleton.mp h, hcode⟩)
  · have letters : ∀ p ∈ lettered, p.1 = '\\' ∨ p.1.isAlphanum = true ∨
        p.1 = p.2 ∧ 0x20 ≤ p.2.toNat := by decide
    rw [hc] at h
    rcases List.mem_cons.mp h with rfl | h
    · exact Or.inl rfl
    · obtain rfl := List.mem_singleton.mp h
      exact letters _ hlettered
  · have digits : ∀ x ∈ ['u', '0', '0', hexDigit (c.toNat / 16), hexDigit (c.toNat % 16)],
        x.isAlphanum = true := by
      simp only [List.forall_mem_cons]
      exact ⟨rfl, rfl, rfl, isAlphanum_hexDigit _ (by omega), isAlphanum_hexDigit _ (by omega),
        by simp⟩
    rw [hc] at h
    rcases List.mem_cons.mp h with rfl | h
    · exact Or.inl rfl
    · exact Or.inr (Or.inl (digits d h))

theorem newline_notMem_escape (c : Char) : '\n' ∉ escape c := by
  intro h
  rcases mem_escape h with h | h | ⟨rfl, h⟩ <;> exact absurd h (by decide)

theorem quote_notMem_escape {c : Char} (hc : c ≠ '"') : '"' ∉ escape c := by
  intro h
  rcases mem_escape h with h | h | ⟨h, -⟩
  · exact absurd h (by decide)
  · exact absurd h (by decide)
  · exact hc h.symm

/-! ### Reading back -/

theorem joinUnits_char (c : Char) (more : List Unit16) :
    joinUnits (.char c :: more) = c :: joinUnits more := rfl

/-- A unit that is no half of a surrogate pair is a character of its own. -/
theorem joinUnits_unit {n : Nat} (h : n < 0xD800) (more : List Unit16) :
    joinUnits (.unit n :: more) = Char.ofNat n :: joinUnits more := by
  have hhalf : ¬ (0xD800 ≤ n ∧ n < 0xE000) := by omega
  rcases more with _ | ⟨c | low, more⟩
  · simp [joinUnits, hhalf]
  · simp [joinUnits, hhalf]
  · have hpair : ¬ (0xD800 ≤ n ∧ n < 0xDC00 ∧ 0xDC00 ≤ low ∧ low < 0xE000) := by omega
    rw [joinUnits, if_neg hpair, if_neg hhalf]

/-- One written character is read back, as one unit of the string. -/
theorem exists_readString_escape (c : Char) : ∃ u : Unit16,
    (∀ rest, readString (escape c ++ rest) =
      (readString rest).map fun r => (u :: r.1, r.2)) ∧
    ∀ more, joinUnits (u :: more) = c :: joinUnits more := by
  rcases escape_cases c with ⟨hc, hquote, hbackslash, hcode⟩ | ⟨letter, hc, hlettered⟩ |
    ⟨hc, hcode⟩
  · refine ⟨.char c, fun rest => ?_, joinUnits_char c⟩
    have hplain : ¬ ((c == '\\' || decide (c.toNat < 0x20)) = true) := by simp [hbackslash, hcode]
    rw [hc, List.singleton_append, readString, if_neg hplain]
    · exact hquote
    · exact fun _ _ _ _ _ h _ => hbackslash h
    · exact fun _ _ h _ => hbackslash h
  · have letters : ∀ p ∈ lettered, p.1 ≠ 'u' ∧ simpleEscape? p.1 = some p.2 := by decide
    obtain ⟨hu, hsimple⟩ := letters _ hlettered
    refine ⟨.char c, fun rest => ?_, joinUnits_char c⟩
    rw [hc, List.cons_append, List.singleton_append, readString, hsimple]
    exact fun _ _ _ _ _ h _ => hu h
  · have codes : ∀ n : Fin 0x20, unit? '0' '0' (hexDigit (n.val / 16)) (hexDigit (n.val % 16)) =
        some n.val := by decide
    refine ⟨.unit c.toNat, fun rest => ?_, fun more => ?_⟩
    · rw [hc]
      simp only [List.cons_append, List.nil_append, readString, codes ⟨c.toNat, hcode⟩]
    · rw [joinUnits_unit (by omega), Char.ofNat_toNat]

/-- A quoted text is read back as the contents of a string, up to its closing quote. -/
theorem exists_readString (cs rest : List Char) :
    ∃ units, readString (cs.flatMap escape ++ '"' :: rest) = .ok (units, rest) ∧
      joinUnits units = cs := by
  induction cs with
  | nil => exact ⟨[], rfl, rfl⟩
  | cons c cs ih =>
    obtain ⟨units, hread, hjoin⟩ := ih
    obtain ⟨u, hu, hjoinu⟩ := exists_readString_escape c
    refine ⟨u :: units, ?_, by rw [hjoinu, hjoin]⟩
    rw [List.flatMap_cons, List.append_assoc, hu, hread]
    rfl

/-- No two texts are written in the same way between quotes. -/
theorem flatMap_escape_injective {cs ds : List Char} (h : cs.flatMap escape = ds.flatMap escape) :
    cs = ds := by
  obtain ⟨units, hread, rfl⟩ := exists_readString cs []
  obtain ⟨units', hread', rfl⟩ := exists_readString ds []
  rw [h, hread'] at hread
  obtain ⟨rfl, -⟩ := Prod.mk.inj (Except.ok.inj hread)
  rfl

end Linewise.Text
