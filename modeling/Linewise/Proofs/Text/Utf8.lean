/-
Bytes that spell a text are read as this text.

* `Decoding.run_utf8EncodeChar` — the bytes of a character add it to the text;
* `decode_toByteArray` — so the bytes of a text give it back;
* `decode_of_fromUTF8?` — a list of bytes that spells a text is read as no other one.

Design notes: the bounds of the second byte follow from the size of the character and from
its being no surrogate half, which is all that is said about characters here.
-/
import Linewise.Text.Utf8

namespace Linewise.Text

/-! ### First bytes -/

namespace Pending

/-! The bits of a first byte settle the bounds of the second one. -/

theorem ofFirst?_two {m : Nat} (hlow : 2 ≤ m) (hhigh : m < 32) :
    ofFirst? (m + 0xC0) = some ⟨0x80, 0xBF, 0, m⟩ := by
  rw [ofFirst?, if_pos (by omega), Nat.add_sub_cancel]

theorem ofFirst?_three : ∀ m < 16, ofFirst? (m + 0xE0) =
    some ⟨if m = 0 then 0xA0 else 0x80, if m = 13 then 0x9F else 0xBF, 1, m⟩ := by
  decide

theorem ofFirst?_four : ∀ m < 5, ofFirst? (m + 0xF0) =
    some ⟨if m = 0 then 0x90 else 0x80, if m = 4 then 0x8F else 0xBF, 2, m⟩ := by
  decide

end Pending

/-! ### Characters -/

namespace Decoding

variable {text : String} {p : Pending} {b : Nat}

theorem begin_of_first (h : Pending.ofFirst? b = some p) (hb : 0x80 ≤ b) :
    begin text b = ⟨text, some p⟩ := by
  rw [begin, if_neg (Nat.not_lt.mpr hb), h]

theorem next_last {low high bits : Nat} (hlow : low ≤ b) (hhigh : b ≤ high) :
    next ⟨text, some ⟨low, high, 0, bits⟩⟩ b =
      ⟨text.push (Char.ofNat (64 * bits + (b - 0x80))), none⟩ := by
  simp [next, hlow, hhigh]

theorem next_later {low high later bits : Nat} (hlow : low ≤ b) (hhigh : b ≤ high) :
    next ⟨text, some ⟨low, high, later + 1, bits⟩⟩ b =
      ⟨text, some ⟨0x80, 0xBF, later, 64 * bits + (b - 0x80)⟩⟩ := by
  simp [next, hlow, hhigh]

theorem run_cons {n : Nat} {d : Decoding} {bytes : List UInt8} (h : n < 256) :
    d.run (UInt8.ofNat n :: bytes) = (d.next n).run bytes := by
  rw [run, List.foldl_cons, UInt8.toNat_ofNat_of_lt' h]
  rfl

/-- The bytes of a character add it to the text. -/
theorem run_utf8EncodeChar (text : String) (c : Char) :
    run ⟨text, none⟩ (String.utf8EncodeChar c) = ⟨text.push c, none⟩ := by
  have hvalid : c.toNat < 0xD800 ∨ 0xDFFF < c.toNat ∧ c.toNat < 0x110000 := c.valid
  have hchar : ∀ n, n = c.toNat → Char.ofNat n = c := by
    rintro n rfl
    exact c.ofNat_toNat
  have hval : c.val.toNat = c.toNat := rfl
  rw [String.utf8EncodeChar, hval]
  -- By the number of bytes, each of which is within the bounds that the one before sets.
  by_cases hone : c.toNat ≤ 127
  · have hlt : c.toNat < 0x80 := Nat.lt_succ_of_le hone
    rw [if_pos hone, run_cons (by omega)]
    simp only [next, begin, if_pos hlt, hchar]
    rfl
  · rw [if_neg hone]
    by_cases htwo : c.toNat ≤ 2047
    · have hfirst := @Pending.ofFirst?_two (c.toNat / 64 % 32) (by omega) (by omega)
      rw [if_pos htwo, run_cons (by omega), next, begin_of_first hfirst (by omega),
        run_cons (by omega), next_last (by omega) (by omega), hchar _ (by omega)]
      rfl
    · rw [if_neg htwo]
      by_cases hthree : c.toNat ≤ 65535
      · have hfirst := Pending.ofFirst?_three (c.toNat / 4096 % 16) (by omega)
        rw [if_pos hthree, run_cons (by omega), next, begin_of_first hfirst (by omega),
          run_cons (by omega), next_later (by split <;> omega) (by split <;> omega),
          run_cons (by omega), next_last (by omega) (by omega), hchar _ (by omega)]
        rfl
      · have hfirst := Pending.ofFirst?_four (c.toNat / 262144 % 8) (by omega)
        rw [if_neg hthree, run_cons (by omega), next, begin_of_first hfirst (by omega),
          run_cons (by omega), next_later (by split <;> omega) (by split <;> omega),
          run_cons (by omega), next_later (by omega) (by omega),
          run_cons (by omega), next_last (by omega) (by omega), hchar _ (by omega)]
        rfl

theorem run_append (d : Decoding) (first second : List UInt8) :
    d.run (first ++ second) = (d.run first).run second :=
  List.foldl_append

theorem run_flatMap (text : String) (cs : List Char) :
    run ⟨text, none⟩ (cs.flatMap String.utf8EncodeChar) = ⟨text ++ String.ofList cs, none⟩ := by
  induction cs generalizing text with
  | nil => simp [run]
  | cons c cs ih =>
    have htext : text.push c ++ String.ofList cs = text ++ String.ofList (c :: cs) := by
      simp [← String.toList_inj]
    rw [List.flatMap_cons, run_append, run_utf8EncodeChar, ih, htext]

end Decoding

/-! ### Texts -/

/-- The bytes of a text give it back. -/
theorem decode_toByteArray (s : String) : decode s.toByteArray = s := by
  have hbytes : (String.ofList s.toList).toByteArray.data.toList =
      s.toList.flatMap String.utf8EncodeChar := by
    rw [String.toByteArray_ofList, List.utf8Encode, List.data_toByteArray]
  rw [String.ofList_toList] at hbytes
  rw [decode, hbytes, Decoding.run_flatMap]
  simp [Decoding.finish]

/-- Bytes that spell a text are read as this text. -/
theorem decode_of_fromUTF8? {bytes : ByteArray} {s : String}
    (h : String.fromUTF8? bytes = some s) : decode bytes = s := by
  have hbytes : s.toByteArray = bytes := by
    unfold String.fromUTF8? at h
    split at h
    · obtain rfl := Option.some.inj h
      rfl
    · exact absurd h (by simp)
  rw [← hbytes, decode_toByteArray]

end Linewise.Text
