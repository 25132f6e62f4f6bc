/-
Texts that are stored as bytes.

* `Pending` — a character whose first bytes have been read;
* `Decoding` — what a list of bytes has spelled so far, with one step for each byte;
* `decode` — the text of some bytes.

Design notes: all bytes give a text.  Where they spell no character, the replacement
character stands for the longest start of a character that is there, or for a single byte
if it starts none.  A byte order mark is a character like others.
-/
namespace Linewise.Text

/-- A character whose first bytes have been read. -/
structure Pending where
  /-- The least value of the next byte. -/
  low : Nat
  /-- The greatest value of the next byte. -/
  high : Nat
  /-- The number of bytes after the next one. -/
  later : Nat
  /-- The bits of the character that have been read. -/
  bits : Nat
deriving DecidableEq, Repr

/-- The character of several bytes that a byte starts.  The bounds of its second byte leave
out what fewer bytes could spell, the surrogate halves and what is no character. -/
def Pending.ofFirst? (b : Nat) : Option Pending :=
  if 0xC2 ≤ b ∧ b ≤ 0xDF then some ⟨0x80, 0xBF, 0, b - 0xC0⟩
  else if b = 0xE0 then some ⟨0xA0, 0xBF, 1, 0x0⟩
  else if b = 0xED then some ⟨0x80, 0x9F, 1, 0xD⟩
  else if 0xE1 ≤ b ∧ b ≤ 0xEF then some ⟨0x80, 0xBF, 1, b - 0xE0⟩
  else if b = 0xF0 then some ⟨0x90, 0xBF, 2, 0x0⟩
  else if 0xF1 ≤ b ∧ b ≤ 0xF3 then some ⟨0x80, 0xBF, 2, b - 0xF0⟩
  else if b = 0xF4 then some ⟨0x80, 0x8F, 2, 0x4⟩
  else none

/-- What some bytes have spelled. -/
structure Decoding where
  text : String
  pending : Option Pending
deriving DecidableEq, Repr

namespace Decoding

/-- A byte at the start of a character. -/
def begin (text : String) (b : Nat) : Decoding :=
  if b < 0x80 then ⟨text.push (Char.ofNat b), none⟩
  else
    match Pending.ofFirst? b with
    | some p => ⟨text, some p⟩
    | none => ⟨text.push '\ufffd', none⟩

/-- One more byte.  One that does not go on with the pending character starts anew. -/
def next (d : Decoding) (b : Nat) : Decoding :=
  match d.pending with
  | none => begin d.text b
  | some p =>
    if p.low ≤ b ∧ b ≤ p.high then
      let bits := 64 * p.bits + (b - 0x80)
      match p.later with
      | 0 => ⟨d.text.push (Char.ofNat bits), none⟩
      | later + 1 => ⟨d.text, some ⟨0x80, 0xBF, later, bits⟩⟩
    else begin (d.text.push '\ufffd') b

/-- The text, with the character that is still pending. -/
def finish (d : Decoding) : String :=
  match d.pending with
  | none => d.text
  | some _ => d.text.push '\ufffd'

/-- Some more bytes. -/
def run (d : Decoding) (bytes : List UInt8) : Decoding :=
  bytes.foldl (fun d b => d.next b.toNat) d

end Decoding

/-- The text of some bytes. -/
def decode (bytes : ByteArray) : String :=
  (Decoding.run ⟨"", none⟩ bytes.data.toList).finish

-- A character that breaks off after two of its bytes, and a byte that starts none.
example : decode ⟨#[0x61, 0xE2, 0x82, 0xFF, 0x62]⟩ = "a\ufffd\ufffdb" := by decide +kernel

end Linewise.Text
