/-
The tokens of a JSON text.

* `JsonToken` — brackets, braces, comma, colon and the values that are no
  container;
* `JsonToken.ofChars` — the tokens of a text, or why it has none.

Design notes: only the space, the tab and the two line ends separate tokens.
A string must escape the quote, the backslash and the characters below the
space; two escaped halves of a surrogate pair are one character.  A half on its
own is no character, so it is read as the replacement character, and two names
that differ in such halves only are one name here.  A number has no leading zeros, no plus
and a digit on either side of its point.
-/
import Linewise.Json
import Linewise.Number.Numeral

namespace Linewise

/-- Why a text is not JSON. -/
inductive JsonFault
  | unexpectedCharacter (c : Char)
  | unterminatedString
  | badEscape
  | badNumber
  | unexpectedToken
  | unexpectedEnd
deriving DecidableEq, Repr

namespace JsonFault

/-- The wording of a fault. -/
def message : JsonFault → String
  | unexpectedCharacter c => "unexpected character " ++ c.toString
  | unterminatedString => "unterminated string"
  | badEscape => "bad escape in a string"
  | badNumber => "bad number"
  | unexpectedToken => "unexpected token"
  | unexpectedEnd => "unexpected end of text"

end JsonFault

/-- A token of a JSON text. -/
inductive JsonToken
  | beginArray
  | endArray
  | beginObject
  | endObject
  | comma
  | colon
  | null
  | bool (b : Bool)
  | number (x : Float)
  | string (s : String)
deriving DecidableEq, Repr

namespace JsonToken

/-- The blanks between JSON tokens. -/
def isBlank (c : Char) : Bool :=
  c == ' ' || c == '\t' || c == '\n' || c == '\r'

/-- The value of a hexadecimal digit. -/
def hexValue? (c : Char) : Option Nat :=
  if c.isDigit then some (c.toNat - '0'.toNat)
  else if 'a' ≤ c ∧ c ≤ 'f' then some (c.toNat - 'a'.toNat + 10)
  else if 'A' ≤ c ∧ c ≤ 'F' then some (c.toNat - 'A'.toNat + 10)
  else none

/-- The UTF-16 unit that four hexadecimal digits spell. -/
def unit? (a b c d : Char) : Option Nat := do
  return 4096 * (← hexValue? a) + 256 * (← hexValue? b) + 16 * (← hexValue? c) + (← hexValue? d)

/-- The character that a letter after a backslash stands for. -/
def simpleEscape? : Char → Option Char
  | '"' => some '"'
  | '\\' => some '\\'
  | '/' => some '/'
  | 'b' => some '\x08'
  | 'f' => some '\x0c'
  | 'n' => some '\n'
  | 'r' => some '\r'
  | 't' => some '\t'
  | _ => none

/-- A character of a string, or one UTF-16 unit of it that was spelled out. -/
inductive Unit16
  | char (c : Char)
  | unit (n : Nat)

/-- The characters of a string, with spelled surrogate pairs put together. -/
def joinUnits : List Unit16 → List Char
  | [] => []
  | .char c :: rest => c :: joinUnits rest
  | .unit high :: .unit low :: rest =>
    if 0xD800 ≤ high ∧ high < 0xDC00 ∧ 0xDC00 ≤ low ∧ low < 0xE000 then
      Char.ofNat (0x10000 + 0x400 * (high - 0xD800) + (low - 0xDC00)) :: joinUnits rest
    else if 0xD800 ≤ high ∧ high < 0xE000 then '\ufffd' :: joinUnits (.unit low :: rest)
    else Char.ofNat high :: joinUnits (.unit low :: rest)
  | .unit n :: rest =>
    (if 0xD800 ≤ n ∧ n < 0xE000 then '\ufffd' else Char.ofNat n) :: joinUnits rest

/-- The contents of a string after its opening quote, and what follows its
closing one. -/
def readString : List Char → Except JsonFault (List Unit16 × List Char)
  | [] => .error .unterminatedString
  | '"' :: rest => .ok ([], rest)
  | '\\' :: 'u' :: a :: b :: c :: d :: rest =>
    match unit? a b c d with
    | none => .error .badEscape
    | some n => (readString rest).map fun r => (.unit n :: r.1, r.2)
  | '\\' :: c :: rest =>
    match simpleEscape? c with
    | none => .error .badEscape
    | some c => (readString rest).map fun r => (.char c :: r.1, r.2)
  | c :: rest =>
    if c == '\\' || c.toNat < 0x20 then .error .unterminatedString
    else (readString rest).map fun r => (.char c :: r.1, r.2)

/-- What follows a part of a string follows the string too. -/
theorem ok_of_map_eq_ok {r : Except JsonFault (List Unit16 × List Char)} {u : Unit16}
    {units : List Unit16} {after : List Char}
    (h : r.map (fun r => (u :: r.1, r.2)) = .ok (units, after)) :
    ∃ tail, r = .ok (tail, after) := by
  cases r with
  | error e => simp [Except.map] at h
  | ok r =>
    simp only [Except.map, Except.ok.injEq, Prod.mk.injEq] at h
    exact ⟨r.1, by rw [← h.2]⟩

theorem length_le_of_readString {cs after : List Char} {units : List Unit16}
    (h : readString cs = .ok (units, after)) : after.length ≤ cs.length := by
  fun_induction readString cs generalizing units after with
  | case1 | case3 | case5 | case7 => simp at h
  | case2 rest =>
    simp only [Except.ok.injEq, Prod.mk.injEq] at h
    simp [← h.2]
  | case4 _ _ _ _ rest _ _ ih | case6 _ rest _ _ _ ih | case8 _ rest _ _ _ _ ih =>
    obtain ⟨tail, read⟩ := ok_of_map_eq_ok h
    have := ih read
    simp only [List.length_cons]
    omega

/-- The characters that can occur in a number. -/
def isNumberPart (c : Char) : Bool :=
  c.isDigit || c == '-' || c == '+' || c == '.' || c == 'e' || c == 'E'

/-- The number that a list of characters spells as a whole: a numeral without a
plus before it, without leading zeros and with digits on either side of its
point. -/
def number? (cs : List Char) : Option Float := do
  let n ← Number.Numeral.readChars? cs
  let plus := cs.head? == some '+'
  let leadingZero := n.whole.head? == some '0' && decide (1 < n.whole.length)
  let barePoint := n.whole.isEmpty || (cs.contains '.' && n.fraction.isEmpty)
  if plus || leadingZero || barePoint then none else some n.value

/-- The token that starts with the character `c`, and what follows it. -/
def readToken (c : Char) (rest : List Char) : Except JsonFault (JsonToken × List Char) :=
  match c, rest with
  | '[', _ => .ok (.beginArray, rest)
  | ']', _ => .ok (.endArray, rest)
  | '\x7b', _ => .ok (.beginObject, rest)
  | '\x7d', _ => .ok (.endObject, rest)
  | ',', _ => .ok (.comma, rest)
  | ':', _ => .ok (.colon, rest)
  | 'n', 'u' :: 'l' :: 'l' :: after => .ok (.null, after)
  | 't', 'r' :: 'u' :: 'e' :: after => .ok (.bool true, after)
  | 'f', 'a' :: 'l' :: 's' :: 'e' :: after => .ok (.bool false, after)
  | '"', _ =>
    match readString rest with
    | .ok (units, after) => .ok (.string (String.ofList (joinUnits units)), after)
    | .error fault => .error fault
  | _, _ =>
    if c == '-' || c.isDigit then
      match number? (c :: rest.takeWhile isNumberPart) with
      | some x => .ok (.number x, rest.dropWhile isNumberPart)
      | none => .error .badNumber
    else .error (.unexpectedCharacter c)

theorem length_le_of_readToken {c : Char} {rest after : List Char} {t : JsonToken}
    (h : readToken c rest = .ok (t, after)) : after.length ≤ rest.length := by
  have dropped := (List.dropWhile_sublist isNumberPart (l := rest)).length_le
  have read := @length_le_of_readString rest
  unfold readToken at h
  repeat' split at h
  all_goals simp only [Except.ok.injEq, Prod.mk.injEq, reduceCtorEq] at h
  all_goals obtain ⟨-, rfl⟩ := h
  all_goals grind

/-- The tokens of a text. -/
def ofChars : List Char → Except JsonFault (List JsonToken)
  | [] => .ok []
  | c :: rest =>
    if isBlank c then ofChars rest
    else
      match _read : readToken c rest with
      | .error fault => .error fault
      | .ok (t, after) => (ofChars after).map (t :: ·)
termination_by cs => cs.length
decreasing_by
  · simp
  · have := length_le_of_readToken _read
    simp
    omega

end JsonToken

end Linewise
