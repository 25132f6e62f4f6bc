/-
The tokens of a line.

* `readKind` — the token that starts with a given character, and what follows
  it, with `readKind_spelling`: the token's spelling and the rest make up the
  text;
* `TokenStream` — the tokens of a line and how it ends: at its end, or at a
  character that starts no token;
* `TokenStream.ofString` — the tokens of a line, with their columns;
* `TokenStream.current`, `TokenStream.advance` — reading them one at a time;
* `tokenize` — all of them at once.

Design notes: digits and points after a digit belong to a number, whatever
their order, and so does a minus directly before a digit; whether the spelling
is a numeral is a question for the reader of expressions.  A text ends at the
next quote.  Once the stream is at its end, or at the error, it stays there.
-/
import Linewise.Error
import Linewise.Text.Letter

namespace Linewise

open Text

/-- The characters of a number after its first one. -/
def isNumberPart (c : Char) : Bool := c.isDigit || c == '.'

/-- The characters of a word after its first one. -/
def isWordPart (c : Char) : Bool := isLetter c || c.isDigit

/-- The contents of a text after its opening quote, and what follows its
closing one: the next quote ends it. -/
def readText? (cs : List Char) : Option (List Char × List Char) :=
  match cs.dropWhile (· != '"') with
  | [] => none
  | _ :: after => some (cs.takeWhile (· != '"'), after)

theorem eq_append_of_readText? {cs contents after : List Char}
    (h : readText? cs = some (contents, after)) : cs = contents ++ '"' :: after := by
  unfold readText? at h
  split at h
  case h_1 => exact absurd h (by simp)
  case h_2 quote rest ends =>
    obtain ⟨rfl, rfl⟩ : cs.takeWhile (· != '"') = contents ∧ rest = after := by simpa using h
    have quoted : quote = '"' := by
      have := List.head?_dropWhile_not (· != '"') cs
      simpa [ends] using this
    subst quoted
    rw [← ends, List.takeWhile_append_dropWhile]

/-- The token that starts with the character `c`, and what follows it. -/
def readKind (c : Char) (rest : List Char) : Except LexFault (Kind × List Char) :=
  if c.isDigit then
    .ok (.number (String.ofList (c :: rest.takeWhile isNumberPart)), rest.dropWhile isNumberPart)
  else if isLetter c then
    .ok (.ofWord (String.ofList (c :: rest.takeWhile isWordPart)), rest.dropWhile isWordPart)
  else
    match c, rest with
    | '"', _ =>
      match readText? rest with
      | none => .error .unterminatedText
      | some (contents, after) => .ok (.text (String.ofList contents), after)
    | '+', _ => .ok (.plus, rest)
    | '*', _ => .ok (.star, rest)
    | '/', _ => .ok (.slash, rest)
    | '(', _ => .ok (.leftParen, rest)
    | ')', _ => .ok (.rightParen, rest)
    | ';', _ => .ok (.semicolon, rest)
    | '<', _ => .ok (.less, rest)
    | '>', _ => .ok (.greater, rest)
    | '&', _ => .ok (.and .sign, rest)
    | '|', _ => .ok (.or .sign, rest)
    -- The longer sign is tried before the shorter one that starts it.
    | '!', '=' :: after => .ok (.notEqual, after)
    | '!', _ => .ok (.not, rest)
    | '=', '=' :: after => .ok (.equal, after)
    | '=', _ => .ok (.assign, rest)
    | '-', d :: _ =>
      if d.isDigit then
        .ok (.number (String.ofList ('-' :: rest.takeWhile isNumberPart)),
          rest.dropWhile isNumberPart)
      else .ok (.minus, rest)
    | '-', [] => .ok (.minus, rest)
    | _, _ => .error (.unexpectedCharacter c)

theorem readKind_spelling {c : Char} {rest after : List Char} {k : Kind}
    (h : readKind c rest = .ok (k, after)) : k.spelling.toList ++ after = c :: rest := by
  unfold readKind at h
  repeat' split at h
  all_goals simp only [Except.ok.injEq, Prod.mk.injEq, reduceCtorEq] at h
  all_goals obtain ⟨rfl, rfl⟩ := h
  case isFalse.isTrue => simp [Kind.spelling_ofWord, String.toList_ofList]
  all_goals try simp [Kind.spelling]
  exact (eq_append_of_readText? ‹_›).symm

theorem Kind.spelling_ne_nil_of_readKind {c : Char} {rest after : List Char} {k : Kind}
    (h : readKind c rest = .ok (k, after)) : k.spelling.toList ≠ [] := by
  unfold readKind at h
  repeat' split at h
  all_goals simp only [Except.ok.injEq, Prod.mk.injEq, reduceCtorEq] at h
  all_goals obtain ⟨rfl, rfl⟩ := h
  case isFalse.isTrue => rw [Kind.spelling_ofWord]; simp
  all_goals simp [Kind.spelling]

theorem length_le_of_readKind {c : Char} {rest after : List Char} {k : Kind}
    (h : readKind c rest = .ok (k, after)) : after.length ≤ rest.length := by
  have total := congrArg List.length (readKind_spelling h)
  have positive := List.length_pos_iff.mpr (Kind.spelling_ne_nil_of_readKind h)
  simp only [List.length_append, List.length_cons] at total
  omega

/-- How a line ends: at its end, or at a character that starts no token. -/
inductive Ending
  | endOfLine (column : Nat)
  | failed (error : LexError)
deriving DecidableEq, Repr

/-- The tokens that are still to be read, the end of the line not among them,
and how the line ends after them. -/
structure TokenStream where
  tokens : List Token
  ending : Ending
deriving DecidableEq, Repr

namespace TokenStream

/-- The tokens of the characters from the given column on. -/
def scan (column : Nat) : List Char → TokenStream
  | [] => ⟨[], .endOfLine column⟩
  | c :: rest =>
    if isBlank c then scan (column + unitWidth c) rest
    else
      match _read : readKind c rest with
      | .error fault => ⟨[], .failed ⟨fault, column⟩⟩
      | .ok (kind, after) =>
        let following := scan (column + kind.width) after
        { following with tokens := ⟨kind, column⟩ :: following.tokens }
termination_by cs => cs.length
decreasing_by
  · simp
  · have := length_le_of_readKind _read
    simp
    omega

/-- The tokens of a line. -/
def ofString (line : String) : TokenStream := scan 0 line.toList

/-- The next token, or the error that the line ends with. -/
def current (s : TokenStream) : Except LexError Token :=
  match s.tokens, s.ending with
  | t :: _, _ => .ok t
  | [], .endOfLine column => .ok ⟨.endOfLine, column⟩
  | [], .failed error => .error error

/-- The stream after its next token; at its end it stays where it is. -/
def advance (s : TokenStream) : TokenStream :=
  { s with tokens := s.tokens.tail }

/-- All tokens of the stream, the end of the line included. -/
def toExcept (s : TokenStream) : Except LexError (List Token) :=
  match s.ending with
  | .endOfLine column => .ok (s.tokens ++ [⟨.endOfLine, column⟩])
  | .failed error => .error error

end TokenStream

/-- All tokens of a line, the end of the line included. -/
def tokenize (line : String) : Except LexError (List Token) :=
  (TokenStream.ofString line).toExcept

end Linewise
