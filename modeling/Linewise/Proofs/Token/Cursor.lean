/-
Tokens that are read one at a time are those that are read all at once.

* `Cursor.stream` — the tokens that are left at a place in a line;
* `stream_scan`, `current_stream`, `stream_advance` — what a cursor reads at once, shows and
  does is what the stream of all tokens has;
* `drain_eq` — the same of all tokens up to the end of the line or to an error;
* `getElem?_replies` — a call returns what stands behind as many tokens as calls went on;
* `replies_ofString` — what that means for a line with all its tokens, and for a line with an
  error.

Design notes: `stream` turns what is left of the text into tokens at once.  A call to look at
the next token leaves the cursor as it is, so that only the calls that go on are counted.
-/
import Linewise.Proofs.Token.Layout
import Linewise.Token.Cursor

namespace Linewise

open Text

namespace TokenStream

theorem current_endOfLine {t : Token} (h : t.kind = .endOfLine) :
    current ⟨[], .endOfLine t.column⟩ = .ok t := by
  rw [current, ← h]

end TokenStream

namespace Cursor

/-! ### What a cursor stands for -/

/-- The tokens that are left, and how the line ends after them. -/
def stream (c : Cursor) : TokenStream :=
  match c.next with
  | .ok t =>
    if t.kind = .endOfLine then ⟨[], .endOfLine t.column⟩
    else
      let following := TokenStream.scan c.column c.rest
      { following with tokens := t :: following.tokens }
  | .error error => ⟨[], .failed error⟩

theorem stream_of_token {c : Cursor} {t : Token} (h : c.next = .ok t)
    (ht : t.kind ≠ .endOfLine) :
    c.stream = { TokenStream.scan c.column c.rest with
      tokens := t :: (TokenStream.scan c.column c.rest).tokens } := by
  rw [stream, h]
  exact if_neg ht

theorem stream_of_end {c : Cursor} {t : Token} (h : c.next = .ok t) (ht : t.kind = .endOfLine) :
    c.stream = ⟨[], .endOfLine t.column⟩ := by
  rw [stream, h]
  exact if_pos ht

theorem stream_of_error {c : Cursor} {error : LexError} (h : c.next = .error error) :
    c.stream = ⟨[], .failed error⟩ := by
  rw [stream, h]

theorem stream_scan (column : Nat) (cs : List Char) :
    (scan column cs).stream = TokenStream.scan column cs := by
  fun_induction scan column cs with
  | case1 column => rw [TokenStream.scan]; rfl
  | case2 column c rest hblank ih => rw [ih, TokenStream.scan_blank hblank]
  | case3 column c rest hblank fault hread =>
    rw [TokenStream.scan_fault (by simpa using hblank) hread]
    rfl
  | case4 column c rest hblank kind after hread =>
    rw [TokenStream.scan_token (by simpa using hblank) hread]
    exact stream_of_token rfl (Kind.ne_endOfLine_of_readKind hread)

theorem stream_ofString (line : String) : (ofString line).stream = TokenStream.ofString line :=
  stream_scan 0 line.toList

theorem current_stream (c : Cursor) : c.stream.current = c.current := by
  cases h : c.next with
  | error error => rw [stream_of_error h, current, h]; rfl
  | ok t =>
    by_cases ht : t.kind = .endOfLine
    · rw [stream_of_end h ht, current, h, TokenStream.current_endOfLine ht]
    · rw [stream_of_token h ht, current, h]
      rfl

/-- Going on takes the first of the tokens that are left; at the end of the line, and at an
error, nothing is left to take. -/
theorem stream_advance (c : Cursor) : c.advance.stream = c.stream.advance := by
  unfold advance
  split
  · next t h =>
    split
    · next ht => rw [stream_of_end h ht]; rfl
    · next ht => rw [stream_of_token h ht, stream_scan]; rfl
  · next error h => rw [stream_of_error h]; rfl

/-- All tokens that are left are those of the stream, and then comes what it ends with. -/
theorem drain_eq (c : Cursor) :
    c.drain = (c.stream.tokens, TokenStream.current ⟨[], c.stream.ending⟩) := by
  fun_induction drain c with
  | case1 c error h => rw [stream_of_error h]; rfl
  | case2 c t h ht => rw [stream_of_end h ht, TokenStream.current_endOfLine ht]
  | case3 c t h ht following ih =>
    rw [stream_of_token h ht]
    simp only [following, ih, stream_scan]

/-! ### Calls -/

theorem length_replies (c : Cursor) (calls : List Call) :
    (c.replies calls).length = calls.length := by
  induction calls generalizing c with
  | nil => rfl
  | cons request calls ih => rw [replies, List.length_cons, ih, List.length_cons]

theorem stream_call (c : Cursor) (request : Call) : (c.call request).stream =
    TokenStream.advance^[[request].count .advance] c.stream := by
  cases request with
  | current => rfl
  | advance => exact c.stream_advance

/-- The first call returns what comes next after it, and the others go on from there. -/
theorem getElem?_replies (c : Cursor) {calls : List Call} {i : Nat} (hi : i < calls.length) :
    (c.replies calls)[i]? =
      some (TokenStream.advance^[(calls.take (i + 1)).count .advance] c.stream).current := by
  induction calls generalizing c i with
  | nil => exact absurd hi (Nat.not_lt_zero i)
  | cons request calls ih =>
    have hcount : ∀ later : List Call, (request :: later).count .advance =
        later.count .advance + [request].count .advance := by
      intro later
      rw [← List.singleton_append, List.count_append, Nat.add_comm]
    rw [List.take_succ_cons, hcount, Function.iterate_add_apply, ← stream_call]
    cases i with
    | zero => exact congrArg some (c.call request).current_stream.symm
    | succ i => exact ih (c.call request) (Nat.lt_of_succ_lt_succ hi)

/-- To look at the next token changes nothing in what the calls around it return. -/
theorem replies_append_current (c : Cursor) (before after : List Call) :
    (c.replies (before ++ .current :: after)).eraseIdx before.length =
      c.replies (before ++ after) := by
  induction before generalizing c with
  | nil => rfl
  | cons request before ih => exact congrArg _ (ih (c.call request))

/-! ### Whole lines -/

/-- All tokens at once are those that are read one at a time, up to what comes there. -/
theorem tokenize_eq_drain (line : String) :
    tokenize line = (ofString line).drain.2.map ((ofString line).drain.1 ++ [·]) := by
  rw [drain_eq, stream_ofString, tokenize, TokenStream.toExcept]
  cases (TokenStream.ofString line).ending <;> rfl

/-- Behind the tokens of a line that can be read the end of the line comes for ever. -/
theorem elim_of_tokenize_ok {line : String} {tokens : List Token} (h : tokenize line = .ok tokens)
    (k : Nat) :
    let s := TokenStream.ofString line
    let reply := s.tokens[k]?.elim (TokenStream.current ⟨[], s.ending⟩) .ok
    (∀ t, tokens[k]? = some t → reply = .ok t) ∧
      (tokens.length ≤ k → ∃ t, tokens.getLast? = some t ∧ t.kind = .endOfLine ∧ reply = .ok t) := by
  intro s reply
  obtain ⟨column, hending, rfl⟩ := tokenize_eq_ok_iff.mp h
  have hlast : TokenStream.current ⟨[], s.ending⟩ = .ok ⟨.endOfLine, column⟩ := by
    rw [show s.ending = _ from hending]
    rfl
  have hreply : reply = s.tokens[k]?.elim (.ok ⟨.endOfLine, column⟩) .ok := by
    rw [← hlast]
  refine ⟨fun t ht => ?_, fun hlength => ?_⟩
  · rcases Nat.lt_or_ge k s.tokens.length with hk | hk
    · rw [List.getElem?_append_left hk] at ht
      rw [hreply, ht]
      rfl
    · rw [List.getElem?_append_right hk] at ht
      rw [hreply, List.getElem?_eq_none hk]
      have hmem := List.mem_of_getElem? ht
      rw [List.mem_singleton.mp hmem]
      rfl
  · rw [List.length_append] at hlength
    refine ⟨⟨.endOfLine, column⟩, List.getLast?_concat, rfl, ?_⟩
    rw [hreply, List.getElem?_eq_none (Nat.le_of_succ_le hlength)]
    rfl

/-- Whatever calls are made one after the other, each returns the token of the line that
stands behind as many tokens as calls went on until then.  Behind the last token of a line
that can be read the end of the line comes for ever, and in a line that cannot be read its
error comes for ever behind the tokens before it.  To look at the next token changes nothing
in what other calls return. -/
theorem replies_ofString (line : String) (calls : List Call) :
    tokenize line = (ofString line).drain.2.map ((ofString line).drain.1 ++ [·]) ∧
    ((ofString line).replies calls).length = calls.length ∧
    (∀ i reply, ((ofString line).replies calls)[i]? = some reply →
      let k := (calls.take (i + 1)).count .advance
      (∀ tokens, tokenize line = .ok tokens →
        (∀ t, tokens[k]? = some t → reply = .ok t) ∧
        (tokens.length ≤ k →
          ∃ t, tokens.getLast? = some t ∧ t.kind = .endOfLine ∧ reply = .ok t)) ∧
      ∀ error, tokenize line = .error error →
        (∀ t, (ofString line).drain.1[k]? = some t → reply = .ok t) ∧
        ((ofString line).drain.1.length ≤ k → reply = .error error)) ∧
    ∀ before after, calls = before ++ .current :: after →
      ((ofString line).replies calls).eraseIdx before.length =
        (ofString line).replies (before ++ after) := by
  refine ⟨tokenize_eq_drain line, length_replies _ calls, fun i reply h => ?_, ?_⟩
  · intro k
    have hi : i < calls.length := by
      rw [← length_replies (ofString line)]
      exact (List.getElem?_eq_some_iff.mp h).1
    rw [getElem?_replies _ hi, TokenStream.current_iterate, stream_ofString] at h
    obtain rfl := Option.some.inj h
    refine ⟨fun tokens htokens => elim_of_tokenize_ok htokens k, fun error herror => ?_⟩
    rw [tokenize_eq_error_iff] at herror
    rw [drain_eq, stream_ofString, herror]
    refine ⟨fun t ht => ?_, fun hk => ?_⟩
    · rw [show _[k]? = _ from ht]
      rfl
    · rw [List.getElem?_eq_none hk]
      rfl
  · rintro before after rfl
    exact replies_append_current _ before after

/-- A text that is not closed is an error once the word before it is passed, and stays one. -/
theorem replies_ofString_unclosed :
    let line := "x \"y"
    let calls := [Call.current, .advance, .current, .advance]
    let error : LexError := ⟨.unterminatedText, 2⟩
    tokenize line = .error error ∧
    ((ofString line).replies calls)[0]? = some (.ok ⟨.name "x", 0⟩) ∧
    ((ofString line).replies calls)[3]? = some (.error error) := by
  intro line calls error
  have herror : tokenize line = .error error := by decide +kernel
  have hdrain : (ofString line).drain.1 = [⟨.name "x", 0⟩] := by
    rw [drain_eq, stream_ofString]
    decide +kernel
  obtain ⟨-, hlength, hreplies, -⟩ := replies_ofString line calls
  have hwithin : ∀ i < 4, i < ((ofString line).replies calls).length := by
    rw [hlength]
    exact fun i hi => hi
  have hfirst := List.getElem?_eq_getElem (hwithin 0 (by decide))
  have hlast := List.getElem?_eq_getElem (hwithin 3 (by decide))
  obtain ⟨hx, -⟩ := (hreplies 0 _ hfirst).2 error herror
  obtain ⟨-, hend⟩ := (hreplies 3 _ hlast).2 error herror
  refine ⟨herror, ?_, ?_⟩
  · rw [hfirst, hx ⟨.name "x", 0⟩ (by rw [hdrain]; rfl)]
  · rw [hlast, hend (by rw [hdrain]; decide)]

end Cursor

end Linewise
