/-
Reading statements and expressions.

* `Reader` — the tokens that are left of a line, with the limit on nesting;
* `Reader.expression`, `Reader.statement`, `Reader.ending` — what can be read;
* `Expr.ofLine`, `Statement.ofLine` — a line that is one expression or one
  statement as a whole.

Design notes: a reading that fails leaves the reader where it failed, so that a
caller can see how far it got.  When a token is taken, an unreadable character
right after it is reported at once, before anything that the taken tokens mean.
-/
import Linewise.Limits
import Linewise.Reader.Configuration

namespace Linewise

/-- The tokens that are left of a line, and how deep an expression may nest. -/
structure Reader where
  input : TokenStream
  limit : Int
  /-- The levels of nesting that are open. -/
  depth : Nat
deriving DecidableEq, Repr

/-- A result or an error, with the reader after it. -/
structure Attempt (α : Type) where
  result : Except LineError α
  reader : Reader

/-- Goes on from a result; an error stays as it is. -/
def Attempt.andThen {α β : Type} (a : Attempt α) (next : α → Reader → Attempt β) : Attempt β :=
  match a.result with
  | .ok value => next value a.reader
  | .error error => ⟨.error error, a.reader⟩

namespace Reader

/-- A reader at the start of a line. -/
def ofString (limit : Int) (line : String) : Reader :=
  ⟨TokenStream.ofString line, limit, 0⟩

/-- The next token, which stays in place. -/
def peek (r : Reader) : Attempt Token :=
  ⟨r.input.current.mapError .lex, r⟩

/-- The reader after its next token. -/
def skip (r : Reader) : Reader :=
  { r with input := r.input.advance }

/-- Refuses the token `t`. -/
def refuse {α : Type} (r : Reader) (t : Token) (fault : ParseFault) : Attempt α :=
  ⟨.error (.parse ⟨fault, t.column⟩), r⟩

/-- Reads the longest expression that starts here. -/
def expression (r : Reader) : Attempt Expr :=
  let reading := (Configuration.start r.depth).run r.limit r.input.ending r.input.tokens
  ⟨reading.result, { r with input.tokens := reading.rest, depth := reading.depth }⟩

/-- Takes the semicolon that ends a statement. -/
def terminator (r : Reader) : Attempt Unit :=
  r.peek.andThen fun t r =>
    if t.kind = .semicolon then r.skip.peek.andThen fun _ r => ⟨.ok (), r⟩
    else r.refuse t (.missingTerminator t.kind)

/-- Reads a statement with its semicolon. -/
def statement (r : Reader) : Attempt Statement :=
  r.peek.andThen fun first r =>
    match first.kind with
    | .name name =>
      r.skip.peek.andThen fun sign r =>
        if sign.kind = .assign then
          r.skip.expression.andThen fun value r =>
            r.terminator.andThen fun _ r => ⟨.ok (.assign name value), r⟩
        else r.refuse sign (.missingAssignment name sign.kind)
    | .print =>
      r.skip.expression.andThen fun value r =>
        r.terminator.andThen fun _ r => ⟨.ok (.print value), r⟩
    | got => r.refuse first (.unrecognizedStatement got)

/-- Succeeds only at the end of the line. -/
def endOfLine (r : Reader) : Attempt Unit :=
  r.peek.andThen fun t r =>
    if t.kind = .endOfLine then ⟨.ok (), r⟩ else r.refuse t (.trailingInput t.kind)

/-- Succeeds only at the end of the line; one semicolon before it is taken if
`terminated` allows it. -/
def ending (terminated : Bool) (r : Reader) : Attempt Unit :=
  r.peek.andThen fun t r =>
    if terminated && t.kind = .semicolon then r.skip.endOfLine else r.endOfLine

end Reader

/-- The statement that a line spells as a whole. -/
def Statement.ofLine (limit : Int) (line : String) : Except LineError Statement :=
  ((Reader.ofString limit line).statement.andThen fun s r =>
    (r.ending false).andThen fun _ r => ⟨.ok s, r⟩).result

/-- The expression that a line spells as a whole; a semicolon may end it. -/
def Expr.ofLine (limit : Int) (line : String) : Except LineError Expr :=
  ((Reader.ofString limit line).expression.andThen fun e r =>
    (r.ending true).andThen fun _ r => ⟨.ok e, r⟩).result

end Linewise
