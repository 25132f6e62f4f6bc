/-
Reading an expression, one token at a time.

* `Configuration` — what is expected next, the frames around it and the depth
  of nesting;
* `Configuration.shift?` — the configuration after one more token, an error if
  the token is refused, or nothing if the expression ends before it;
* `Configuration.finish` — the expression that ends before a token;
* `Configuration.run` — the expression at the start of a list of tokens.

Design notes: every shift takes one token, so `run` recurses on the list.  The
depth counts the levels that are open; a token that would open one more than
the limit is refused before it is taken.  The right side of an equality is a
level of its own below the operator's: it is opened once the token after the
operator is in sight, and a refusal still points at the operator.
-/
import Linewise.Number.Numeral
import Linewise.Reader.Frame
import Linewise.Token.Stream

namespace Linewise

/-- The operator that a token stands for between two operands. -/
def Kind.binary? : Kind → Option BinaryOp
  | plus => some (.arith .add)
  | minus => some (.arith .sub)
  | star => some (.arith .mul)
  | slash => some (.arith .div)
  | equal => some (.compare .eq)
  | notEqual => some (.compare .ne)
  | less => some (.compare .lt)
  | greater => some (.compare .gt)
  | and _ => some (.logic .and)
  | or _ => some (.logic .or)
  | _ => none

/-- What the next token has to be. -/
inductive Expected
  /-- The start of an operand, with or without a negation before it. -/
  | operand (negatable : Bool)
  /-- The start of the right side of the equality at `column`. -/
  | rightSide (column : Nat)
  /-- An operator after `left`, or a token that ends the operand. -/
  | operator (left : Expr)
deriving DecidableEq, Repr

/-- An expression that is read in part. -/
structure Configuration where
  expected : Expected
  /-- What encloses the next operand, innermost first. -/
  frames : List Frame
  /-- The levels of nesting that are open. -/
  depth : Nat
deriving DecidableEq, Repr

namespace Configuration

/-- Nothing is read yet, `depth` levels deep. -/
def start (depth : Nat) : Configuration := ⟨.operand true, [], depth⟩

/-- Opens one more level, if the limit allows it; a refusal points at `column`. -/
def deepen (limit : Int) (column : Nat) (expected : Expected) (frames : List Frame)
    (depth : Nat) : Except ParseError Configuration :=
  if limit ≤ depth then .error ⟨.nestingTooDeep limit, column⟩
  else .ok ⟨expected, frames, depth + 1⟩

/-- Opens the right side of an equality, if that is what is expected. -/
def openRightSide (limit : Int) (c : Configuration) : Except ParseError Configuration :=
  match c.expected with
  | .rightSide column => deepen limit column (.operand true) (.rightSide :: c.frames) c.depth
  | _ => .ok c

/-- Takes a token where an operand is expected. -/
def shiftOperand (limit : Int) (negatable : Bool) (c : Configuration) (t : Token) :
    Option (Except ParseError Configuration) :=
  let operand (e : Expr) := some (.ok { c with expected := .operator e })
  let enter (f : Frame) (negatable : Bool) :=
    some (deepen limit t.column (.operand negatable) (f :: c.frames) c.depth)
  match t.kind with
  | .number spelling =>
    match Number.read? spelling with
    | some value => operand (.number spelling value)
    | none => some (.error ⟨.invalidNumber spelling, t.column⟩)
  | .text contents => operand (.text contents)
  | .boolean value => operand (.boolean value)
  | .name name => operand (.var name)
  | .leftParen => enter .group true
  | .plus => enter (.before .plus) false
  | .minus => enter (.before .minus) false
  | .not => if negatable then enter (.before .not) false else none
  | _ => none

/-- Takes a binary operator after `left`: the frames that end before it are
completed, and then it continues a chain of its level or starts one. -/
def shiftBinary (limit : Int) (op : BinaryOp) (column : Nat) (left : Expr) (c : Configuration) :
    Except ParseError Configuration :=
  let ended := c.frames.takeWhile (·.endsBefore op)
  let around := c.frames.dropWhile (·.endsBefore op)
  let operand := Frame.completeAll ended left
  -- Only a connective or an equality lets a negation start its right operand.
  let expected := if op.isEquality then .rightSide column else .operand op.isLogic
  let frames :=
    match around with
    | .chain own first count :: outer =>
      if own.level = op.level then .chain op (.binary own first operand) (count + 1) :: outer
      else .chain op operand 1 :: around
    | _ => .chain op operand 1 :: around
  deepen limit column expected frames (c.depth - Frame.totalCost ended)

/-- Takes a closing parenthesis after `left`, if one is open. -/
def shiftClosing (left : Expr) (c : Configuration) : Option Configuration :=
  let ended := c.frames.takeWhile (!·.isGroup)
  match c.frames.dropWhile (!·.isGroup) with
  | [] => none
  | opening :: outer =>
    some ⟨.operator (Frame.completeAll ended left), outer,
      c.depth - Frame.totalCost ended - opening.cost⟩

/-- Takes one token.  `none`: no expression goes on with it, so the expression
ends before it or is incomplete. -/
def shift? (limit : Int) (c : Configuration) (t : Token) :
    Option (Except ParseError Configuration) :=
  match c.expected with
  | .operand negatable => c.shiftOperand limit negatable t
  -- The right side is open already: `openRightSide` comes first.
  | .rightSide _ => c.shiftOperand limit true t
  | .operator left =>
    match t.kind.binary? with
    | some op => some (c.shiftBinary limit op t.column left)
    | none => if t.kind = .rightParen then (c.shiftClosing left).map .ok else none

/-- The expression that ends before the token `t`. -/
def finish (c : Configuration) (t : Token) : Except ParseError Expr :=
  match c.expected with
  | .operator left =>
    if c.frames.any Frame.isGroup then .error ⟨.mismatchedParentheses t.kind, t.column⟩
    else .ok (Frame.completeAll c.frames left)
  | _ => .error ⟨.unexpectedToken t.kind, t.column⟩

/-- The depth after all open levels are left again. -/
def outerDepth (c : Configuration) : Nat :=
  c.depth - Frame.totalCost c.frames

end Configuration

/-- What comes of reading an expression: the expression or an error, the tokens
that are left, and the depth of nesting there. -/
structure Reading where
  result : Except LineError Expr
  rest : List Token
  depth : Nat

namespace Configuration

/-- Reads on from a configuration, where `ending` follows the tokens. -/
def run (limit : Int) (ending : Ending) (c : Configuration) : List Token → Reading
  | [] =>
    match ending with
    | .failed error => ⟨.error (.lex error), [], c.outerDepth⟩
    | .endOfLine column =>
      let result := (c.openRightSide limit).bind fun c => c.finish ⟨.endOfLine, column⟩
      ⟨result.mapError .parse, [], c.outerDepth⟩
  | t :: rest =>
    match c.openRightSide limit with
    | .error error => ⟨.error (.parse error), t :: rest, c.outerDepth⟩
    | .ok c =>
      match c.shift? limit t with
      | some (.ok next) => run limit ending next rest
      | some (.error error) => ⟨.error (.parse error), t :: rest, c.outerDepth⟩
      | none => ⟨(c.finish t).mapError .parse, t :: rest, c.outerDepth⟩

end Configuration

end Linewise
