/-
Reading by descent: each rule of the grammar calls the rule for its operands.

* `Parser` — the tokens that are left, and the counter of the levels that are open;
* `Task`, `Activation` — what a rule has left to do when the rule that it has called returns;
* `Descent` — a parser in the middle of its work, with the rules that are active;
* `Descent.step` — one step: a rule is called, takes a token or returns.

Design notes: the counter is an integer, and every rule sets it back on its own: a chain to
what it was after the first operand, everything else by one.  Nothing in the definitions keeps
it from leaking or from falling below zero.  An active rule remembers the parser at its entry
and a chain the input at the test of its loop; no step depends on the former.
-/
import Linewise.Proofs.Grammar
import Linewise.Reader

namespace Linewise

/-- A parser between two of its tokens. -/
structure Parser where
  input : TokenStream
  /-- The counter of open levels. -/
  depth : Int
deriving DecidableEq, Repr

namespace Parser

/-- The next token, or the error that the line ends with. -/
def peek (p : Parser) : Except LineError Token := p.input.current.mapError .lex

/-- The parser after its next token. -/
def skip (p : Parser) : Parser := { p with input := p.input.advance }

/-- The parser with the counter at `depth`. -/
def setDepth (p : Parser) (depth : Int) : Parser := { p with depth := depth }

/-- The parser one level deeper. -/
def deeper (p : Parser) : Parser := p.setDepth (p.depth + 1)

/-- The number of tokens that are left. -/
def size (p : Parser) : Nat := p.input.tokens.length

@[simp] theorem input_setDepth (p : Parser) (depth : Int) : (p.setDepth depth).input = p.input :=
  rfl

@[simp] theorem depth_setDepth (p : Parser) (depth : Int) : (p.setDepth depth).depth = depth := rfl

@[simp] theorem size_setDepth (p : Parser) (depth : Int) : (p.setDepth depth).size = p.size := rfl

@[simp] theorem input_deeper (p : Parser) : p.deeper.input = p.input := rfl

@[simp] theorem depth_deeper (p : Parser) : p.deeper.depth = p.depth + 1 := rfl

@[simp] theorem size_deeper (p : Parser) : p.deeper.size = p.size := rfl

@[simp] theorem depth_skip (p : Parser) : p.skip.depth = p.depth := rfl

end Parser

/-- What a parser can be asked to read. -/
inductive Goal
  | statement
  | expression
deriving DecidableEq, Repr

/-- The rules of the grammar, each of which is a function of the parser. -/
inductive Rule
  | statement
  | inner (n : Nonterminal)
deriving DecidableEq, Repr

/-- The rule that a goal starts with. -/
def Goal.rule : Goal → Rule
  | statement => .statement
  | expression => .inner .expression

/-- The place of a rule in the order of the rules, loosest first. -/
def Rule.rank : Rule → Nat
  | statement => 0
  | inner n => n.rank

@[simp] theorem Rule.rank_statement : Rule.statement.rank = 0 := rfl

@[simp] theorem Rule.rank_inner (n : Nonterminal) : (Rule.inner n).rank = n.rank := rfl

theorem Rule.rank_le_nine (rule : Rule) : rule.rank ≤ 9 := by
  cases rule with
  | statement => exact Nat.zero_le 9
  | inner n => exact n.rank_le_nine

/-- What is left to do when a rule that was called returns. -/
inductive Task
  /-- To make a statement of an expression, and to take its semicolon. -/
  | statement (make : Expr → Statement)
  /-- To go on with a chain after its first operand. -/
  | first (c : Chain)
  /-- To go on with a chain after the right operand of `op`, with `left` on its left and the
  counter at `base` after the first operand.  The loop had come to `tested`. -/
  | right (c : Chain) (op : BinaryOp) (left : Expr) (base : Int) (tested : TokenStream)
  /-- To leave the level of the right side of an equality. -/
  | rightSide
  /-- To put an operator before its operand. -/
  | before (op : UnaryOp)
  /-- Nothing, in a logical factor without a negation. -/
  | unnegated
  /-- Nothing, in a factor without a sign. -/
  | unsigned
  /-- To close a parenthesis. -/
  | group

namespace Task

/-- The rule that a task is left of. -/
def rule? : Task → Option Rule
  | statement _ => some .statement
  | first c => some (.inner (.chain c))
  | right c _ _ _ _ => some (.inner (.chain c))
  | rightSide => none
  | before .not => some (.inner .logicalFactor)
  | before _ => some (.inner .factor)
  | unnegated => some (.inner .logicalFactor)
  | unsigned => some (.inner .factor)
  | group => some (.inner .primary)

/-- The input at the last test of the loop of a chain, if it has gone on from there. -/
def tested? : Task → Option TokenStream
  | right _ _ _ _ tested => some tested
  | _ => none

/-- The counter when the rule of the task returns. -/
def restore (depth : Int) : Task → Int
  | right _ _ _ base _ => base
  | rightSide | before _ | group => depth - 1
  | statement _ | first _ | unnegated | unsigned => depth

end Task

/-- A rule that is active: its task and the parser at its entry. -/
structure Activation where
  task : Task
  entry : Parser

/-- What a descent does next. -/
inductive Mode
  /-- A rule is called. -/
  | enter (rule : Rule)
  /-- A token was taken, and a rule is called if the one after it can be read.  For the right
  side of the equality at `column` this opens one more level. -/
  | due (n : Nonterminal) (column : Option Nat)
  /-- The rule that was entered at `entry` returns. -/
  | leave (entry : Parser) (result : Except LineError Expr)
  | done (result : Except LineError Phrase)

/-- A parser in the middle of its work. -/
structure Descent where
  mode : Mode
  /-- The active rules, innermost first. -/
  active : List Activation
  parser : Parser

namespace Descent

/-- A parser that is asked for `goal`. -/
def start (goal : Goal) (p : Parser) : Descent := ⟨.enter goal.rule, [], p⟩

/-! ### Rules that are called -/

section Rules

variable (limit : Int) (p : Parser) (active : List Activation)

/-- The rule that was just entered fails. -/
def fail (error : LineError) : Descent := ⟨.leave p (.error error), active, p⟩

/-- Opens a level and takes the token `t` that opens it; `n` is read inside. -/
def deepen (t : Token) (task : Task) (n : Nonterminal) : Descent :=
  if limit ≤ p.depth then fail p active (.parse ⟨.nestingTooDeep limit, t.column⟩)
  else ⟨.due n none, ⟨task, p⟩ :: active, p.skip.deeper⟩

/-- Takes a token that is an expression by itself. -/
def take (e : Expr) : Descent := ⟨.leave p (p.skip.peek.map fun _ => e), active, p.skip⟩

/-- Calls the rule for a single operand, a name or a parenthesis. -/
def enterPrimary : Descent :=
  match p.peek with
  | .error error => fail p active error
  | .ok t =>
    match t.kind with
    | .number spelling =>
      match Number.read? spelling with
      | some value => take p active (.number spelling value)
      | none => fail p active (.parse ⟨.invalidNumber spelling, t.column⟩)
    | .boolean value => take p active (.boolean value)
    | .text contents => take p active (.text contents)
    | .name name => take p active (.var name)
    | .leftParen => deepen limit p active t .group .expression
    | got => fail p active (.parse ⟨.unexpectedToken got, t.column⟩)

/-- Calls the rule of a nonterminal. -/
def enterInner : Nonterminal → Descent
  | .chain c => ⟨.enter (.inner c.operand), ⟨.first c, p⟩ :: active, p⟩
  | .logicalFactor =>
    match p.peek with
    | .error error => fail p active error
    | .ok t =>
      if t.kind = .not then deepen limit p active t (.before .not) .comparison
      else ⟨.enter (.inner .comparison), ⟨.unnegated, p⟩ :: active, p⟩
  | .factor =>
    match p.peek with
    | .error error => fail p active error
    | .ok t =>
      match t.kind.sign? with
      | some op => deepen limit p active t (.before op) .factor
      | none => ⟨.enter (.inner .primary), ⟨.unsigned, p⟩ :: active, p⟩
  | .primary => enterPrimary limit p active

/-- Calls the rule of statements. -/
def enterStatement : Descent :=
  match p.peek with
  | .error error => ⟨.done (.error error), active, p⟩
  | .ok first =>
    match first.kind with
    | .name name =>
      match p.skip.peek with
      | .error error => ⟨.done (.error error), active, p.skip⟩
      | .ok sign =>
        if sign.kind = .assign then
          ⟨.due .expression none, ⟨.statement (.assign name), p⟩ :: active, p.skip.skip⟩
        else
          ⟨.done (.error (.parse ⟨.missingAssignment name sign.kind, sign.column⟩)), active, p.skip⟩
    | .print => ⟨.due .expression none, ⟨.statement .print, p⟩ :: active, p.skip⟩
    | got => ⟨.done (.error (.parse ⟨.unrecognizedStatement got, first.column⟩)), active, p⟩

end Rules

/-! ### Rules that return -/

section Returns

variable (limit : Int) (p : Parser) (active : List Activation)

/-- An active rule returns, with the counter as its task leaves it. -/
def leave (a : Activation) (result : Except LineError Expr) : Descent :=
  ⟨.leave a.entry result, active, p.setDepth (a.task.restore p.depth)⟩

/-- The test of the loop of a chain after `left`. -/
def loop (a : Activation) (c : Chain) (left : Expr) (base : Int) : Descent :=
  match p.peek with
  | .error error => leave p active a (.error error)
  | .ok t =>
    match c.operator? t.kind with
    | none => leave p active a (.ok left)
    | some op =>
      if limit ≤ p.depth then
        leave p active a (.error (.parse ⟨.nestingTooDeep limit, t.column⟩))
      else
        ⟨.due c.rightOperand (if c = .equality then some t.column else none),
          ⟨.right c op left base p.input, a.entry⟩ :: active,
          p.skip.deeper⟩

/-- Closes a parenthesis around `e`. -/
def close (a : Activation) (e : Expr) : Descent :=
  match p.peek with
  | .error error => leave p active a (.error error)
  | .ok t =>
    if t.kind = .rightParen then leave p.skip active a (p.skip.peek.map fun _ => e)
    else leave p active a (.error (.parse ⟨.mismatchedParentheses t.kind, t.column⟩))

/-- Takes the semicolon of a statement. -/
def terminate (s : Statement) : Descent :=
  match p.peek with
  | .error error => ⟨.done (.error error), active, p⟩
  | .ok t =>
    if t.kind = .semicolon then
      ⟨.done (p.skip.peek.map fun _ => .statement s), active, p.skip⟩
    else ⟨.done (.error (.parse ⟨.missingTerminator t.kind, t.column⟩)), active, p⟩

/-- An active rule goes on after the expression `e` of the rule that it has called. -/
def resume (a : Activation) (e : Expr) : Descent :=
  match a.task with
  | .statement make => terminate p active (make e)
  | .first c => loop limit p active a c e p.depth
  | .right c op left base _ => loop limit p active a c (.binary op left e) base
  | .before op => leave p active a (.ok (.unary op e))
  | .rightSide | .unnegated | .unsigned => leave p active a (.ok e)
  | .group => close p active a e

/-- An active rule passes an error on. -/
def abandon (a : Activation) (error : LineError) : Descent :=
  match a.task with
  | .statement _ => ⟨.done (.error error), active, p⟩
  | _ => leave p active a (.error error)

/-- A result goes back to the innermost active rule. -/
def back (result : Except LineError Expr) : List Activation → Descent
  | [] => ⟨.done (result.map .expression), [], p⟩
  | a :: active =>
    match result with
    | .ok e => resume limit p active a e
    | .error error => abandon p active a error

end Returns

/-- One step of a descent.  One that is done stays as it is. -/
def step (limit : Int) (m : Descent) : Descent :=
  match m.mode with
  | .enter .statement => enterStatement m.parser m.active
  | .enter (.inner n) => enterInner limit m.parser m.active n
  | .due n column? =>
    match m.parser.peek with
    | .error error => back limit m.parser (.error error) m.active
    | .ok _ =>
      match column? with
      | none => { m with mode := .enter (.inner n) }
      | some column =>
        if limit ≤ m.parser.depth then
          back limit m.parser (.error (.parse ⟨.nestingTooDeep limit, column⟩)) m.active
        else
          ⟨.enter (.inner n), ⟨.rightSide, m.parser⟩ :: m.active,
            m.parser.deeper⟩
  | .leave _ result => back limit m.parser result m.active
  | .done _ => m

end Descent

end Linewise
