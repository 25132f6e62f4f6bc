/-
Evaluation.

* `ArithOp.apply`, `CompareOp.apply` — the operators on numbers;
* `Expr.eval` — the value of an expression over a store;
* `Statement.run`, `Phrase.run` — what a statement or a phrase does.

Design notes: operands are evaluated from left to right and all of them, also
those of `and` and `or`.  Whether `+` joins texts is decided by the operands'
form: one of them has to be a text literal.  A variable that holds a text is
converted to a number.
-/
import Linewise.Store

namespace Linewise

/-- Arithmetic on doubles; a division by zero has an infinite or no value. -/
def ArithOp.apply : ArithOp → Float → Float → Float
  | add, x, y => x + y
  | sub, x, y => x - y
  | mul, x, y => x * y
  | div, x, y => x / y

/-- Comparison of doubles; the undefined number is unequal to every number. -/
def CompareOp.apply : CompareOp → Float → Float → Bool
  | eq, x, y => x == y
  | ne, x, y => x != y
  | lt, x, y => decide (x < y)
  | gt, x, y => decide (y < x)

/-- The two connectives. -/
def LogicOp.apply : LogicOp → Bool → Bool → Bool
  | and, a, b => a && b
  | or, a, b => a || b

/-- The operators before a value. -/
def UnaryOp.apply : UnaryOp → Value → Except EvalError Value
  | plus, v => do return .number (← v.toNumber)
  | minus, v => do return .number (-(← v.toNumber))
  | not, v => do return .boolean !(← v.toBoolean)

/-- Comparison of values: texts with texts, and only for equality; all else as
numbers. -/
def CompareOp.applyValues (op : CompareOp) : Value → Value → Except EvalError Value
  | .text a, .text b =>
    match op with
    | eq => .ok (.boolean (a == b))
    | ne => .ok (.boolean (a != b))
    | lt | gt => .error (.textOperator (.compare op))
  | a, b =>
    if a.isText || b.isText then .error .mixedComparison
    else do
      let x ← a.toNumber
      let y ← b.toNumber
      return .boolean (op.apply x y)

/-- The value of an expression. -/
def Expr.eval (store : Store) : Expr → Except EvalError Value
  | number _ value => .ok (.number value)
  | boolean value => .ok (.boolean value)
  | text contents => .ok (.text contents)
  | var name => store.get name
  | unary op operand => do op.apply (← operand.eval store)
  | binary (.arith op) left right =>
    if left.isText || right.isText then
      if op = .add then do
        let a ← left.eval store
        let b ← right.eval store
        return .text (a.toText ++ b.toText)
      else .error (.textOperator (.arith op))
    else do
      let x ← (← left.eval store).toNumber
      let y ← (← right.eval store).toNumber
      return .number (op.apply x y)
  | binary (.compare op) left right => do
    let a ← left.eval store
    let b ← right.eval store
    op.applyValues a b
  | binary (.logic op) left right => do
    let a ← (← left.eval store).toBoolean
    let b ← (← right.eval store).toBoolean
    return .boolean (op.apply a b)

/-- What a phrase does: the variables after it, its value if it has one, and the
lines that it prints. -/
structure Effect where
  store : Store
  value : Option Value
  printed : List String
deriving DecidableEq

/-- Runs a statement.  An assignment has the value that it assigns; a print has
none. -/
def Statement.run (store : Store) : Statement → Except EvalError Effect
  | assign name e => do
    let value ← e.eval store
    return ⟨store.set name value, some value, []⟩
  | print e => do
    let value ← e.eval store
    return ⟨store, none, [value.toText]⟩

/-- Runs a phrase; an expression only has its value. -/
def Phrase.run (store : Store) : Phrase → Except EvalError Effect
  | statement s => s.run store
  | expression e => do return ⟨store, some (← e.eval store), []⟩

end Linewise
