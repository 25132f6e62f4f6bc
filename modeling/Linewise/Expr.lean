/-
Expressions and statements.

* `Expr` — literals, variables, signs and negation, and binary operations;
* `Statement` — an assignment or a print;
* `Phrase` — what a line can hold: a statement or a bare expression.

Design notes: the binary operators come in three families, because each family
converts its operands in its own way; `BinaryOp.level` orders them by how
tightly they bind.
-/
namespace Linewise

/-- The operators of arithmetic. -/
inductive ArithOp
  | add
  | sub
  | mul
  | div
deriving DecidableEq, Repr

/-- The operators of comparison. -/
inductive CompareOp
  | eq
  | ne
  | lt
  | gt
deriving DecidableEq, Repr

/-- The two connectives. -/
inductive LogicOp
  | and
  | or
deriving DecidableEq, Repr

/-- The operators between two operands, by family. -/
inductive BinaryOp
  | arith (op : ArithOp)
  | compare (op : CompareOp)
  | logic (op : LogicOp)
deriving DecidableEq, Repr

/-- The operators before one operand. -/
inductive UnaryOp
  | plus
  | minus
  | not
deriving DecidableEq, Repr

namespace BinaryOp

/-- The sign or word of an operator in trees and messages. -/
def symbol : BinaryOp → String
  | arith .add => "+"
  | arith .sub => "-"
  | arith .mul => "*"
  | arith .div => "/"
  | compare .eq => "=="
  | compare .ne => "!="
  | compare .lt => "<"
  | compare .gt => ">"
  | logic .and => "and"
  | logic .or => "or"

/-- How tightly an operator binds, from `or` (loosest) to `*` and `/`. -/
def level : BinaryOp → Nat
  | logic .or => 1
  | logic .and => 2
  | compare .eq | compare .ne => 3
  | compare .lt | compare .gt => 4
  | arith .add | arith .sub => 5
  | arith .mul | arith .div => 6

/-- Equality and inequality, whose right side is a whole expression. -/
def isEquality : BinaryOp → Bool
  | compare .eq | compare .ne => true
  | _ => false

/-- The two connectives, the only operators that bind looser than negation. -/
def isLogic : BinaryOp → Bool
  | logic _ => true
  | _ => false

end BinaryOp

/-- The sign or word of an operator before one operand, in trees. -/
def UnaryOp.symbol : UnaryOp → String
  | plus => "+"
  | minus => "-"
  | not => "not"

/-- An expression.  A number literal keeps its spelling beside its value. -/
inductive Expr
  | number (spelling : String) (value : Float)
  | boolean (value : Bool)
  | text (contents : String)
  | var (name : String)
  | unary (op : UnaryOp) (operand : Expr)
  | binary (op : BinaryOp) (left right : Expr)
deriving DecidableEq, Repr

/-- Whether an expression is a text literal. -/
def Expr.isText : Expr → Bool
  | text _ => true
  | _ => false

/-- A statement: `name = value;` or `print value;`. -/
inductive Statement
  | assign (name : String) (value : Expr)
  | print (value : Expr)
deriving DecidableEq, Repr

/-- What a line can hold besides blanks and comments. -/
inductive Phrase
  | statement (s : Statement)
  | expression (e : Expr)
deriving DecidableEq, Repr

end Linewise
