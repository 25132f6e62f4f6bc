/-
Frames: what encloses an operand while it is being read.

* `Frame` — an open parenthesis, the right side of an equality, an operator
  before one operand, or a chain of operators that bind alike;
* `Frame.complete` — the tree that a frame makes of its finished operand;
* `Frame.endsBefore` — whether its operand ends where a given operator follows;
* `Frame.cost` — how many levels of nesting it takes.

Design notes: a stack of frames, innermost first, is a tree with one hole.  An
operand is finished as late as possible: when the next operator or the end of
the expression shows that nothing more belongs to it.  In a chain every
operator takes a level of its own, because each makes the tree one deeper on
the left.
-/
import Linewise.Expr

namespace Linewise

/-- What encloses an operand that is being read. -/
inductive Frame
  /-- An open parenthesis. -/
  | group
  /-- The right side of an equality, which is a whole expression. -/
  | rightSide
  /-- An operator before the operand. -/
  | before (op : UnaryOp)
  /-- A chain of operators of one level that has come to `op`, with what is on
  its left and the number of operators so far. -/
  | chain (op : BinaryOp) (left : Expr) (count : Nat)
deriving DecidableEq, Repr

namespace Frame

/-- The tree that a frame makes of its finished operand.  Parentheses leave no
trace in the tree. -/
def complete : Frame → Expr → Expr
  | group, e => e
  | rightSide, e => e
  | before op, e => .unary op e
  | chain op left _, e => .binary op left e

/-- The levels of nesting that a frame takes. -/
def cost : Frame → Nat
  | chain _ _ count => count
  | _ => 1

/-- Whether the frame is an open parenthesis. -/
def isGroup : Frame → Bool
  | group => true
  | _ => false

/-- Whether the operand of a frame ends where the operator `op` follows it: a
sign takes no operator into its operand, a negation those from equality on, a
chain those that bind tighter than its own, and a parenthesis or the right side
of an equality takes all. -/
def endsBefore (op : BinaryOp) : Frame → Bool
  | group => false
  | rightSide => false
  | before .not => op.isLogic
  | before _ => true
  | chain own _ _ => decide (op.level < own.level)

/-- The tree that a stack of frames, innermost first, makes of an operand. -/
def completeAll (frames : List Frame) (e : Expr) : Expr :=
  frames.foldl (fun e f => f.complete e) e

/-- The levels of nesting that a stack of frames takes. -/
def totalCost : List Frame → Nat
  | [] => 0
  | f :: fs => f.cost + totalCost fs

@[simp] theorem completeAll_nil (e : Expr) : completeAll [] e = e := rfl

@[simp] theorem completeAll_cons (f : Frame) (fs : List Frame) (e : Expr) :
    completeAll (f :: fs) e = completeAll fs (f.complete e) := rfl

@[simp] theorem totalCost_nil : totalCost [] = 0 := rfl

@[simp] theorem totalCost_cons (f : Frame) (fs : List Frame) :
    totalCost (f :: fs) = f.cost + totalCost fs := rfl

@[simp] theorem totalCost_append (fs gs : List Frame) :
    totalCost (fs ++ gs) = totalCost fs + totalCost gs := by
  induction fs with
  | nil => simp
  | cons f fs ih => simp [ih, Nat.add_assoc]

end Frame

end Linewise
