/-
The list form of a tree: every operation in parentheses, operator first.

* `Expr.form`, `Statement.form`, `Phrase.form` — for instance `(+ 1 (* 2 3))`.

Design notes: numbers appear as they were spelled and texts quoted.
-/
import Linewise.Expr
import Linewise.Text.Quoted

namespace Linewise

/-- An operator and its operands in parentheses. -/
def listForm (operator : String) (operands : List String) : String :=
  "(" ++ " ".intercalate (operator :: operands) ++ ")"

/-- The list form of an expression. -/
def Expr.form : Expr → String
  | number spelling _ => spelling
  | boolean true => "true"
  | boolean false => "false"
  | text contents => Text.quote contents
  | var name => name
  | unary op operand => listForm op.symbol [operand.form]
  | binary op left right => listForm op.symbol [left.form, right.form]

/-- The list form of a statement. -/
def Statement.form : Statement → String
  | assign name value => listForm "=" [name, value.form]
  | print value => listForm "print" [value.form]

/-- The list form of a line's phrase. -/
def Phrase.form : Phrase → String
  | statement s => s.form
  | expression e => e.form

end Linewise
