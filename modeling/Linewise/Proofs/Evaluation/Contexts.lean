/-
Replacing equals by equals in an expression.

* `Expr.Context`, `Expr.Context.fill` — an expression with one hole, and what it is once the
  hole is filled;
* `Expr.Context.readsForm` — the hole is an operand of arithmetic;
* `Expr.Context.eval_fill` — expressions of one value fill a hole to one value, if they are
  text literals both or neither where the hole is an operand of arithmetic;
* `Expr.eval_add_ne_of_text` — in a sum this condition cannot be dropped;
* `Expr.eval_fill_congr` — so it is sound to replace equals by equals away from text literals.

Design notes: arithmetic is the only operation that reads the form of its operands, and it
reads no further than whether they are text literals.  With a context around it, the hole is
below the operand, whose form it then does not decide.
-/
import Linewise.Eval
import Linewise.Proofs.Results

namespace Linewise

/-- The operators that read the form of their operands. -/
def BinaryOp.isArith : BinaryOp → Bool
  | arith _ => true
  | compare _ | logic _ => false

namespace Expr

/-- An expression with one hole. -/
inductive Context
  | hole
  | unary (op : UnaryOp) (operand : Context)
  | left (op : BinaryOp) (context : Context) (second : Expr)
  | right (op : BinaryOp) (first : Expr) (context : Context)

/-- The value of an operation depends on those of its operands, and in arithmetic on which
of them are text literals. -/
theorem eval_binary_congr {op : BinaryOp} {left left' right right' : Expr} {store : Store}
    (hleft : left.eval store = left'.eval store) (hright : right.eval store = right'.eval store)
    (hform : op.isArith = true → left.isText = left'.isText ∧ right.isText = right'.isText) :
    (binary op left right).eval store = (binary op left' right').eval store := by
  cases op with
  | arith op =>
    obtain ⟨hleftForm, hrightForm⟩ := hform rfl
    rw [eval, eval, hleft, hright, hleftForm, hrightForm]
  | compare op => rw [eval, eval, hleft, hright]
  | logic op => rw [eval, eval, hleft, hright]

namespace Context

/-- The expression with another one in place of the hole. -/
def fill : Context → Expr → Expr
  | hole, e => e
  | unary op operand, e => .unary op (operand.fill e)
  | left op context second, e => .binary op (context.fill e) second
  | right op first context, e => .binary op first (context.fill e)

/-- Whether there is nothing around the hole. -/
def isHole : Context → Bool
  | hole => true
  | unary _ _ | left _ _ _ | right _ _ _ => false

/-- Whether the hole is an operand of arithmetic. -/
def readsForm : Context → Bool
  | hole => false
  | unary _ operand => operand.readsForm
  | left op context _ | right op _ context => op.isArith && context.isHole || context.readsForm

variable {store : Store} {e e' : Expr}

theorem isText_fill_congr {context : Context}
    (h : context.isHole = true → e.isText = e'.isText) :
    (context.fill e).isText = (context.fill e').isText := by
  cases context with
  | hole => exact h rfl
  | unary op operand => rfl
  | left op context second => rfl
  | right op first context => rfl

/-- Expressions of one value, or of one error, fill a hole to one value or error; where the
hole is an operand of arithmetic, both of them have to be text literals or neither. -/
theorem eval_fill {context : Context} (h : e.eval store = e'.eval store)
    (hform : context.readsForm = true → e.isText = e'.isText) :
    (context.fill e).eval store = (context.fill e').eval store := by
  induction context with
  | hole => exact h
  | unary op operand ih => rw [fill, fill, eval, eval, ih hform]
  | left op context second ih =>
    have hfill := ih fun hreads => hform (by simp [readsForm, hreads])
    exact eval_binary_congr hfill rfl fun harith =>
      ⟨isText_fill_congr fun hhole => hform (by simp [readsForm, harith, hhole]), rfl⟩
  | right op first context ih =>
    have hfill := ih fun hreads => hform (by simp [readsForm, hreads])
    exact eval_binary_congr rfl hfill fun harith =>
      ⟨rfl, isText_fill_congr fun hhole => hform (by simp [readsForm, harith, hhole])⟩

end Context

/-- A sum with a text literal never has the value of a sum without one, not even if their
operands have the same values: the first one joins texts, and the second one adds numbers. -/
theorem eval_add_ne_of_text {store : Store} {s : String} {e right : Expr} {v : Value}
    (he : e.isText = false) (hright : right.isText = false) (hv : right.eval store = .ok v) :
    (binary (.arith .add) (.text s) right).eval store ≠
      (binary (.arith .add) e right).eval store := by
  intro heq
  have hjoined :
      (binary (.arith .add) (.text s) right).eval store = .ok (.text (s ++ v.toText)) := by
    simp [eval, isText, hv, Value.toText, bind, Except.bind, pure, Except.pure]
  have hsum := heq.symm.trans hjoined
  rw [eval, if_neg (by simp [he, hright])] at hsum
  obtain ⟨a, -, hsum⟩ := bind_eq_ok_iff.mp hsum
  obtain ⟨x, -, hsum⟩ := bind_eq_ok_iff.mp hsum
  obtain ⟨b, -, hsum⟩ := bind_eq_ok_iff.mp hsum
  obtain ⟨y, -, hsum⟩ := bind_eq_ok_iff.mp hsum
  exact nomatch hsum

theorem eval_var_of_get? {store : Store} {name : String} {v : Value}
    (h : store.get? name = some v) : (var name).eval store = .ok v := by
  rw [eval, Store.get, h]

/-- Expressions that are not text literals and have one value, or one error, may stand for
each other in every place of an expression.  So may a variable that holds a number or a truth
value and the literal of that value, however it is spelled. -/
theorem eval_fill_congr (store : Store) (context : Context) :
    (∀ e e' : Expr, e.isText = false → e'.isText = false → e.eval store = e'.eval store →
      (context.fill e).eval store = (context.fill e').eval store) ∧
    (∀ name spelling x, store.get? name = some (.number x) →
      (context.fill (.var name)).eval store = (context.fill (.number spelling x)).eval store) ∧
    ∀ name b, store.get? name = some (.boolean b) →
      (context.fill (.var name)).eval store = (context.fill (.boolean b)).eval store := by
  refine ⟨fun e e' he he' h => ?_, fun name spelling x hname => ?_, fun name b hname => ?_⟩
  · exact context.eval_fill h fun _ => he.trans he'.symm
  · exact context.eval_fill (eval_var_of_get? hname) fun _ => rfl
  · exact context.eval_fill (eval_var_of_get? hname) fun _ => rfl

/-- Beside a text literal, a sum, a variable and a literal of one number are joined to one
text, and so are a variable and a literal of one truth value. -/
theorem eval_fill_congr_joined :
    let store := Store.ofList [("n", .number 3), ("b", .boolean true)]
    let context := Context.right (.arith .add) (.text "= ") .hole
    let sum := binary (.arith .add) (.number "1" 1) (.number "2" 2)
    sum.isText = false ∧ (var "n").isText = false ∧ sum.eval store = (var "n").eval store ∧
    store.get? "n" = some (.number 3) ∧ store.get? "b" = some (.boolean true) ∧
    (context.fill sum).eval store = .ok (.text "= 3") ∧
    (context.fill (.var "n")).eval store = .ok (.text "= 3") ∧
    (context.fill (.var "b")).eval store = .ok (.text "= True") := by
  intro store context sum
  have hadd : (1 : Float) + 2 = 3 := by decide +kernel
  have hsum : sum.eval store = (var "n").eval store :=
    congrArg (fun x => Except.ok (Value.number x)) hadd
  have hn : store.get? "n" = some (.number 3) := rfl
  have hb : store.get? "b" = some (.boolean true) := rfl
  have htext : "= " ++ Number.text 3 = "= 3" := by decide +kernel
  have hliteral : (context.fill (.number "3.0" 3)).eval store = .ok (.text "= 3") :=
    congrArg (fun t => Except.ok (Value.text t)) htext
  obtain ⟨hequals, hnumber, hboolean⟩ := eval_fill_congr store context
  have hvar := (hnumber "n" "3.0" 3 hn).trans hliteral
  exact ⟨rfl, rfl, hsum, hn, hb, (hequals sum (var "n") rfl rfl hsum).trans hvar, hvar,
    (hboolean "b" true hb).trans rfl⟩

end Expr

end Linewise
