/-
Evaluation is strict.

* `Expr.exists_truth_values` — a connective that has a value has converted both of its
  operands;
* `Expr.Context.exists_value_of_fill` — an expression that has a value has one in every place;
* `Expr.eval_fill_strict` — so no operation hides an operand that fails.

Design notes: a place in an expression is a `Context` around what stands there, and the
induction goes from the outside in, one operation at a time.
-/
import Linewise.Proofs.Evaluation
import Linewise.Proofs.Evaluation.Contexts

namespace Linewise.Expr

variable {store : Store} {value : Value}

/-- A connective decides nothing before both of its operands are truth values, even if the
first one would be enough. -/
theorem exists_truth_values {op : LogicOp} {left right : Expr}
    (h : (binary (.logic op) left right).eval store = .ok value) :
    (∃ v x, left.eval store = .ok v ∧ v.toBoolean = .ok x) ∧
      ∃ v x, right.eval store = .ok v ∧ v.toBoolean = .ok x := by
  obtain ⟨a, ha, h⟩ := bind_eq_ok_iff.mp h
  obtain ⟨x, hx, h⟩ := bind_eq_ok_iff.mp h
  obtain ⟨b, hb, h⟩ := bind_eq_ok_iff.mp h
  obtain ⟨y, hy, -⟩ := bind_eq_ok_iff.mp h
  exact ⟨⟨a, x, ha, hx⟩, b, y, hb, hy⟩

theorem Context.exists_value_of_fill {context : Context} {e : Expr}
    (h : (context.fill e).eval store = .ok value) : ∃ v, e.eval store = .ok v := by
  induction context generalizing value with
  | hole => exact ⟨value, h⟩
  | unary op operand ih =>
    obtain ⟨v, hv⟩ := exists_operand h
    exact ih hv
  | left op context second ih =>
    obtain ⟨⟨v, hv⟩, -⟩ := exists_operands h
    exact ih hv
  | right op first context ih =>
    obtain ⟨-, v, hv⟩ := exists_operands h
    exact ih hv

/-- If an expression has a value, so has everything that stands in it, and the operands of
every connective in it are truth values or can be converted to one.  What fails in one place
makes the whole expression fail. -/
theorem eval_fill_strict (context : Context) (store : Store) :
    (∀ e value, (context.fill e).eval store = .ok value → ∃ v, e.eval store = .ok v) ∧
    (∀ op left right value,
      (context.fill (binary (.logic op) left right)).eval store = .ok value →
      (∃ v x, left.eval store = .ok v ∧ v.toBoolean = .ok x) ∧
        ∃ v x, right.eval store = .ok v ∧ v.toBoolean = .ok x) ∧
    ∀ e error, e.eval store = .error error →
      ∃ error', (context.fill e).eval store = .error error' := by
  refine ⟨fun e value h => context.exists_value_of_fill h, fun op left right value h => ?_,
    fun e error h => ?_⟩
  · obtain ⟨v, hv⟩ := context.exists_value_of_fill h
    exact exists_truth_values hv
  · cases hfill : (context.fill e).eval store with
    | error error' => exact ⟨error', rfl⟩
    | ok value =>
      obtain ⟨v, hv⟩ := context.exists_value_of_fill hfill
      exact nomatch hv.symm.trans h

/-- On the right of `true or`, and joined to a text, a conjunction is evaluated all the same. -/
theorem eval_fill_strict_disjunction :
    let store := Store.ofList [("x", .text " TRUE ")]
    let context := Context.right (.arith .add) (.text "flag: ")
      (.right (.logic .or) (.boolean true) .hole)
    let both := binary (.logic .and) (.var "x") (binary (.compare .eq) (.text "a") (.text "b"))
    (context.fill both).eval store = .ok (.text "flag: True") ∧
    (∃ v, both.eval store = .ok v) ∧
    (∃ v x, (var "x").eval store = .ok v ∧ v.toBoolean = .ok x) ∧
    (var "y").eval store = .error (.undefinedVariable "y") ∧
    ∃ error, (context.fill (.var "y")).eval store = .error error := by
  intro store context both
  have hboth : (context.fill both).eval store = .ok (.text "flag: True") := rfl
  have hy : (var "y").eval store = .error (.undefinedVariable "y") := rfl
  obtain ⟨hvalue, hconnective, herror⟩ := eval_fill_strict context store
  exact ⟨hboth, hvalue both _ hboth, (hconnective .and _ _ _ hboth).1, hy, herror (.var "y") _ hy⟩

end Linewise.Expr
