/-
Evaluation leaves no operand out and reads nothing else.

* `Expr.names`, `Statement.names` — the names that a tree reads;
* `Expr.eval_congr` — its value depends on the values of these names only;
* `exists_operand`, `exists_operands` — an operation that has a value has values for all of
  its operands;
* `isSome_get?_of_eval`, `isSome_get?_of_run` — so every name in a tree that has a value is a
  variable of the store.

Design notes: `and` and `or` are no exception, and where one operand is a text literal the
other one is evaluated all the same.
-/
import Linewise.Eval
import Linewise.Proofs.Results

namespace Linewise

/-- The names in an expression, from left to right. -/
def Expr.names : Expr → List String
  | number _ _ | boolean _ | text _ => []
  | var name => [name]
  | unary _ operand => operand.names
  | binary _ left right => left.names ++ right.names

/-- The names in the expression of a statement. -/
def Statement.names : Statement → List String
  | assign _ e | print e => e.names

theorem Store.isSome_get?_of_get {store : Store} {name : String} {value : Value}
    (h : store.get name = .ok value) : (store.get? name).isSome := by
  unfold Store.get at h
  split at h
  · next found hfound => rw [hfound]; rfl
  · exact absurd h (by simp)

theorem Store.get_congr {store store' : Store} {name : String}
    (h : store.get? name = store'.get? name) : store.get name = store'.get name := by
  rw [get, get, h]

namespace Expr

/-- Stores that agree on the names in an expression give it the same value, or the same
error. -/
theorem eval_congr {e : Expr} {store store' : Store}
    (h : ∀ name ∈ e.names, store.get? name = store'.get? name) :
    e.eval store = e.eval store' := by
  induction e with
  | number spelling x => rfl
  | boolean b => rfl
  | text contents => rfl
  | var name => exact Store.get_congr (h name List.mem_cons_self)
  | unary op operand ih => rw [eval, eval, ih h]
  | binary op left right ihleft ihright =>
    have hleft := ihleft fun name hname => h name (List.mem_append_left right.names hname)
    have hright := ihright fun name hname => h name (List.mem_append_right left.names hname)
    cases op with
    | arith op => rw [eval, eval, hleft, hright]
    | compare op => rw [eval, eval, hleft, hright]
    | logic op => rw [eval, eval, hleft, hright]

variable {store : Store} {value : Value}

theorem exists_operand {op : UnaryOp} {operand : Expr}
    (h : (unary op operand).eval store = .ok value) : ∃ v, operand.eval store = .ok v := by
  obtain ⟨v, hv, -⟩ := bind_eq_ok_iff.mp h
  exact ⟨v, hv⟩

/-- Both operands of an operation that has a value have values. -/
theorem exists_operands {op : BinaryOp} {left right : Expr}
    (h : (binary op left right).eval store = .ok value) :
    (∃ v, left.eval store = .ok v) ∧ ∃ v, right.eval store = .ok v := by
  cases op with
  | arith op =>
    rw [eval] at h
    split at h
    · split at h
      · obtain ⟨a, ha, h⟩ := bind_eq_ok_iff.mp h
        obtain ⟨b, hb, -⟩ := bind_eq_ok_iff.mp h
        exact ⟨⟨a, ha⟩, b, hb⟩
      · exact absurd h (by simp)
    · obtain ⟨a, ha, h⟩ := bind_eq_ok_iff.mp h
      obtain ⟨x, -, h⟩ := bind_eq_ok_iff.mp h
      obtain ⟨b, hb, -⟩ := bind_eq_ok_iff.mp h
      exact ⟨⟨a, ha⟩, b, hb⟩
  | compare op =>
    obtain ⟨a, ha, h⟩ := bind_eq_ok_iff.mp h
    obtain ⟨b, hb, -⟩ := bind_eq_ok_iff.mp h
    exact ⟨⟨a, ha⟩, b, hb⟩
  | logic op =>
    -- The first operand decides nothing before the second one has a value too.
    obtain ⟨a, ha, h⟩ := bind_eq_ok_iff.mp h
    obtain ⟨x, -, h⟩ := bind_eq_ok_iff.mp h
    obtain ⟨b, hb, -⟩ := bind_eq_ok_iff.mp h
    exact ⟨⟨a, ha⟩, b, hb⟩

/-- All names in an expression that has a value have values. -/
theorem isSome_get?_of_eval {e : Expr} (h : e.eval store = .ok value) :
    ∀ name ∈ e.names, (store.get? name).isSome := by
  induction e generalizing value with
  | number spelling x => simp [names]
  | boolean b => simp [names]
  | text contents => simp [names]
  | var name =>
    intro other hother
    obtain rfl := List.mem_singleton.mp hother
    exact Store.isSome_get?_of_get h
  | unary op operand ih =>
    obtain ⟨v, hv⟩ := exists_operand h
    exact ih hv
  | binary op left right ihleft ihright =>
    obtain ⟨⟨a, ha⟩, b, hb⟩ := exists_operands h
    intro name hname
    rcases List.mem_append.mp hname with hname | hname
    · exact ihleft ha name hname
    · exact ihright hb name hname

end Expr

/-- All names in a statement that runs have values before it runs. -/
theorem Statement.isSome_get?_of_run {s : Statement} {store : Store} {effect : Effect}
    (h : s.run store = .ok effect) : ∀ name ∈ s.names, (store.get? name).isSome := by
  cases s with
  | assign target e =>
    obtain ⟨value, heval, -⟩ := bind_eq_ok_iff.mp h
    exact Expr.isSome_get?_of_eval heval
  | print e =>
    obtain ⟨value, heval, -⟩ := bind_eq_ok_iff.mp h
    exact Expr.isSome_get?_of_eval heval

end Linewise
