/-
Evaluation without texts.

* `Expr.TextFree`, `Store.TextFree` — no text literal in a tree, no text in a store;
* `Store.firstUnbound` — the first of some names that has no value;
* `Store.Needs` — a computation that has a result if all of the given names have values, and
  else the error of the first one that has none;
* `Expr.needs_eval` — without texts, evaluation needs the names of the tree;
* `Expr.eval_textFree` — so it fails for a name without a value only, and for the leftmost
  one.

Design notes: `Store.Needs.bind` appends the names of the second step to those of the first.
An operator that evaluated its operands in another order, or left one out, would need other
names than those of its tree.
-/
import Linewise.Proofs.Store
import Linewise.Proofs.Texts

namespace Linewise

/-- No text literal is in the expression. -/
def Expr.TextFree (e : Expr) : Prop :=
  ∀ contents, Kind.text contents ∉ e.leaves

/-- No value of the store is a text. -/
def Store.TextFree (store : Store) : Prop :=
  ∀ name value, store.get? name = some value → value.isText = false

namespace Expr.TextFree

theorem isText {e : Expr} (h : e.TextFree) : e.isText = false := by
  cases e with
  | text contents => exact absurd List.mem_cons_self (h contents)
  | number _ _ | boolean _ | var _ | unary _ _ | binary _ _ _ => rfl

theorem operand {op : UnaryOp} {operand : Expr} (h : (unary op operand).TextFree) :
    operand.TextFree := h

theorem left {op : BinaryOp} {left right : Expr} (h : (binary op left right).TextFree) :
    left.TextFree := fun contents hmem => h contents (List.mem_append_left _ hmem)

theorem right {op : BinaryOp} {left right : Expr} (h : (binary op left right).TextFree) :
    right.TextFree := fun contents hmem => h contents (List.mem_append_right _ hmem)

end Expr.TextFree

/-! ### Names that a computation needs -/

namespace Store

/-- The first of the names that has no value. -/
def firstUnbound (store : Store) (names : List String) : Option String :=
  names.find? fun name => (store.get? name).isNone

variable {store : Store}

theorem firstUnbound_append (names names' : List String) :
    store.firstUnbound (names ++ names') =
      (store.firstUnbound names).or (store.firstUnbound names') :=
  List.find?_append

theorem firstUnbound_eq_none_iff {names : List String} :
    store.firstUnbound names = none ↔ ∀ name ∈ names, (store.get? name).isSome := by
  simp [firstUnbound, Option.isSome_iff_ne_none]

theorem firstUnbound_eq_some_iff {names : List String} {name : String} :
    store.firstUnbound names = some name ↔ store.get? name = none ∧
      ∃ before after, names = before ++ name :: after ∧
        ∀ other ∈ before, (store.get? other).isSome := by
  simp [firstUnbound, List.find?_eq_some_iff_append, Option.isSome_iff_ne_none]

/-- If all of the names have values, the computation has a result that satisfies `P`, and
else its error is that of the first one that has none. -/
def Needs {α : Type} (store : Store) (names : List String) (P : α → Prop)
    (x : Except EvalError α) : Prop :=
  match store.firstUnbound names with
  | none => ∃ a, x = .ok a ∧ P a
  | some name => x = .error (.undefinedVariable name)

namespace Needs

variable {α β : Type} {names names' : List String} {P : α → Prop} {R : β → Prop}

theorem ok {a : α} (h : P a) : store.Needs [] P (.ok a) := ⟨a, rfl, h⟩

theorem bind {x : Except EvalError α} {f : α → Except EvalError β} (hx : store.Needs names P x)
    (hf : ∀ a, P a → store.Needs names' R (f a)) : store.Needs (names ++ names') R (x >>= f) := by
  unfold Needs at hx ⊢
  rw [firstUnbound_append]
  cases hfirst : store.firstUnbound names with
  | none =>
    rw [hfirst] at hx
    obtain ⟨a, rfl, ha⟩ := hx
    exact hf a ha
  | some name =>
    rw [hfirst] at hx
    subst hx
    rfl

/-- A last step that needs no names. -/
theorem finish {x : Except EvalError α} {f : α → Except EvalError β} (hx : store.Needs names P x)
    (hf : ∀ a, P a → store.Needs [] R (f a)) : store.Needs names R (x >>= f) :=
  List.append_nil names ▸ hx.bind hf

end Needs

theorem TextFree.needs_get (h : store.TextFree) (name : String) :
    store.Needs [name] (fun v => v.isText = false) (store.get name) := by
  unfold Needs firstUnbound get
  cases hname : store.get? name with
  | none => simp [hname]
  | some value => simpa [hname] using h name value hname

end Store

/-! ### Conversions and operators -/

section Operators

variable {store : Store} {v w : Value} (hv : v.isText = false) (hw : w.isText = false)

include hv

theorem Value.needs_toNumber : store.Needs [] (fun _ => True) v.toNumber := by
  cases v with
  | number x => exact .ok trivial
  | boolean b => exact .ok trivial
  | text s => exact absurd hv (by simp [isText])

theorem Value.needs_toBoolean : store.Needs [] (fun _ => True) v.toBoolean := by
  cases v with
  | number x => exact .ok trivial
  | boolean b => exact .ok trivial
  | text s => exact absurd hv (by simp [isText])

theorem UnaryOp.needs_apply (op : UnaryOp) :
    store.Needs [] (fun v => v.isText = false) (op.apply v) := by
  cases op with
  | plus => exact (Value.needs_toNumber hv).finish fun x _ => .ok rfl
  | minus => exact (Value.needs_toNumber hv).finish fun x _ => .ok rfl
  | not => exact (Value.needs_toBoolean hv).finish fun x _ => .ok rfl

include hw

theorem CompareOp.needs_applyValues (op : CompareOp) :
    store.Needs [] (fun v => v.isText = false) (op.applyValues v w) := by
  unfold applyValues
  split
  · exact absurd hv (by simp [Value.isText])
  · rw [if_neg (by simp [hv, hw])]
    exact (Value.needs_toNumber hv).finish fun x _ =>
      (Value.needs_toNumber hw).finish fun y _ => .ok rfl

end Operators

/-! ### Expressions -/

namespace Expr

variable {e : Expr} {store : Store} (he : e.TextFree) (hstore : store.TextFree)

include he hstore

/-- Without texts, an expression needs the values of its names, from left to right, and
nothing else. -/
theorem needs_eval : store.Needs e.names (fun v => v.isText = false) (e.eval store) := by
  induction e with
  | number spelling x => exact .ok rfl
  | boolean b => exact .ok rfl
  | text contents => exact absurd he.isText (by simp [isText])
  | var name => exact hstore.needs_get name
  | unary op operand ih =>
    exact (ih he.operand).finish fun v hv => op.needs_apply hv
  | binary op left right ihleft ihright =>
    have hleft := ihleft he.left
    have hright := ihright he.right
    cases op with
    | arith op =>
      rw [eval, if_neg (by simp [he.left.isText, he.right.isText])]
      exact hleft.bind fun a ha => (Value.needs_toNumber ha).bind fun x _ =>
        hright.finish fun b hb => (Value.needs_toNumber hb).finish fun y _ => .ok rfl
    | compare op =>
      exact hleft.bind fun a ha => hright.finish fun b hb => op.needs_applyValues ha hb
    | logic op =>
      exact hleft.bind fun a ha => (Value.needs_toBoolean ha).bind fun x _ =>
        hright.finish fun b hb => (Value.needs_toBoolean hb).finish fun y _ => .ok rfl

/-- Without texts, an expression has a value if and only if all of its names have one, and
it is a number or a truth value.  If not, the error is that of the leftmost name that has no
value, whatever the operators are. -/
theorem eval_textFree :
    ((∃ v, e.eval store = .ok v ∧ v.isText = false) ↔
      ∀ name ∈ e.names, (store.get? name).isSome) ∧
    ((¬ ∀ name ∈ e.names, (store.get? name).isSome) → ∃ before name after,
      e.names = before ++ name :: after ∧ (∀ other ∈ before, (store.get? other).isSome) ∧
      store.get? name = none ∧ e.eval store = .error (.undefinedVariable name)) := by
  have hneeds := needs_eval he hstore
  unfold Store.Needs at hneeds
  rw [← Store.firstUnbound_eq_none_iff]
  cases hfirst : store.firstUnbound e.names with
  | none =>
    rw [hfirst] at hneeds
    exact ⟨iff_of_true hneeds rfl, fun h => absurd rfl h⟩
  | some name =>
    rw [hfirst] at hneeds
    obtain ⟨hname, before, after, hnames, hbefore⟩ := Store.firstUnbound_eq_some_iff.mp hfirst
    exact ⟨iff_of_false (fun ⟨v, hv, _⟩ => nomatch hneeds.symm.trans hv) (by simp),
      fun _ => ⟨before, name, after, hnames, hbefore, hname, hneeds⟩⟩

end Expr

/-- A comparison whose left side has a value, and on its right side a conjunction with two
names that have none: the first of them is to blame. -/
theorem Expr.eval_textFree_leftmost :
    let e : Expr := .binary (.compare .lt) (.binary (.arith .div) (.var "x") (.number "0" 0))
      (.binary (.logic .and) (.unary .not (.var "y")) (.var "z"))
    let store := Store.ofList [("x", .boolean true)]
    e.TextFree ∧ store.TextFree ∧ ¬ (∀ name ∈ e.names, (store.get? name).isSome) ∧
    e.eval store = .error (.undefinedVariable "y") := by
  intro e store
  have he : e.TextFree := by simp [TextFree, e, leaves]
  have hstore : store.TextFree := by
    intro name value h
    have hmem : (name, value) ∈ [("x", Value.boolean true)] := store.mem_entries_iff.mpr h
    obtain ⟨-, rfl⟩ := Prod.mk.inj (List.mem_singleton.mp hmem)
    rfl
  have hunbound : ¬ ∀ name ∈ e.names, (store.get? name).isSome := by decide
  obtain ⟨before, name, after, hnames, hbefore, hname, heval⟩ :=
    (eval_textFree he hstore).2 hunbound
  have hfirst : store.firstUnbound e.names = some name :=
    Store.firstUnbound_eq_some_iff.mpr ⟨hname, before, after, hnames, hbefore⟩
  obtain rfl : "y" = name := Option.some.inj hfirst
  exact ⟨he, hstore, hunbound, heval⟩

end Linewise
