/-
Where the characters of values come from.

* `Expr.leaves`, `Statement.leaves` — the literals and names that are evaluated, as tokens;
* `Store.Lacks` — a character that no value of a store is written with;
* `EvalError.QuotesIn` — an error quotes a character in given names only;
* `Expr.settles_eval` — a character that no number is written with, that is in no text
  literal of a tree and in no value of the store, is not in the value of the tree, and its
  error quotes it in the names of the tree only;
* `Statement.settles_run` — and a statement neither prints nor assigns it.

Design notes: the text of a value is what `+` joins and what a conversion that fails
quotes, so the lemmas speak of the texts of all values and not of texts alone.
-/
import Linewise.Proofs.Evaluation
import Linewise.Proofs.Messages

namespace Linewise

/-- The literals and names in an expression, from left to right. -/
def Expr.leaves : Expr → List Kind
  | number spelling _ => [.number spelling]
  | boolean value => [.boolean value]
  | text contents => [.text contents]
  | var name => [.name name]
  | unary _ operand => operand.leaves
  | binary _ left right => left.leaves ++ right.leaves

/-- The literals and names in the expression of a statement. -/
def Statement.leaves : Statement → List Kind
  | assign _ e | print e => e.leaves

/-- No value of the store is written with the character. -/
def Store.Lacks (store : Store) (c : Char) : Prop :=
  ∀ name value, store.get? name = some value → c ∉ value.toText.toList

theorem Store.Lacks.set {store : Store} {c : Char} (h : store.Lacks c) (name : String)
    {value : Value} (hvalue : c ∉ value.toText.toList) : (store.set name value).Lacks c := by
  intro other v hv
  rw [get?_set] at hv
  split at hv
  · obtain rfl := Option.some.inj hv
    exact hvalue
  · exact h other v hv

/-- The error quotes the character in one of the names only. -/
def EvalError.QuotesIn (leaves : List Kind) (c : Char) (error : EvalError) : Prop :=
  ∀ q ∈ error.quoted, Kind.name q ∈ leaves ∨ c ∉ q.toList

theorem EvalError.QuotesIn.mono {leaves leaves' : List Kind} {c : Char} {error : EvalError}
    (h : error.QuotesIn leaves c) (hleaves : leaves ⊆ leaves') : error.QuotesIn leaves' c :=
  fun q hq => (h q hq).imp_left (@hleaves (.name q))

variable {leaves : List Kind} {c : Char}

/-- Numbers and truth values are written with the characters of numbers. -/
theorem Value.notMem_toText (hc : Number.isWritten c = false) {v : Value}
    (h : v.isText = false) : c ∉ v.toText.toList := by
  have hwritten : ∀ d ∈ v.toText.toList, Number.isWritten d = true := by
    cases v with
    | number x => exact fun d => Number.isWritten_of_mem_text
    | boolean b => cases b <;> exact List.all_eq_true.mp (by decide)
    | text s => exact absurd h (by simp [isText])
  intro hmem
  exact absurd (hwritten c hmem) (by simp [hc])

/-! ### Conversions and operators -/

section Operators

variable {a b : Value} (ha : c ∉ a.toText.toList) (hb : c ∉ b.toText.toList)

include ha

theorem Value.settles_toNumber :
    Settles (fun _ => True) (EvalError.QuotesIn leaves c) a.toNumber := by
  unfold toNumber
  split
  · exact .ok trivial
  · exact .ok trivial
  · split
    · exact .ok trivial
    · exact .error fun q hq => Or.inr (List.mem_singleton.mp hq ▸ ha)

theorem Value.settles_toBoolean :
    Settles (fun _ => True) (EvalError.QuotesIn leaves c) a.toBoolean := by
  unfold toBoolean
  split
  · exact .ok trivial
  · exact .ok trivial
  · split
    · exact .ok trivial
    · exact .ok trivial
    · exact .error fun q hq => Or.inr (List.mem_singleton.mp hq ▸ ha)

variable (hc : Number.isWritten c = false)

include hc

theorem UnaryOp.settles_apply (op : UnaryOp) :
    Settles (fun v => c ∉ v.toText.toList) (EvalError.QuotesIn leaves c) (op.apply a) := by
  cases op with
  | plus => exact (Value.settles_toNumber ha).bind fun x _ => .ok (Value.notMem_toText hc rfl)
  | minus => exact (Value.settles_toNumber ha).bind fun x _ => .ok (Value.notMem_toText hc rfl)
  | not => exact (Value.settles_toBoolean ha).bind fun x _ => .ok (Value.notMem_toText hc rfl)

include hb

theorem CompareOp.settles_applyValues (op : CompareOp) :
    Settles (fun v => c ∉ v.toText.toList) (EvalError.QuotesIn leaves c) (op.applyValues a b) := by
  unfold applyValues
  split
  · split
    · exact .ok (Value.notMem_toText hc rfl)
    · exact .ok (Value.notMem_toText hc rfl)
    · exact .error (by simp [EvalError.QuotesIn, EvalError.quoted])
    · exact .error (by simp [EvalError.QuotesIn, EvalError.quoted])
  · split
    · exact .error (by simp [EvalError.QuotesIn, EvalError.quoted])
    · exact (Value.settles_toNumber ha).bind fun x _ => (Value.settles_toNumber hb).bind
        fun y _ => .ok (Value.notMem_toText hc rfl)

end Operators

/-! ### Expressions -/

theorem Store.Lacks.settles_get {store : Store} (h : store.Lacks c) (name : String) :
    Settles (fun v => c ∉ v.toText.toList) (EvalError.QuotesIn [.name name] c)
      (store.get name) := by
  unfold get
  split
  · next value hvalue => exact .ok (h name value hvalue)
  · exact .error fun q hq => Or.inl (by simpa [EvalError.quoted] using hq)

/-- A character that no number is written with, and that is neither in the text literals
of an expression nor in the values of the store, is not in the value of the expression
either, and an error quotes it in the names of the expression only. -/
theorem Expr.settles_eval {e : Expr} {store : Store} (hc : Number.isWritten c = false)
    (hstore : store.Lacks c) (htexts : ∀ q, Kind.text q ∈ e.leaves → c ∉ q.toList) :
    Settles (fun v => c ∉ v.toText.toList) (EvalError.QuotesIn e.leaves c) (e.eval store) := by
  induction e with
  | number spelling x => exact .ok (Value.notMem_toText hc rfl)
  | boolean b => exact .ok (Value.notMem_toText hc rfl)
  | text contents => exact .ok (htexts contents List.mem_cons_self)
  | var name => exact hstore.settles_get name
  | unary op operand ih => exact (ih htexts).bind fun v hv => op.settles_apply hv hc
  | binary op left right ihleft ihright =>
    have hleft := fun q hq => htexts q (List.mem_append_left right.leaves hq)
    have hright := fun q hq => htexts q (List.mem_append_right left.leaves hq)
    have hl : Settles (fun v => c ∉ v.toText.toList)
        (EvalError.QuotesIn (binary op left right).leaves c) (left.eval store) :=
      (ihleft hleft).weaken fun _ h => h.mono (List.subset_append_left _ _)
    have hr : Settles (fun v => c ∉ v.toText.toList)
        (EvalError.QuotesIn (binary op left right).leaves c) (right.eval store) :=
      (ihright hright).weaken fun _ h => h.mono (List.subset_append_right _ _)
    cases op with
    | arith op =>
      rw [eval]
      split
      · split
        · -- Only here a text comes out: both operands are joined.
          refine hl.bind fun a ha => hr.bind fun b hb => .ok ?_
          rw [Value.toText, String.toList_append, List.mem_append]
          exact not_or.mpr ⟨ha, hb⟩
        · exact .error (by simp [EvalError.QuotesIn, EvalError.quoted])
      · exact hl.bind fun a ha => (Value.settles_toNumber ha).bind fun x _ => hr.bind fun b hb =>
          (Value.settles_toNumber hb).bind fun y _ => .ok (Value.notMem_toText hc rfl)
    | compare op => exact hl.bind fun a ha => hr.bind fun b hb => op.settles_applyValues ha hb hc
    | logic op =>
      exact hl.bind fun a ha => (Value.settles_toBoolean ha).bind fun x _ => hr.bind fun b hb =>
        (Value.settles_toBoolean hb).bind fun y _ => .ok (Value.notMem_toText hc rfl)

/-- A statement over such values neither assigns nor prints the character. -/
theorem Statement.settles_run {s : Statement} {store : Store} (hc : Number.isWritten c = false)
    (hstore : store.Lacks c) (htexts : ∀ q, Kind.text q ∈ s.leaves → c ∉ q.toList) :
    Settles (fun effect => effect.store.Lacks c ∧ ∀ l ∈ effect.printed, c ∉ l.toList)
      (EvalError.QuotesIn s.leaves c) (s.run store) := by
  cases s with
  | assign name e =>
    exact (Expr.settles_eval hc hstore htexts).bind fun v hv => .ok ⟨hstore.set name hv, by simp⟩
  | print e =>
    exact (Expr.settles_eval hc hstore htexts).bind fun v hv =>
      .ok ⟨hstore, List.forall_mem_singleton.mpr hv⟩

end Linewise
