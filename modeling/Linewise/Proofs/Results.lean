/-
Results and errors of computations in steps.

* `bind_eq_ok_iff`, `mapError_eq_ok_iff`, `toOption_eq_some_iff` — when a computation has
  a result;
* `ok_bind` — after a step that has one the next step follows;
* `Settles` — what holds of the result of a computation, or else of its error;
* `Parallel` — how the results of two computations are related, or else their errors.
-/
namespace Linewise

variable {ε ε' α β : Type}

theorem bind_eq_ok_iff {x : Except ε α} {f : α → Except ε β} {b : β} :
    (x >>= f) = .ok b ↔ ∃ a, x = .ok a ∧ f a = .ok b := by
  cases x with
  | error error => simp [bind, Except.bind]
  | ok a => simp [bind, Except.bind]

theorem ok_bind (a : α) (f : α → Except ε β) : (Except.ok a >>= f) = f a := rfl

@[simp] theorem mapError_ok (f : ε → ε') (a : α) : (.ok a : Except ε α).mapError f = .ok a := rfl

@[simp] theorem mapError_error (f : ε → ε') (error : ε) :
    (.error error : Except ε α).mapError f = .error (f error) := rfl

theorem mapError_eq_ok_iff {x : Except ε α} {f : ε → ε'} {a : α} :
    x.mapError f = .ok a ↔ x = .ok a := by
  cases x with
  | error error => simp
  | ok value => simp

theorem toOption_eq_some_iff {x : Except ε α} {a : α} : x.toOption = some a ↔ x = .ok a := by
  cases x with
  | error error => simp [Except.toOption]
  | ok value => simp [Except.toOption]

/-- The result, if there is one, satisfies `P`, and the error, if there is one, `Q`. -/
inductive Settles (P : α → Prop) (Q : ε → Prop) : Except ε α → Prop
  | ok {a : α} (h : P a) : Settles P Q (.ok a)
  | error {e : ε} (h : Q e) : Settles P Q (.error e)

namespace Settles

variable {P : α → Prop} {R : β → Prop} {Q Q' : ε → Prop} {x : Except ε α}

theorem bind {f : α → Except ε β} (h : Settles P Q x) (hf : ∀ a, P a → Settles R Q (f a)) :
    Settles R Q (x >>= f) := by
  cases h with
  | ok h => exact hf _ h
  | error h => exact .error h

theorem weaken (h : Settles P Q x) (herror : ∀ e, Q e → Q' e) : Settles P Q' x := by
  cases h with
  | ok h => exact .ok h
  | error h => exact .error (herror _ h)

theorem of_ok {a : α} (h : Settles P Q (.ok a : Except ε α)) : P a := by
  cases h with
  | ok h => exact h

theorem of_error {e : ε} (h : Settles P Q (.error e : Except ε α)) : Q e := by
  cases h with
  | error h => exact h

end Settles

/-- The two computations have results that `P` relates, or errors that `Q` relates. -/
inductive Parallel {α' : Type} (P : α → α' → Prop) (Q : ε → ε' → Prop) :
    Except ε α → Except ε' α' → Prop
  | ok {a : α} {a' : α'} (h : P a a') : Parallel P Q (.ok a) (.ok a')
  | error {e : ε} {e' : ε'} (h : Q e e') : Parallel P Q (.error e) (.error e')

namespace Parallel

variable {α' β' δ δ' : Type} {P : α → α' → Prop} {S : β → β' → Prop} {Q : ε → ε' → Prop}
  {x : Except ε α} {x' : Except ε' α'}

theorem bind {f : α → Except ε β} {f' : α' → Except ε' β'} (h : Parallel P Q x x')
    (hf : ∀ a a', P a a' → Parallel S Q (f a) (f' a')) : Parallel S Q (x.bind f) (x'.bind f') := by
  cases h with
  | ok h => exact hf _ _ h
  | error h => exact .error h

theorem mapError {T : δ → δ' → Prop} {f : ε → δ} {f' : ε' → δ'} (h : Parallel P Q x x')
    (hf : ∀ e e', Q e e' → T (f e) (f' e')) : Parallel P T (x.mapError f) (x'.mapError f') := by
  cases h with
  | ok h => exact .ok h
  | error h => exact .error (hf _ _ h)

end Parallel

end Linewise
