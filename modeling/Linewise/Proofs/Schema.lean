/-
What the checks of JSON values accept, and what they report.

* `Json.get?`, `Json.unknown` — the members of an object by their names;
* `Checked.issues` — the issues that a check has found, with `issues_both` for two checks;
* `flag_eq_ok_iff`, `count_eq_ok_iff`, `member?_eq_ok_iff`, `onlyNames_eq_ok_iff` — what
  each check accepts;
* `mem_issues_flag_iff`, `mem_issues_count_iff`, `mem_issues_member?_iff`,
  `mem_issues_onlyNames_iff` — what it reports about all else.

Design notes: a check that fails gives a list of issues, and two checks put theirs one behind
the other whether or not the first one fails.  So what is reported is said of each check on
its own, and of `Checked.both` once.
-/
import Linewise.Proofs.Number.Whole
import Linewise.Proofs.Results
import Linewise.Schema

namespace Linewise

/-! ### Values -/

namespace Json

/-- The value is an object. -/
def IsObject (j : Json) : Prop := ∃ members, j = .object members

/-- The names of the members of an object. -/
def names : Json → List String
  | object members => members.map Prod.fst
  | _ => []

/-- The member of a name, if there is one. -/
def get? : Json → String → Option Json
  | object members, name => members.lookup name
  | _, _ => none

/-- The names that are not among the known ones, in the order of the object. -/
def unknown (known : List String) (j : Json) : List String := j.names.filter (!known.contains ·)

/-- The value is a truth value. -/
def IsFlag (j : Json) (b : Bool) : Prop := j = .bool b

/-- The value is a positive whole number. -/
def IsCount (j : Json) (n : Int) : Prop := 0 < n ∧ ∃ x, j = .number x ∧ Number.IsInt x n

end Json

/-! ### Checks -/

namespace Checked

/-- The issues that a check has found. -/
def issues {α : Type} : Checked α → List Issue
  | .ok _ => []
  | .error is => is

variable {α β : Type} {path : List String} {j : Json} {i : Issue}

theorem both_eq_ok_iff {a : Checked α} {b : Checked β} {p : α × β} :
    a.both b = .ok p ↔ a = .ok p.1 ∧ b = .ok p.2 := by
  cases a <;> cases b <;> simp [both, Prod.ext_iff]

@[simp] theorem issues_both (a : Checked α) (b : Checked β) :
    issues (a.both b) = issues a ++ issues b := by
  cases a <;> cases b <;> simp [both, issues]

@[simp] theorem issues_map (a : Checked α) (f : α → β) : issues (Except.map f a) = issues a := by
  cases a <;> rfl

theorem map_eq_ok_iff {a : Checked α} {f : α → β} {y : β} :
    Except.map f a = .ok y ↔ ∃ x, a = .ok x ∧ f x = y := by
  cases a <;> simp [Except.map]

/-! #### Single values -/

theorem flag_eq_ok_iff {b : Bool} : flag path j = .ok b ↔ j.IsFlag b := by
  cases j <;> simp [flag, Json.IsFlag]

theorem mem_issues_flag_iff : i ∈ issues (flag path j) ↔
    (∀ b, j ≠ .bool b) ∧ i = ⟨path, .wrongType "boolean" j.typeName⟩ := by
  cases j <;> simp [flag, issues]

theorem count_eq_ok_iff {n : Int} : count path j = .ok n ↔ j.IsCount n := by
  cases j with
  | number x =>
    have hcount : (Json.number x).IsCount n ↔ 0 < x ∧ Number.whole? x = some n := by
      rw [Number.whole?_eq_some_iff, Json.IsCount]
      constructor
      · rintro ⟨hpos, y, hy, hint⟩
        obtain rfl := Json.number.inj hy
        exact ⟨hint.zero_lt_iff.mpr hpos, hint⟩
      · rintro ⟨hpos, hint⟩
        exact ⟨hint.zero_lt_iff.mp hpos, x, rfl, hint⟩
    rw [hcount, count]
    cases Number.whole? x with
    | none => simp
    | some m => by_cases hx : 0 < x <;> simp [hx, ofIssues, Except.map]
  | _ => simp [count, Json.IsCount]

theorem mem_issues_count_iff : i ∈ issues (count path j) ↔
    ((∀ x, j ≠ .number x) ∧ i = ⟨path, .wrongType "number" j.typeName⟩) ∨
      ∃ x, j = .number x ∧ (((∀ n, ¬ Number.IsInt x n) ∧ i = ⟨path, .notWhole⟩) ∨
        (¬ 0 < x ∧ i = ⟨path, .notPositive⟩)) := by
  cases j with
  | number x =>
    have hwhole : (∀ n, ¬ Number.IsInt x n) ↔ Number.whole? x = none := by
      simp only [Option.eq_none_iff_forall_ne_some, ne_eq, Number.whole?_eq_some_iff]
    simp only [ne_eq, Json.number.injEq, exists_eq_left', hwhole, forall_eq', false_and, false_or,
      count]
    cases Number.whole? x with
    | none => by_cases hx : 0 < x <;> simp [hx, issues]
    | some m => by_cases hx : 0 < x <;> simp [hx, issues, ofIssues, Except.map]
  | _ => simp [count, issues]

/-! #### Members -/

variable {members : List (String × Json)} {name : String}
  {check : List String → Json → Checked α}

/-- A setting is read exactly if the object has it, and then as its value. -/
theorem member?_eq_ok_iff {P : Json → α → Prop}
    (h : ∀ value a, check (path ++ [name]) value = .ok a ↔ P value a) {o : Option α} :
    member? members path name check = .ok o ↔ Option.Rel P (members.lookup name) o := by
  rw [member?]
  cases hvalue : members.lookup name with
  | none =>
    constructor
    · intro ho
      obtain rfl := Except.ok.inj ho
      exact .none
    · rintro ⟨⟩
      rfl
  | some value =>
    simp only [map_eq_ok_iff, h]
    constructor
    · rintro ⟨a, ha, rfl⟩
      exact .some ha
    · rintro ⟨ha⟩
      exact ⟨_, ha, rfl⟩

theorem mem_issues_member?_iff : i ∈ issues (member? members path name check) ↔
    ∃ value, members.lookup name = some value ∧ i ∈ issues (check (path ++ [name]) value) := by
  rw [member?]
  cases members.lookup name with
  | none => simp [issues]
  | some value => simp

theorem unknown_eq_nil_iff {known : List String} :
    j.unknown known = [] ↔ ∀ n ∈ j.names, n ∈ known := by
  simp only [Json.unknown, List.filter_eq_nil_iff, Bool.not_eq_true', Bool.not_eq_false,
    List.contains_iff_mem]

theorem onlyNames_eq {known : List String} : onlyNames members path known =
    if (Json.object members).unknown known = [] then .ok ()
    else .error [⟨path, .unknownNames ((Json.object members).unknown known)⟩] := by
  have hunknown : (Json.object members).unknown known =
      (members.map Prod.fst).filter (!known.contains ·) := rfl
  rw [hunknown, onlyNames]
  cases (members.map Prod.fst).filter (!known.contains ·) with
  | nil => rfl
  | cons n ns => rfl

theorem onlyNames_eq_ok_iff {known : List String} {u : Unit} :
    onlyNames members path known = .ok u ↔ ∀ n ∈ (Json.object members).names, n ∈ known := by
  rw [onlyNames_eq, ← unknown_eq_nil_iff]
  split
  · next hnil => simp [hnil]
  · next hne => simp [hne]

theorem mem_issues_onlyNames_iff {known : List String} :
    i ∈ issues (onlyNames members path known) ↔ (Json.object members).unknown known ≠ [] ∧
      i = ⟨path, .unknownNames ((Json.object members).unknown known)⟩ := by
  rw [onlyNames_eq]
  split
  · next hnil => simp [hnil, issues]
  · next hne => simp [hne, issues]

end Checked

end Linewise
