/-
Which configurations are accepted, and what is reported about the others.

* `Config.Valid` — the JSON values that are configurations;
* `Json.IsConfig` — the settings that such a value gives: exactly those of its members;
* `Config.Breaks` — the rules that a value breaks, each with the place where it does;
* `Issue.position` — where an issue comes in the order of the settings, with
  `Sections` for issues that are collected part by part in this order;
* `ofJson_eq_ok_iff`, `mem_issues_ofJson_iff`, `pairwise_issues_ofJson` — what is made of a
  value: its settings, or all its issues in this order;
* `ofText_reports` — the same of a text.

Design notes: that no issue is reported twice is part of their order, which is strict.  The
unknown names of an object are one issue, so they are said to be distinct apart.
-/
import Linewise.Config
import Linewise.Proofs.Json
import Linewise.Proofs.Schema

namespace Linewise

/-! ### Settings -/

/-- The names of the limits, in order. -/
def LimitChoices.names : List String := ["maxLineLength", "maxNestingDepth"]

/-- The names of the settings, in order. -/
def Config.names : List String :=
  ["echoComments", "expressionFallback", "verbose", "executionLimits"]

/-- The names of the settings that are true or false. -/
def Config.flagNames : List String := ["echoComments", "expressionFallback", "verbose"]

/-- An object whose names are those of limits and whose values are positive whole numbers. -/
structure LimitChoices.Valid (j : Json) : Prop where
  isObject : j.IsObject
  names_mem : ∀ name ∈ j.names, name ∈ LimitChoices.names
  counts : ∀ name ∈ LimitChoices.names, ∀ value, j.get? name = some value →
    ∃ n, value.IsCount n

/-- An object whose names are those of settings, with truth values for all of them but the
limits, which are an object again. -/
structure Config.Valid (j : Json) : Prop where
  isObject : j.IsObject
  names_mem : ∀ name ∈ j.names, name ∈ Config.names
  flags : ∀ name ∈ Config.flagNames, ∀ value, j.get? name = some value → ∃ b, value.IsFlag b
  limits : ∀ value, j.get? "executionLimits" = some value → LimitChoices.Valid value

/-- The limits that a value gives: those that it has, and no others. -/
structure Json.IsLimits (j : Json) (l : LimitChoices) : Prop where
  isObject : j.IsObject
  names_mem : ∀ name ∈ j.names, name ∈ LimitChoices.names
  maxLineLength : Option.Rel IsCount (j.get? "maxLineLength") l.maxLineLength
  maxNestingDepth : Option.Rel IsCount (j.get? "maxNestingDepth") l.maxNestingDepth

/-- The settings that a value gives: those that it has, and no others. -/
structure Json.IsConfig (j : Json) (c : Config) : Prop where
  isObject : j.IsObject
  names_mem : ∀ name ∈ j.names, name ∈ Config.names
  echoComments : Option.Rel IsFlag (j.get? "echoComments") c.echoComments
  expressionFallback : Option.Rel IsFlag (j.get? "expressionFallback") c.expressionFallback
  verbose : Option.Rel IsFlag (j.get? "verbose") c.verbose
  executionLimits : Option.Rel IsLimits (j.get? "executionLimits") c.executionLimits

/-- The rules that a value breaks as a configuration, each at the place of the value that
breaks it. -/
inductive Config.Breaks (j : Json) : Issue → Prop
  | notObject (h : ¬ j.IsObject) : Breaks j ⟨[], .wrongType "object" j.typeName⟩
  | notFlag {name : String} {value : Json} (hname : name ∈ flagNames)
      (hvalue : j.get? name = some value) (h : ∀ b, value ≠ .bool b) :
      Breaks j ⟨[name], .wrongType "boolean" value.typeName⟩
  | limitsNotObject {limits : Json} (hlimits : j.get? "executionLimits" = some limits)
      (h : ¬ limits.IsObject) :
      Breaks j ⟨["executionLimits"], .wrongType "object" limits.typeName⟩
  | notNumber {limits value : Json} {name : String} (hname : name ∈ LimitChoices.names)
      (hlimits : j.get? "executionLimits" = some limits) (hvalue : limits.get? name = some value)
      (h : ∀ x, value ≠ .number x) :
      Breaks j ⟨["executionLimits", name], .wrongType "number" value.typeName⟩
  | notWhole {limits : Json} {name : String} {x : Float} (hname : name ∈ LimitChoices.names)
      (hlimits : j.get? "executionLimits" = some limits)
      (hvalue : limits.get? name = some (.number x)) (h : ∀ n, ¬ Number.IsInt x n) :
      Breaks j ⟨["executionLimits", name], .notWhole⟩
  | notPositive {limits : Json} {name : String} {x : Float} (hname : name ∈ LimitChoices.names)
      (hlimits : j.get? "executionLimits" = some limits)
      (hvalue : limits.get? name = some (.number x)) (h : ¬ 0 < x) :
      Breaks j ⟨["executionLimits", name], .notPositive⟩
  | unknownLimits {limits : Json} (hlimits : j.get? "executionLimits" = some limits)
      (h : limits.unknown LimitChoices.names ≠ []) :
      Breaks j ⟨["executionLimits"], .unknownNames (limits.unknown LimitChoices.names)⟩
  | unknownSettings (h : j.unknown Config.names ≠ []) :
      Breaks j ⟨[], .unknownNames (j.unknown Config.names)⟩

/-! ### The order of issues -/

/-- The positions of the names along a path, each among those of its object. -/
def Issue.place : List String → List Nat
  | [] => []
  | [name] => [Config.names.idxOf name]
  | name :: inner :: _ => [Config.names.idxOf name, LimitChoices.names.idxOf inner]

/-- The place of a rule among those for one value; the unknown names of an object come after
all known ones. -/
def Violation.rank : Violation → Nat
  | wrongType _ _ => 0
  | notWhole => 0
  | notPositive => 1
  | unknownNames _ => Config.names.length

/-- Where an issue comes in the order of the settings. -/
def Issue.position (i : Issue) : List Nat := place i.path ++ [i.violation.rank]

/-- Issues in order, each at a place below `path`. -/
structure InOrder (path : List Nat) (issues : List Issue) : Prop where
  below : ∀ i ∈ issues, path <+: i.position
  pairwise : issues.Pairwise (·.position < ·.position)

/-- Issues in order, each at one of the first `k` places below `path`. -/
structure Sections (path : List Nat) (k : Nat) (issues : List Issue) : Prop where
  below : ∀ i ∈ issues, ∃ m < k, path ++ [m] <+: i.position
  pairwise : issues.Pairwise (·.position < ·.position)

theorem lt_of_prefixes {path a b : List Nat} {m k : Nat} (hmk : m < k)
    (ha : path ++ [m] <+: a) (hb : path ++ [k] <+: b) : a < b := by
  obtain ⟨s, rfl⟩ := ha
  obtain ⟨t, rfl⟩ := hb
  induction path with
  | nil => exact List.cons_lt_cons_iff.mpr (Or.inl hmk)
  | cons p path ih => exact List.cons_lt_cons_iff.mpr (Or.inr ⟨rfl, ih⟩)

theorem inOrder_nil (path : List Nat) : InOrder path [] := ⟨by simp, List.Pairwise.nil⟩

theorem inOrder_singleton {path : List Nat} {i : Issue} (h : path <+: i.position) :
    InOrder path [i] := ⟨by simpa using h, List.pairwise_singleton _ _⟩

theorem inOrder_issue (path : List String) (v : Violation) :
    InOrder (Issue.place path) [⟨path, v⟩] :=
  inOrder_singleton (List.prefix_append _ _)

theorem InOrder.sections {path : List Nat} {k : Nat} {issues : List Issue}
    (h : InOrder (path ++ [k]) issues) : Sections path (k + 1) issues :=
  ⟨fun i hi => ⟨k, Nat.lt_succ_self k, h.below i hi⟩, h.pairwise⟩

theorem Sections.append {path : List Nat} {k m : Nat} {first second : List Issue}
    (h : Sections path k first) (hkm : k ≤ m) (hsecond : InOrder (path ++ [m]) second) :
    Sections path (m + 1) (first ++ second) := by
  refine ⟨fun i hi => ?_, List.pairwise_append.mpr ⟨h.pairwise, hsecond.pairwise, ?_⟩⟩
  · rcases List.mem_append.mp hi with hi | hi
    · obtain ⟨l, hl, hbelow⟩ := h.below i hi
      exact ⟨l, by omega, hbelow⟩
    · exact ⟨m, Nat.lt_succ_self m, hsecond.below i hi⟩
  · intro i hi i' hi'
    obtain ⟨l, hl, hbelow⟩ := h.below i hi
    exact lt_of_prefixes (by omega) hbelow (hsecond.below i' hi')

theorem Sections.inOrder {path : List Nat} {k : Nat} {issues : List Issue}
    (h : Sections path k issues) : InOrder path issues := by
  refine ⟨fun i hi => ?_, h.pairwise⟩
  obtain ⟨m, -, hbelow⟩ := h.below i hi
  exact (List.prefix_append path [m]).trans hbelow

open Checked

namespace Checked

variable {α : Type} {path : List String} {members : List (String × Json)} {name : String}
  {check : List String → Json → Checked α}

theorem inOrder_member? {place : List Nat}
    (h : ∀ value, InOrder place (issues (check (path ++ [name]) value))) :
    InOrder place (issues (member? members path name check)) := by
  rw [member?]
  cases members.lookup name with
  | none => exact inOrder_nil place
  | some value =>
    rw [issues_map]
    exact h value

theorem inOrder_onlyNames (members : List (String × Json)) (path known : List String) :
    InOrder (Issue.place path ++ [Config.names.length])
      (issues (onlyNames members path known)) := by
  rw [onlyNames_eq]
  split
  · exact inOrder_nil _
  · exact inOrder_singleton List.prefix_rfl

theorem inOrder_flag (path : List String) (j : Json) :
    InOrder (Issue.place path) (issues (flag path j)) := by
  cases j with
  | bool b => exact inOrder_nil _
  | _ => exact inOrder_issue path _

/-- A number can break two rules, and then that of whole numbers comes first. -/
theorem inOrder_count (path : List String) (j : Json) :
    InOrder (Issue.place path) (issues (count path j)) := by
  have hboth : InOrder (Issue.place path) [⟨path, .notWhole⟩, ⟨path, .notPositive⟩] := by
    refine ⟨?_, List.pairwise_pair.mpr ?_⟩
    · rintro i hi
      have hpath : i.path = path := by
        rcases List.mem_cons.mp hi with rfl | hi
        · rfl
        · rw [List.mem_singleton.mp hi]
      rw [Issue.position, hpath]
      exact List.prefix_append _ _
    · exact lt_of_prefixes Nat.zero_lt_one List.prefix_rfl List.prefix_rfl
  cases j with
  | number x =>
    rw [count]
    cases Number.whole? x with
    | none =>
      by_cases hx : 0 < x
      · simpa [hx, issues] using inOrder_issue path .notWhole
      · simpa [hx, issues] using hboth
    | some n =>
      by_cases hx : 0 < x
      · simpa [hx, issues, ofIssues, Except.map] using inOrder_nil _
      · simpa [hx, issues, ofIssues, Except.map] using inOrder_issue path .notPositive
  | _ => exact inOrder_issue path _

end Checked

/-! ### Limits -/

namespace LimitChoices

variable {path : List String} {j : Json} {i : Issue}

theorem ofJson_eq_ok_iff {l : LimitChoices} : ofJson path j = .ok l ↔ j.IsLimits l := by
  cases j with
  | object members =>
    have hcount : ∀ name value n, count (path ++ [name]) value = .ok n ↔ value.IsCount n :=
      fun _ _ _ => count_eq_ok_iff
    simp only [ofJson, map_eq_ok_iff, Prod.exists, both_eq_ok_iff,
      member?_eq_ok_iff (hcount _), onlyNames_eq_ok_iff]
    constructor
    · rintro ⟨length, depth, _, ⟨⟨hlength, hdepth⟩, hnames⟩, rfl⟩
      exact ⟨⟨members, rfl⟩, hnames, hlength, hdepth⟩
    · rintro ⟨-, hnames, hlength, hdepth⟩
      exact ⟨_, _, (), ⟨⟨hlength, hdepth⟩, hnames⟩, rfl⟩
  | _ =>
    constructor
    · intro h
      exact absurd h (by simp [ofJson])
    · rintro ⟨⟨members, hmembers⟩, -⟩
      exact absurd hmembers (by simp)

/-- The issues of an object of limits, by their checks. -/
theorem mem_issues_ofJson_iff : i ∈ issues (ofJson path j) ↔
    (¬ j.IsObject ∧ i = ⟨path, .wrongType "object" j.typeName⟩) ∨
      (∃ name ∈ LimitChoices.names, ∃ value, j.get? name = some value ∧
        i ∈ issues (count (path ++ [name]) value)) ∨
      (j.unknown LimitChoices.names ≠ [] ∧
        i = ⟨path, .unknownNames (j.unknown LimitChoices.names)⟩) := by
  cases j with
  | object members =>
    have hobject : (Json.object members).IsObject := ⟨members, rfl⟩
    simp only [ofJson, issues_map, issues_both, List.mem_append, mem_issues_member?_iff,
      hobject, not_true_eq_false, false_and, false_or, LimitChoices.names, List.exists_mem_cons_iff,
      List.not_mem_nil, exists_false, or_false]
    exact or_congr Iff.rfl mem_issues_onlyNames_iff
  | _ => simp [ofJson, issues, Json.IsObject, Json.get?, Json.unknown, Json.names]

theorem inOrder_ofJson (j : Json) :
    InOrder [3] (issues (ofJson ["executionLimits"] j)) := by
  cases j with
  | object members =>
    have hcount : ∀ name, InOrder (Issue.place ["executionLimits", name])
        (issues (member? members ["executionLimits"] name count)) :=
      fun name => inOrder_member? fun value => inOrder_count _ value
    have hlength : InOrder ([3] ++ [0]) _ := hcount "maxLineLength"
    have hdepth : InOrder ([3] ++ [1]) _ := hcount "maxNestingDepth"
    have hothers : InOrder ([3] ++ [4]) (issues (onlyNames members ["executionLimits"]
      LimitChoices.names)) := inOrder_onlyNames members ["executionLimits"] _
    have hsections := (hlength.sections.append (Nat.le_refl 1) hdepth).append
      (Nat.le_of_ble_eq_true rfl) hothers
    simpa [ofJson, LimitChoices.names] using hsections.inOrder
  | _ => exact inOrder_singleton (List.prefix_append [3] [0])

end LimitChoices

/-! ### Configurations -/

section Configurations

variable {j : Json}

theorem Config.ofJson_eq_ok_iff {c : Config} : Config.ofJson j = .ok c ↔ j.IsConfig c := by
  cases j with
  | object members =>
    have hflag : ∀ name value b, flag ([] ++ [name]) value = .ok b ↔ value.IsFlag b :=
      fun _ _ _ => flag_eq_ok_iff
    have hlimits : ∀ name value l,
        LimitChoices.ofJson ([] ++ [name]) value = .ok l ↔ value.IsLimits l := fun _ _ _ =>
      LimitChoices.ofJson_eq_ok_iff
    simp only [ofJson, map_eq_ok_iff, Prod.exists, both_eq_ok_iff, member?_eq_ok_iff (hflag _),
      member?_eq_ok_iff (hlimits _), onlyNames_eq_ok_iff]
    constructor
    · rintro ⟨echo, fallback, verbose, limits, _,
        ⟨⟨⟨⟨hecho, hfallback⟩, hverbose⟩, hlimits⟩, hnames⟩, rfl⟩
      exact ⟨⟨members, rfl⟩, hnames, hecho, hfallback, hverbose, hlimits⟩
    · rintro ⟨-, hnames, hecho, hfallback, hverbose, hlimits⟩
      exact ⟨_, _, _, _, (), ⟨⟨⟨⟨hecho, hfallback⟩, hverbose⟩, hlimits⟩, hnames⟩, rfl⟩
  | _ =>
    constructor
    · intro h
      exact absurd h (by simp [ofJson])
    · rintro ⟨⟨members, hmembers⟩, -⟩
      exact absurd hmembers (by simp)

/-- The issues of a configuration, by its checks. -/
theorem Config.mem_issues_ofJson_iff {i : Issue} : i ∈ issues (Config.ofJson j) ↔
    (¬ j.IsObject ∧ i = ⟨[], .wrongType "object" j.typeName⟩) ∨
      (∃ name ∈ flagNames, ∃ value, j.get? name = some value ∧ i ∈ issues (flag [name] value)) ∨
      (∃ value, j.get? "executionLimits" = some value ∧
        i ∈ issues (LimitChoices.ofJson ["executionLimits"] value)) ∨
      (j.unknown names ≠ [] ∧ i = ⟨[], .unknownNames (j.unknown names)⟩) := by
  cases j with
  | object members =>
    have hobject : (Json.object members).IsObject := ⟨members, rfl⟩
    simp only [ofJson, issues_map, issues_both, List.mem_append, mem_issues_member?_iff,
      hobject, not_true_eq_false, false_and, false_or, flagNames, List.exists_mem_cons_iff,
      List.not_mem_nil, exists_false, or_false, or_assoc, List.nil_append]
    exact or_congr Iff.rfl (or_congr Iff.rfl (or_congr Iff.rfl
      (or_congr Iff.rfl mem_issues_onlyNames_iff)))
  | _ => simp [ofJson, issues, Json.IsObject, Json.get?, Json.unknown, Json.names]

theorem Config.breaks_of_mem_issues {i : Issue} (h : i ∈ issues (Config.ofJson j)) :
    Config.Breaks j i := by
  rcases mem_issues_ofJson_iff.mp h with ⟨hobject, rfl⟩ | ⟨name, hname, value, hvalue, hi⟩ |
    ⟨value, hvalue, hi⟩ | ⟨hunknown, rfl⟩
  · exact .notObject hobject
  · obtain ⟨hflag, rfl⟩ := mem_issues_flag_iff.mp hi
    exact .notFlag hname hvalue hflag
  · rcases LimitChoices.mem_issues_ofJson_iff.mp hi with ⟨hobject, rfl⟩ |
      ⟨name, hname, inner, hinner, hi⟩ | ⟨hunknown, rfl⟩
    · exact .limitsNotObject hvalue hobject
    · rcases mem_issues_count_iff.mp hi with ⟨hnumber, rfl⟩ |
        ⟨x, rfl, ⟨hwhole, rfl⟩ | ⟨hpositive, rfl⟩⟩
      · exact .notNumber hname hvalue hinner hnumber
      · exact .notWhole hname hvalue hinner hwhole
      · exact .notPositive hname hvalue hinner hpositive
    · exact .unknownLimits hvalue hunknown
  · exact .unknownSettings hunknown

theorem Config.mem_issues_of_breaks {i : Issue} (h : Config.Breaks j i) :
    i ∈ issues (Config.ofJson j) := by
  have hlimits : ∀ {value : Json}, j.get? "executionLimits" = some value →
      i ∈ issues (LimitChoices.ofJson ["executionLimits"] value) → i ∈ issues (Config.ofJson j) :=
    fun hvalue hi => mem_issues_ofJson_iff.mpr (Or.inr (Or.inr (Or.inl ⟨_, hvalue, hi⟩)))
  have hcount : ∀ {value inner : Json} {name : String}, name ∈ LimitChoices.names →
      j.get? "executionLimits" = some value → value.get? name = some inner →
      i ∈ issues (count ["executionLimits", name] inner) → i ∈ issues (Config.ofJson j) :=
    fun hname hvalue hinner hi => hlimits hvalue
      (LimitChoices.mem_issues_ofJson_iff.mpr (Or.inr (Or.inl ⟨_, hname, _, hinner, hi⟩)))
  cases h with
  | notObject hobject => exact mem_issues_ofJson_iff.mpr (Or.inl ⟨hobject, rfl⟩)
  | notFlag hname hvalue hflag =>
    exact mem_issues_ofJson_iff.mpr
      (Or.inr (Or.inl ⟨_, hname, _, hvalue, mem_issues_flag_iff.mpr ⟨hflag, rfl⟩⟩))
  | limitsNotObject hvalue hobject =>
    exact hlimits hvalue (LimitChoices.mem_issues_ofJson_iff.mpr (Or.inl ⟨hobject, rfl⟩))
  | notNumber hname hvalue hinner hnumber =>
    exact hcount hname hvalue hinner (mem_issues_count_iff.mpr (Or.inl ⟨hnumber, rfl⟩))
  | notWhole hname hvalue hinner hwhole =>
    exact hcount hname hvalue hinner
      (mem_issues_count_iff.mpr (Or.inr ⟨_, rfl, Or.inl ⟨hwhole, rfl⟩⟩))
  | notPositive hname hvalue hinner hpositive =>
    exact hcount hname hvalue hinner
      (mem_issues_count_iff.mpr (Or.inr ⟨_, rfl, Or.inr ⟨hpositive, rfl⟩⟩))
  | unknownLimits hvalue hunknown =>
    exact hlimits hvalue (LimitChoices.mem_issues_ofJson_iff.mpr (Or.inr (Or.inr ⟨hunknown, rfl⟩)))
  | unknownSettings hunknown =>
    exact mem_issues_ofJson_iff.mpr (Or.inr (Or.inr (Or.inr ⟨hunknown, rfl⟩)))

theorem Config.pairwise_issues_ofJson (j : Json) :
    (issues (Config.ofJson j)).Pairwise (·.position < ·.position) := by
  cases j with
  | object members =>
    have hflag : ∀ name, InOrder (Issue.place [name]) (issues (member? members [] name flag)) :=
      fun name => inOrder_member? fun value => inOrder_flag _ value
    have hecho : InOrder ([] ++ [0]) _ := hflag "echoComments"
    have hfallback : InOrder ([] ++ [1]) _ := hflag "expressionFallback"
    have hverbose : InOrder ([] ++ [2]) _ := hflag "verbose"
    have hlimits : InOrder ([] ++ [3])
        (issues (member? members [] "executionLimits" LimitChoices.ofJson)) :=
      inOrder_member? fun value => LimitChoices.inOrder_ofJson value
    have hothers : InOrder ([] ++ [4]) (issues (onlyNames members [] names)) :=
      inOrder_onlyNames members [] names
    have hsections := (((hecho.sections.append (Nat.le_refl 1) hfallback).append
      (Nat.le_refl 2) hverbose).append (Nat.le_refl 3) hlimits).append (Nat.le_refl 4) hothers
    simpa [ofJson, names] using hsections.pairwise
  | _ => exact List.pairwise_singleton _ _

/-! ### Validity -/

theorem exists_rel_iff {α β : Type} {P : α → β → Prop} {o : Option α} :
    (∃ p, Option.Rel P o p) ↔ ∀ a, o = some a → ∃ b, P a b := by
  cases o with
  | none => exact ⟨fun _ a ha => absurd ha (by simp), fun _ => ⟨none, .none⟩⟩
  | some a =>
    constructor
    · rintro ⟨_, ⟨hab⟩⟩ a' ha'
      obtain rfl := Option.some.inj ha'
      exact ⟨_, hab⟩
    · intro h
      obtain ⟨b, hab⟩ := h a rfl
      exact ⟨some b, .some hab⟩

theorem LimitChoices.exists_isLimits_iff : (∃ l, j.IsLimits l) ↔ LimitChoices.Valid j := by
  constructor
  · rintro ⟨l, hobject, hnames, hlength, hdepth⟩
    refine ⟨hobject, hnames, ?_⟩
    simp only [LimitChoices.names, List.forall_mem_cons]
    exact ⟨exists_rel_iff.mp ⟨_, hlength⟩, exists_rel_iff.mp ⟨_, hdepth⟩, by simp⟩
  · rintro ⟨hobject, hnames, hcounts⟩
    simp only [LimitChoices.names, List.forall_mem_cons] at hcounts
    obtain ⟨hlength, hdepth, -⟩ := hcounts
    obtain ⟨length, hlength⟩ := exists_rel_iff.mpr hlength
    obtain ⟨depth, hdepth⟩ := exists_rel_iff.mpr hdepth
    exact ⟨⟨length, depth⟩, hobject, hnames, hlength, hdepth⟩

theorem Config.exists_isConfig_iff : (∃ c, j.IsConfig c) ↔ Config.Valid j := by
  constructor
  · rintro ⟨c, hobject, hnames, hecho, hfallback, hverbose, hlimits⟩
    refine ⟨hobject, hnames, ?_, fun value hvalue => ?_⟩
    · simp only [flagNames, List.forall_mem_cons]
      exact ⟨exists_rel_iff.mp ⟨_, hecho⟩, exists_rel_iff.mp ⟨_, hfallback⟩,
        exists_rel_iff.mp ⟨_, hverbose⟩, by simp⟩
    · exact LimitChoices.exists_isLimits_iff.mp (exists_rel_iff.mp ⟨_, hlimits⟩ value hvalue)
  · rintro ⟨hobject, hnames, hflags, hlimits⟩
    simp only [flagNames, List.forall_mem_cons] at hflags
    obtain ⟨hecho, hfallback, hverbose, -⟩ := hflags
    obtain ⟨echo, hecho⟩ := exists_rel_iff.mpr hecho
    obtain ⟨fallback, hfallback⟩ := exists_rel_iff.mpr hfallback
    obtain ⟨verbose, hverbose⟩ := exists_rel_iff.mpr hverbose
    obtain ⟨limits, hlimits⟩ := exists_rel_iff.mpr fun value hvalue =>
      LimitChoices.exists_isLimits_iff.mpr (hlimits value hvalue)
    exact ⟨⟨echo, fallback, verbose, limits⟩, hobject, hnames, hecho, hfallback, hverbose, hlimits⟩

/-- The limits in force are positive where all given ones are. -/
theorem Json.IsConfig.limits_pos {c : Config} (h : j.IsConfig c) :
    0 < (Limits.ofChoices c.executionLimits).maxLineLength ∧
      0 < (Limits.ofChoices c.executionLimits).maxNestingDepth := by
  have hcount : ∀ {o : Option Json} {n : Option Int} {standard : Int}, 0 < standard →
      Option.Rel Json.IsCount o n → 0 < n.getD standard := by
    rintro o n standard hstandard (⟨hn⟩ | _)
    · exact hn.1
    · exact hstandard
  have hlimits : ∀ {o : Option Json} {l : Option LimitChoices}, Option.Rel Json.IsLimits o l →
      0 < (Limits.ofChoices l).maxLineLength ∧ 0 < (Limits.ofChoices l).maxNestingDepth := by
    rintro o l (⟨hl⟩ | _)
    · exact ⟨hcount (by decide) hl.maxLineLength, hcount (by decide) hl.maxNestingDepth⟩
    · decide
  exact hlimits h.executionLimits

theorem Json.Distinct.of_get? (h : j.Distinct) {name : String} {value : Json}
    (hvalue : j.get? name = some value) : value.Distinct := by
  cases j with
  | object members => exact h.lookup hvalue
  | _ => exact absurd hvalue (by simp [Json.get?])

theorem Config.nodup_unknown (h : j.Distinct) (known : List String) : (j.unknown known).Nodup := by
  cases h with
  | object hnames _ => exact hnames.filter _
  | _ => exact List.nodup_nil

/-- The unknown names that an issue lists are distinct, as those of the object are. -/
theorem Config.nodup_of_breaks (h : j.Distinct) {i : Issue} (hi : Config.Breaks j i)
    {names : List String} (hnames : i.violation = .unknownNames names) : names.Nodup := by
  cases hi with
  | unknownLimits hlimits _ =>
    obtain rfl := Violation.unknownNames.inj hnames
    exact nodup_unknown (h.of_get? hlimits) _
  | unknownSettings _ =>
    obtain rfl := Violation.unknownNames.inj hnames
    exact nodup_unknown h _
  | _ => exact absurd hnames (by simp)

end Configurations

/-! ### Texts -/

/-- The text of a JSON value gives settings exactly if the value is a valid configuration: those
that the value has and no others, so that the limits in force are positive.  Else the message
lists every broken rule at its place, each once and in the order of the settings. -/
theorem Config.ofText_reports {text : String} {j : Json} (h : Json.ofString text = .ok j) :
    ((∃ c, Config.ofText text = .ok c) ↔ Config.Valid j) ∧
      (∀ c, Config.ofText text = .ok c → j.IsConfig c ∧
        0 < (Limits.ofChoices c.executionLimits).maxLineLength ∧
        0 < (Limits.ofChoices c.executionLimits).maxNestingDepth) ∧
      (∀ e, Config.ofText text = .error e → ∃ issues : List Issue,
        (∀ source, e.message source =
          source ++ ": invalid config\n  " ++ "\n  ".intercalate (issues.map Issue.text)) ∧
        (∀ i, i ∈ issues ↔ Config.Breaks j i) ∧
        issues.Pairwise (·.position < ·.position) ∧
        ∀ i ∈ issues, ∀ names, i.violation = .unknownNames names → names.Nodup) := by
  have hread : Config.ofText text = (Config.ofJson j).mapError .invalid := by
    rw [Config.ofText, h]
  have hok : ∀ c, Config.ofText text = .ok c ↔ j.IsConfig c := fun c => by
    rw [hread, mapError_eq_ok_iff, ofJson_eq_ok_iff]
  refine ⟨?_, fun c hc => ?_, fun e he => ?_⟩
  · simp only [hok]
    exact exists_isConfig_iff
  · have hconfig := (hok c).mp hc
    exact ⟨hconfig, hconfig.limits_pos⟩
  · have hbreaks : ∀ i, i ∈ issues (Config.ofJson j) ↔ Config.Breaks j i :=
      fun i => ⟨breaks_of_mem_issues, mem_issues_of_breaks⟩
    refine ⟨issues (Config.ofJson j), fun source => ?_, hbreaks, pairwise_issues_ofJson j,
      fun i hi names hnames =>
        nodup_of_breaks (Json.distinct_ofString h) ((hbreaks i).mp hi) hnames⟩
    rw [hread] at he
    cases hj : Config.ofJson j with
    | ok c => exact absurd he (by simp [hj])
    | error is =>
      obtain rfl : .invalid is = e := by simpa [hj] using he
      rfl

/-- A text where a word stands for a truth value, and with a limit that there is not. -/
theorem Config.ofText_reports_word :
    let text := "\x7b\"echoComments\":\"no\",\"executionLimits\":\x7b\"depth\":null\x7d\x7d"
    let j : Json := .object [("echoComments", .string "no"),
      ("executionLimits", .object [("depth", .null)])]
    Json.ofString text = .ok j ∧ ¬ ∃ c, Config.ofText text = .ok c := by
  intro text j
  have htokens : JsonToken.ofChars text.toList = .ok
      [.beginObject, .string "echoComments", .colon, .string "no", .comma,
        .string "executionLimits", .colon, .beginObject, .string "depth", .colon, .null,
        .endObject, .endObject] := by
    decide +kernel
  have hread : Json.ofString text = .ok j := by
    rw [Json.ofString, htokens, ok_bind]
    simp [j, JsonReading.step, JsonReading.start, JsonReading.beginValue, JsonReading.beginMember,
      JsonReading.complete, JsonReading.close, JsonReading.afterComma, JsonReading.finish, ok_bind,
      Json.ofMembers, Json.canonicalMembers, Entries.ofList, Entries.set, Json.index?]
  refine ⟨hread, fun hc => ?_⟩
  have hvalid := (ofText_reports hread).1.mp hc
  obtain ⟨b, hb⟩ := hvalid.flags "echoComments" (by decide) (.string "no") rfl
  exact absurd hb (by simp [Json.IsFlag])

end Linewise
