/-
Named entries in the order in which the names were first written.

* `Entries.set` — one name's value written: in place if the name is there, at
  the end if not;
* `Entries.ofList` — what is left of a list of writes;
* `names_set`, `lookup_set` — what one write changes.
-/
namespace Linewise.Entries

variable {α : Type}

/-- The names of the entries, in order. -/
def names (entries : List (String × α)) : List String := entries.map Prod.fst

/-- The entries with one name's value written. -/
def set (name : String) (value : α) : List (String × α) → List (String × α)
  | [] => [(name, value)]
  | (n, v) :: rest =>
    if n = name then (n, value) :: rest else (n, v) :: set name value rest

/-- The entries that a list of writes leaves, made in turn. -/
def ofList (writes : List (String × α)) : List (String × α) :=
  writes.foldl (fun entries w => set w.1 w.2 entries) []

theorem names_set (name : String) (value : α) (entries : List (String × α)) :
    names (set name value entries) =
      if name ∈ names entries then names entries else names entries ++ [name] := by
  induction entries with
  | nil => simp [set, names]
  | cons entry rest ih =>
    obtain ⟨n, v⟩ := entry
    by_cases same : n = name
    · simp [set, names, same]
    · have other : name ≠ n := fun h => same h.symm
      by_cases known : name ∈ names rest <;> simp_all [set, names]

theorem lookup_set (name other : String) (value : α) (entries : List (String × α)) :
    (set name value entries).lookup other =
      if other = name then some value else entries.lookup other := by
  have unequal {a b : String} (h : a ≠ b) : (a == b) = false := beq_eq_false_iff_ne.mpr h
  induction entries with
  | nil => by_cases h : other = name <;> simp [set, List.lookup_cons, h, unequal]
  | cons entry rest ih =>
    obtain ⟨n, v⟩ := entry
    by_cases same : n = name
    · by_cases h : other = name <;> simp [set, List.lookup_cons, same, h, unequal]
    · by_cases h : other = n
      · simp [set, same, h]
      · simp [set, List.lookup_cons, same, h, ih, unequal]

theorem nodup_names_set (name : String) (value : α) {entries : List (String × α)}
    (distinct : (names entries).Nodup) : (names (set name value entries)).Nodup := by
  rw [names_set]
  split
  case isTrue => exact distinct
  case isFalse fresh =>
    refine List.nodup_append.mpr ⟨distinct, by simp, ?_⟩
    intro known member added isAdded
    rw [List.mem_singleton.mp isAdded]
    exact fun same => fresh (same ▸ member)

end Linewise.Entries
