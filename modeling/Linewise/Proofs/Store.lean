/-
What a list of writes leaves in a store.

* `names_ofList` — the names, each once, in the order of their first writes;
* `get?_ofList` — the value of a name is that of its last write;
* `mem_entries_iff` — the entries of a store and its reads agree.
-/
import Linewise.Store
import Mathlib.Data.List.Induction

namespace Linewise

namespace Entries

variable {α : Type}

theorem mem_iff_lookup_eq_some {entries : List (String × α)} (h : (names entries).Nodup)
    {name : String} {value : α} :
    (name, value) ∈ entries ↔ entries.lookup name = some value := by
  induction entries with
  | nil => simp
  | cons entry rest ih =>
    obtain ⟨n, v⟩ := entry
    obtain ⟨hn, hrest⟩ := List.nodup_cons.mp (show (n :: names rest).Nodup from h)
    by_cases hname : name = n
    · subst hname
      have hnone : (name, value) ∉ rest := fun hmem => hn (List.mem_map.mpr ⟨_, hmem, rfl⟩)
      simp [hnone, eq_comm]
    · simp [List.lookup_cons, hname, beq_eq_false_iff_ne.mpr hname, ih hrest]

end Entries

namespace Store

theorem mem_entries_iff (s : Store) {name : String} {value : Value} :
    (name, value) ∈ s.entries ↔ s.get? name = some value :=
  Entries.mem_iff_lookup_eq_some s.distinct

theorem ofList_append_singleton (writes : List (String × Value)) (name : String) (value : Value) :
    ofList (writes ++ [(name, value)]) = (ofList writes).set name value := by
  rw [ofList, List.foldl_append]
  rfl

theorem names_ofList (writes : List (String × Value)) :
    (ofList writes).names = (writes.map Prod.fst).eraseDups := by
  induction writes using List.reverseRecOn with
  | nil => rfl
  | append_singleton writes write ih =>
    obtain ⟨name, value⟩ := write
    rw [ofList_append_singleton, names_set, ih, List.map_append, List.eraseDups_append]
    by_cases hname : name ∈ writes.map Prod.fst
    · simp [hname, List.removeAll]
    · simp [hname, List.removeAll, List.eraseDups_cons]

theorem get?_ofList (writes : List (String × Value)) (name : String) :
    (ofList writes).get? name = writes.reverse.lookup name := by
  induction writes using List.reverseRecOn with
  | nil => rfl
  | append_singleton writes write ih =>
    obtain ⟨n, value⟩ := write
    rw [ofList_append_singleton, get?_set, ih, List.reverse_append, List.reverse_singleton,
      List.singleton_append, List.lookup_cons]
    by_cases hname : name = n
    · simp [hname]
    · simp [hname, beq_eq_false_iff_ne.mpr hname]

end Store

end Linewise
