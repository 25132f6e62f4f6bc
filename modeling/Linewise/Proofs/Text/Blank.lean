/-
Blanks around a text.

* `dropBlankStart_append`, `dropBlankEnd_append` — blanks before or behind a text are cut off;
* `trim_append_append` — so are those around a text that has none.
-/
import Linewise.Text.Blank
import Mathlib.Data.List.TakeWhile

namespace Linewise.Text

variable {before cs after : List Char}

theorem dropBlankStart_append (hbefore : ∀ c ∈ before, isBlank c = true)
    (hcs : ∀ c ∈ cs.head?, isBlank c = false) : dropBlankStart (before ++ cs) = cs := by
  rw [dropBlankStart, List.dropWhile_append_of_pos hbefore]
  cases cs with
  | nil => rfl
  | cons c cs => exact List.dropWhile_cons_of_neg (by simp [hcs c rfl])

theorem dropBlankEnd_append (hafter : ∀ c ∈ after, isBlank c = true)
    (hcs : ∀ c ∈ cs.getLast?, isBlank c = false) : dropBlankEnd (cs ++ after) = cs := by
  have hblank : ∀ c ∈ after.reverse, isBlank c = true :=
    fun c hc => hafter c (List.mem_reverse.mp hc)
  have hdrop : dropBlankStart (after.reverse ++ cs.reverse) = cs.reverse :=
    dropBlankStart_append hblank (by rwa [List.head?_reverse])
  rw [dropBlankEnd, List.reverse_append, ← dropBlankStart, hdrop, List.reverse_reverse]

theorem dropBlankEnd_of_getLast? (h : ∀ c ∈ cs.getLast?, isBlank c = false) :
    dropBlankEnd cs = cs := by
  simpa using dropBlankEnd_append (List.forall_mem_nil _) h

/-- Blanks around a text that has none are cut off. -/
theorem trim_append_append {first text last : String}
    (hfirst : ∀ c ∈ first.toList, isBlank c = true) (hlast : ∀ c ∈ last.toList, isBlank c = true)
    (hne : text.toList ≠ []) (htext : ∀ c ∈ text.toList, isBlank c = false) :
    trim (first ++ text ++ last) = text := by
  have hhead : ∀ c ∈ (text.toList ++ last.toList).head?, isBlank c = false := by
    obtain ⟨d, ds, hds⟩ := List.exists_cons_of_ne_nil hne
    rw [hds]
    rintro _ ⟨⟩
    exact htext d (by simp [hds])
  have hend : ∀ c ∈ text.toList.getLast?, isBlank c = false :=
    fun c hc => htext c (List.mem_of_mem_getLast? hc)
  rw [trim, String.toList_append, String.toList_append, List.append_assoc,
    dropBlankStart_append hfirst hhead, dropBlankEnd_append hlast hend, String.ofList_toList]

end Linewise.Text
