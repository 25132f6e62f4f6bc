/-
Texts that are put together from lines.

* `splitLines_append`, `lines_append` — a text after a line feed adds its lines to those
  before it, if no carriage return stands before that line feed;
* `lines_of_not_mem` — a text without a line feed is one line;
* `lines_intercalate` — so lines that are joined by line feeds are read back;
* `notMem_of_mem_lines` — the lines of a text have no line feeds;
* `unlines_append`, `unlines_flatMap` — and lines that are written one group after the
  other are all written.
-/
import Linewise.Text.Lines
import Mathlib.Data.List.Basic

namespace Linewise.Text

/-- A character that ends no line belongs to the first one. -/
theorem splitLines_cons {c : Char} {rest : List Char} (hfeed : c ≠ '\n')
    (hreturn : c = '\r' → rest.head? ≠ some '\n') :
    splitLines (c :: rest) = (splitLines rest).modifyHead (c :: ·) := by
  rw [splitLines.eq_def]
  split
  · next h => exact absurd h (by simp)
  · next h => exact absurd (List.cons.inj h).1 hfeed
  · next h =>
    obtain ⟨rfl, rfl⟩ := List.cons.inj h
    exact absurd rfl (hreturn rfl)
  · next h =>
    obtain ⟨rfl, rfl⟩ := List.cons.inj h
    cases hlines : splitLines rest with
    | nil => exact absurd hlines (splitLines_ne_nil rest)
    | cons line more => rfl

theorem getLast?_ne_of_cons {c x : Char} {rest : List Char} (h : (c :: rest).getLast? ≠ some x) :
    rest.getLast? ≠ some x := by
  intro hlast
  rw [List.getLast?_cons, hlast] at h
  exact h rfl

/-- A text after a line feed adds its lines to those before it. -/
theorem splitLines_append {cs : List Char} (ds : List Char) (h : cs.getLast? ≠ some '\r') :
    splitLines (cs ++ '\n' :: ds) = splitLines cs ++ splitLines ds := by
  fun_induction splitLines cs with
  | case1 => rfl
  | case2 rest ih =>
    rw [List.cons_append, splitLines, ih (getLast?_ne_of_cons h), List.cons_append]
  | case3 rest ih =>
    rw [List.cons_append, List.cons_append, splitLines,
      ih (getLast?_ne_of_cons (getLast?_ne_of_cons h)), List.cons_append]
  | case4 c rest hfeed hreturn hnil ih => exact absurd hnil (splitLines_ne_nil rest)
  | case5 c rest hfeed hreturn line more hlines ih =>
    -- The added feed cannot meet a carriage return: `c` is no last one.
    have hseam : c = '\r' → (rest ++ '\n' :: ds).head? ≠ some '\n' := by
      rintro rfl
      cases rest with
      | nil => exact absurd rfl h
      | cons d rest =>
        intro hd
        obtain rfl := Option.some.inj hd
        exact hreturn rest rfl rfl
    rw [List.cons_append, splitLines_cons hfeed hseam,
      ih (getLast?_ne_of_cons h), hlines]
    rfl

theorem splitLines_of_not_mem {cs : List Char} (h : '\n' ∉ cs) : splitLines cs = [cs] := by
  induction cs with
  | nil => rfl
  | cons c rest ih =>
    obtain ⟨hc, hrest⟩ := List.ne_and_not_mem_of_not_mem_cons h
    have hhead : c = '\r' → rest.head? ≠ some '\n' :=
      fun _ hhead => hrest (List.mem_of_mem_head? hhead)
    rw [splitLines_cons hc.symm hhead, ih hrest]
    rfl

theorem notMem_of_mem_splitLines {cs : List Char} : ∀ line ∈ splitLines cs, '\n' ∉ line := by
  fun_induction splitLines cs with
  | case1 => simp
  | case2 rest ih => exact List.forall_mem_cons.mpr ⟨by simp, ih⟩
  | case3 rest ih => exact List.forall_mem_cons.mpr ⟨by simp, ih⟩
  | case4 c rest hfeed hreturn hnil ih => exact absurd hnil (splitLines_ne_nil rest)
  | case5 c rest hfeed hreturn line more hlines ih =>
    rw [hlines] at ih
    obtain ⟨hline, hmore⟩ := List.forall_mem_cons.mp ih
    refine List.forall_mem_cons.mpr ⟨?_, hmore⟩
    exact List.not_mem_cons_of_ne_of_not_mem (fun h => hfeed h.symm) hline

/-! ### Texts -/

theorem lines_append {a : String} (b : String) (h : a.toList.getLast? ≠ some '\r') :
    lines (a ++ "\n" ++ b) = lines a ++ lines b := by
  have htext : (a ++ "\n" ++ b).toList = a.toList ++ '\n' :: b.toList := by simp
  rw [lines, htext, splitLines_append b.toList h, List.map_append]
  rfl

/-- A carriage return before the line feed goes with it. -/
example : lines ("a\r" ++ "\n" ++ "b") = ["a", "b"] := by decide

theorem lines_of_not_mem {s : String} (h : '\n' ∉ s.toList) : lines s = [s] := by
  rw [lines, splitLines_of_not_mem h]
  exact congrArg (fun line => [line]) String.ofList_toList

/-- Lines that are joined by line feeds are read back. -/
theorem lines_intercalate {ls : List String} (hne : ls ≠ []) (hfeed : ∀ l ∈ ls, '\n' ∉ l.toList)
    (hreturn : ∀ l ∈ ls.dropLast, l.toList.getLast? ≠ some '\r') :
    lines ("\n".intercalate ls) = ls := by
  induction ls with
  | nil => exact absurd rfl hne
  | cons l rest ih =>
    have hl := lines_of_not_mem (hfeed l List.mem_cons_self)
    cases rest with
    | nil => exact hl
    | cons l' rest =>
      have hrest := ih (by simp) (fun x hx => hfeed x (List.mem_cons_of_mem l hx))
        (fun x hx => hreturn x (List.mem_cons_of_mem l hx))
      rw [String.intercalate_cons_cons, lines_append _ (hreturn l List.mem_cons_self), hl, hrest]
      rfl

/-- The lines of a text have no line feeds. -/
theorem notMem_of_mem_lines {s line : String} (h : line ∈ lines s) : '\n' ∉ line.toList := by
  obtain ⟨cs, hcs, rfl⟩ := List.mem_map.mp h
  rw [String.toList_ofList]
  exact notMem_of_mem_splitLines cs hcs

theorem unlines_append (xs ys : List String) : unlines (xs ++ ys) = unlines xs ++ unlines ys := by
  rw [unlines, List.map_append, String.join_append]
  rfl

theorem unlines_flatMap {α : Type} (f : α → List String) (xs : List α) :
    unlines (xs.flatMap f) = String.join (xs.map fun x => unlines (f x)) := by
  induction xs with
  | nil => rfl
  | cons x rest ih => rw [List.flatMap_cons, unlines_append, ih, List.map_cons, String.join_cons]

end Linewise.Text
