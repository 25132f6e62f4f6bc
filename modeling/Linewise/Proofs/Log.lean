/-
A log is made of lines.

* `Json.newline_notMem_compact` — the text of a JSON value is one line, whatever texts it
  holds;
* `LogEntry.newline_notMem_render` — so an entry is one line if its message is;
* `OfLog`, `ofLog_of_mem_logLines` — the lines of a log start with their level.
-/
import Linewise.Log
import Linewise.Proofs.Messages
import Linewise.Proofs.Text.Quoted

namespace Linewise

theorem Text.newline_notMem_quote (s : String) : '\n' ∉ (quote s).toList := by
  rw [quote]
  refine newline_notMem_ofList ?_
  simp only [List.cons_append, List.mem_cons, List.mem_append, List.mem_flatMap,
    List.not_mem_nil, or_false]
  rintro (hopen | ⟨c, -, hc⟩ | hclose)
  · exact absurd hopen (by decide)
  · exact newline_notMem_escape c hc
  · exact absurd hclose (by decide)

namespace Json

theorem newline_notMem_member (name : String) {value : Json}
    (hvalue : '\n' ∉ value.compact.toList) :
    '\n' ∉ (Text.quote name ++ ":" ++ value.compact).toList := by
  have hcolon : '\n' ∉ ":".toList := newline_notMem_ofList (by decide)
  exact newline_notMem_append
    (newline_notMem_append (Text.newline_notMem_quote name) hcolon) hvalue

theorem newline_notMem_comma {first rest : String} (hfirst : '\n' ∉ first.toList)
    (hrest : '\n' ∉ rest.toList) : '\n' ∉ (first ++ "," ++ rest).toList := by
  have hcomma : '\n' ∉ ",".toList := newline_notMem_ofList (by decide)
  exact newline_notMem_append (newline_notMem_append hfirst hcomma) hrest

mutual

/-- The text of a value is one line: in its texts and names a line feed is escaped. -/
theorem newline_notMem_compact : (j : Json) → '\n' ∉ j.compact.toList
  | .null => newline_notMem_ofList (by decide)
  | .bool true => newline_notMem_ofList (by decide)
  | .bool false => newline_notMem_ofList (by decide)
  | .number x => by
    rw [compact]
    split
    · exact Number.newline_notMem_text x
    · exact newline_notMem_ofList (by decide)
  | .string s => Text.newline_notMem_quote s
  | .array items =>
    newline_notMem_between (by decide) (newline_notMem_compactItems items) (by decide)
  | .object members =>
    newline_notMem_between (by decide) (newline_notMem_compactMembers members) (by decide)

theorem newline_notMem_compactItems : (items : List Json) → '\n' ∉ (compactItems items).toList
  | [] => newline_notMem_ofList (by decide)
  | [item] => newline_notMem_compact item
  | item :: next :: rest =>
    newline_notMem_comma (newline_notMem_compact item) (newline_notMem_compactItems (next :: rest))

theorem newline_notMem_compactMembers :
    (members : List (String × Json)) → '\n' ∉ (compactMembers members).toList
  | [] => newline_notMem_ofList (by decide)
  | [(name, value)] => newline_notMem_member name (newline_notMem_compact value)
  | (name, value) :: next :: rest =>
    newline_notMem_comma (newline_notMem_member name (newline_notMem_compact value))
      (newline_notMem_compactMembers (next :: rest))

end

end Json

/-- A line of a log: it starts with its level between brackets. -/
structure OfLog (line : String) : Prop where
  level : "[info] ".toList <+: line.toList ∨ "[debug] ".toList <+: line.toList
  newline_notMem : '\n' ∉ line.toList

namespace LogEntry

variable (e : LogEntry)

/-- The text of an entry goes on after its level. -/
theorem level_prefix_render : ("[" ++ e.level.name ++ "] ").toList <+: e.render.toList := by
  unfold render
  cases e.data with
  | none =>
    simp only [String.toList_append]
    exact List.prefix_append _ _
  | some data =>
    simp only [String.toList_append, List.append_assoc]
    simp

theorem newline_notMem_render (h : '\n' ∉ e.message.toList) : '\n' ∉ e.render.toList := by
  have hlevel : '\n' ∉ e.level.name.toList := by
    cases e.level <;> exact newline_notMem_ofList (by decide)
  have hhead : '\n' ∉ ("[" ++ e.level.name ++ "] " ++ e.message).toList :=
    newline_notMem_append (newline_notMem_between (by decide) hlevel (by decide)) h
  unfold render
  cases e.data with
  | none => exact hhead
  | some data =>
    exact newline_notMem_append (newline_notMem_append hhead (newline_notMem_ofList (by decide)))
      (Json.newline_notMem_compact _)

theorem ofLog_render (h : '\n' ∉ e.message.toList) : OfLog e.render := by
  refine ⟨?_, e.newline_notMem_render h⟩
  have hlevel := e.level_prefix_render
  cases hname : e.level with
  | info =>
    rw [hname] at hlevel
    exact Or.inl hlevel
  | debug =>
    rw [hname] at hlevel
    exact Or.inr hlevel

end LogEntry

/-- The message of an entry is a word, and what a line or an error is goes into its data. -/
theorem Event.newline_notMem_message (e : Event) : '\n' ∉ e.entry.message.toList := by
  cases e <;> exact newline_notMem_ofList (by decide)

theorem ofLog_of_mem_logLines {events : List Event} {line : String}
    (h : line ∈ logLines events) : OfLog line := by
  obtain ⟨e, -, rfl⟩ := List.mem_map.mp h
  exact e.entry.ofLog_render e.newline_notMem_message

end Linewise
