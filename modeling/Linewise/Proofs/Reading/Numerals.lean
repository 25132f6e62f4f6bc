/-
Number tokens, and texts that spell numbers.

* `Value.toNumber_text_iff` — a text is a number exactly if it is a decimal, blanks apart;
* `Configuration.shiftOperand_of_read?`, `shiftOperand_of_unreadable` — what a number token
  comes to where an operand is expected;
* `shiftOperand_number_iff` — it is refused exactly if it has two points or more; otherwise it
  stands for the number that its own text, with blanks around it, is converted to.

Design notes: which texts the two acceptors take is stated by their languages, `Number.literal`
for the token and `Number.decimal` for the text, which differ on other spellings.
-/
import Linewise.Proofs.Number.Literal
import Linewise.Proofs.Text.Blank
import Linewise.Proofs.Token.Scan
import Linewise.Value

namespace Linewise

open Text

/-! ### Texts -/

theorem Value.toNumber_text_of_read? {s : String} {x : Float}
    (h : Number.read? (trim s) = some x) : (text s).toNumber = .ok x := by
  rw [toNumber, h]

/-- A text is converted to a number exactly if it is a decimal with blanks around it. -/
theorem Value.toNumber_text_iff {s : String} :
    (∃ x, (text s).toNumber = .ok x) ↔ (trim s).toList ∈ Number.decimal := by
  rw [← Number.isSome_read?_iff_mem]
  cases h : Number.read? (trim s) with
  | none => simp [toNumber, h]
  | some x => simp [toNumber, h]

/-! ### Tokens -/

namespace Configuration

variable {t : Token} {raw : String}

theorem shiftOperand_of_read? {x : Float} (hraw : t.kind = .number raw)
    (h : Number.read? raw = some x) (limit : Int) (negatable : Bool) (c : Configuration) :
    c.shiftOperand limit negatable t =
      some (.ok { c with expected := .operator (.number raw x) }) := by
  simp only [shiftOperand, hraw, h]

theorem shiftOperand_of_unreadable (hraw : t.kind = .number raw) (h : Number.read? raw = none)
    (limit : Int) (negatable : Bool) (c : Configuration) :
    c.shiftOperand limit negatable t = some (.error ⟨.invalidNumber raw, t.column⟩) := by
  simp only [shiftOperand, hraw, h]

/-- A number token is refused if and only if it is no numeral. -/
theorem shiftOperand_error_iff (hraw : t.kind = .number raw) (limit : Int) (negatable : Bool)
    (c : Configuration) :
    c.shiftOperand limit negatable t = some (.error ⟨.invalidNumber raw, t.column⟩) ↔
      ¬ (Number.read? raw).isSome = true := by
  cases h : Number.read? raw with
  | none => simp [shiftOperand_of_unreadable hraw h]
  | some x => simp [shiftOperand_of_read? hraw h]

end Configuration

/-! ### Number tokens and their texts -/

/-- A number token is refused, where an operand is expected, if and only if there are two points
or more in it, and then no number is spelled so.  Any other stands for the number that its text
is converted to, with whatever blanks there are around it. -/
theorem shiftOperand_number_iff {line raw : String} {t : Token}
    (ht : t ∈ (TokenStream.ofString line).tokens) (hraw : t.kind = .number raw) :
    (∀ limit negatable (c : Configuration),
      c.shiftOperand limit negatable t = some (.error ⟨.invalidNumber raw, t.column⟩) ↔
        2 ≤ raw.toList.count '.') ∧
    (raw.toList ∈ Number.literal ↔ ¬ 2 ≤ raw.toList.count '.') ∧
    (¬ 2 ≤ raw.toList.count '.' → ∃ x,
      (∀ limit negatable (c : Configuration), c.shiftOperand limit negatable t =
        some (.ok { c with expected := .operator (.number raw x) })) ∧
      ∀ before after : String, (∀ ch ∈ before.toList, isBlank ch = true) →
        (∀ ch ∈ after.toList, isBlank ch = true) →
        (trim (before ++ raw ++ after)).toList ∈ Number.decimal ∧
        (Value.text (before ++ raw ++ after)).toNumber = .ok x) := by
  have htext : NumberText raw.toList := TokenStream.numberText_of_mem ht hraw
  have hpoints : (Number.read? raw).isSome = true ↔ ¬ 2 ≤ raw.toList.count '.' := by
    rw [Number.isSome_read?_iff htext]
    omega
  refine ⟨fun limit negatable c => ?_, ?_, fun hfew => ?_⟩
  · rw [Configuration.shiftOperand_error_iff hraw, hpoints, not_not]
  · rw [Number.mem_literal_iff_of_numberText htext]
    omega
  · obtain ⟨x, hx⟩ := Option.isSome_iff_exists.mp (hpoints.mpr hfew)
    refine ⟨x, Configuration.shiftOperand_of_read? hraw hx, fun before after hbefore hafter => ?_⟩
    have htrim : trim (before ++ raw ++ after) = raw :=
      trim_append_append hbefore hafter htext.ne_nil (Number.isBlank_eq_false_of_numberText htext)
    have hvalue : (Value.text (before ++ raw ++ after)).toNumber = .ok x :=
      Value.toNumber_text_of_read? (by rw [htrim, hx])
    exact ⟨Value.toNumber_text_iff.mp ⟨x, hvalue⟩, hvalue⟩

/-- A point may end a number, and zeros may start it after a minus; a second point is too many. -/
theorem shiftOperand_number_iff_points :
    let line := "-007. == 1.2.3"
    let first : Token := ⟨.number "-007.", 0⟩
    let last : Token := ⟨.number "1.2.3", 9⟩
    first ∈ (TokenStream.ofString line).tokens ∧ last ∈ (TokenStream.ofString line).tokens ∧
    (∃ x, (∀ c : Configuration, c.shiftOperand 100 true first =
        some (.ok { c with expected := .operator (.number "-007." x) })) ∧
      (Value.text " -007.\t").toNumber = .ok x) ∧
    ∀ c : Configuration, c.shiftOperand 100 true last =
      some (.error ⟨.invalidNumber "1.2.3", 9⟩) := by
  intro line first last
  have htokens : (TokenStream.ofString line).tokens = [first, ⟨.equal, 6⟩, last] := by
    decide +kernel
  have hfirst : first ∈ (TokenStream.ofString line).tokens := by simp [htokens]
  have hlast : last ∈ (TokenStream.ofString line).tokens := by simp [htokens]
  obtain ⟨-, -, hagree⟩ := shiftOperand_number_iff hfirst rfl
  obtain ⟨x, hshift, htext⟩ := hagree (by decide)
  obtain ⟨hrefused, -, -⟩ := shiftOperand_number_iff hlast rfl
  refine ⟨hfirst, hlast, ⟨x, hshift 100 true, ?_⟩, fun c => (hrefused 100 true c).mpr (by decide)⟩
  exact (htext " " "\t" (by simp [isBlank, blanks]) (by simp [isBlank, blanks])).2

end Linewise
