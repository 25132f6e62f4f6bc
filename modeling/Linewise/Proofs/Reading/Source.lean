/-
The source text of a tree, and reading it back.

* `Expr.source` — every operation in parentheses, with blanks around its operator;
* `Expr.WellFormed` — the trees whose leaves have a source text;
* `Derivation.Spells` — a derivation of the source text of a tree, for which three
  levels of nesting suffice for each level of the tree;
* `Expr.WellFormed.exists_spells` — every well-formed tree has one;
* `Expr.ofLine_source` — so it is read back from its source text.

Design notes: an equality opens three levels, one of them for its parentheses and two
for its right side; every other operation opens two.
-/
import Linewise.Proofs.Reading.Height
import Linewise.Proofs.Reading.Line
import Linewise.Proofs.Token.Append

namespace Linewise

/-! ### Operators -/

/-- The token of an operator; the connectives are words. -/
def BinaryOp.kind : BinaryOp → Kind
  | arith .add => .plus
  | arith .sub => .minus
  | arith .mul => .star
  | arith .div => .slash
  | compare .eq => .equal
  | compare .ne => .notEqual
  | compare .lt => .less
  | compare .gt => .greater
  | logic .and => .and .word
  | logic .or => .or .word

/-- The token of an operator before one operand. -/
def UnaryOp.kind : UnaryOp → Kind
  | plus => .plus
  | minus => .minus
  | not => .not

namespace BinaryOp

theorem spelling_kind (op : BinaryOp) : op.kind.spelling = op.symbol := by
  rcases op with (_ | _ | _ | _) | (_ | _ | _ | _) | (_ | _) <;> rfl

theorem operator?_kind (op : BinaryOp) : op.chain.operator? op.kind = some op := by
  rcases op with (_ | _ | _ | _) | (_ | _ | _ | _) | (_ | _) <;> rfl

theorem lineWord_symbol (op : BinaryOp) : LineWord op.symbol [op.kind] := by
  rw [← op.spelling_kind]
  refine lineWord_spelling ?_
  rcases op with (_ | _ | _ | _) | (_ | _ | _ | _) | (_ | _) <;> trivial

end BinaryOp

theorem UnaryOp.lineWord_kind (op : UnaryOp) : LineWord op.kind.spelling [op.kind] := by
  refine lineWord_spelling ?_
  cases op <;> trivial

/-- All but the negation are signs of a factor. -/
theorem UnaryOp.sign?_kind {op : UnaryOp} (h : op ≠ .not) : op.kind.sign? = some op := by
  cases op with
  | not => exact absurd rfl h
  | _ => rfl

/-! ### Trees -/

namespace Expr

/-- The source text of a tree: every operation in parentheses, with blanks around its
operator. -/
def source : Expr → String
  | number spelling _ => spelling
  | boolean value => (Kind.boolean value).spelling
  | text contents => (Kind.text contents).spelling
  | var name => name
  | unary op operand => "(" ++ (op.kind.spelling ++ " " ++ operand.source) ++ ")"
  | binary op left right => "(" ++ (left.source ++ " " ++ op.symbol ++ " " ++ right.source) ++ ")"

/-- The trees whose leaves have a source text: numerals with their values, texts
without quotes and names. -/
def WellFormed : Expr → Prop
  | number spelling value => NumberText spelling.toList ∧ spelling.toList.count '.' ≤ 1 ∧
      Number.read? spelling = some value
  | boolean _ => True
  | text contents => '"' ∉ contents.toList
  | var name => Identifier name
  | unary _ operand => operand.WellFormed
  | binary _ left right => left.WellFormed ∧ right.WellFormed

theorem wellFormed_number {spelling : String} (htext : NumberText spelling.toList)
    (hpoints : spelling.toList.count '.' ≤ 1) :
    (number spelling (Number.ofSpelling spelling)).WellFormed := by
  obtain ⟨value, hvalue⟩ :=
    Option.isSome_iff_exists.mp ((Number.isSome_read?_iff htext).mpr hpoints)
  refine ⟨htext, hpoints, ?_⟩
  rw [Number.ofSpelling, hvalue]
  rfl

end Expr

/-! ### Derivations -/

/-- A derivation of the source text of a tree, with this tree.  It is closed on both
sides, and three levels of nesting suffice for each level of the tree. -/
structure Derivation.Spells {n : Nonterminal} (d : Derivation n) (e : Expr) : Prop where
  line : LineWord e.source d.word
  ext : ∀ next, d.Extends next
  readable : Readable d.word
  tree : d.tree = e
  charge : d.charge ≤ 3 * e.height

namespace Derivation.Spells

variable {n : Nonterminal} {d : Derivation n} {e : Expr}

theorem exists_lift {m : Nonterminal} (h : d.Spells e) (hrank : m.rank ≤ n.rank) :
    ∃ d' : Derivation m, d'.Spells e := by
  obtain ⟨d', hword, hext, htree, hcharge⟩ := d.exists_lift hrank
  exact ⟨d', hword ▸ h.line, fun next => (hext next).mpr (h.ext next), hword ▸ h.readable,
    htree.trans h.tree, hcharge ▸ h.charge⟩

/-- Parentheses close a derivation of what they hold. -/
theorem of_group {text : String} (d : Derivation n) (hsource : e.source = "(" ++ text ++ ")")
    (hline : LineWord text d.word) (hext : d.Extends .rightParen) (hnum : Readable d.word)
    (htree : d.tree = e) (hcharge : d.charge < 3 * e.height) :
    ∃ d' : Derivation .primary, d'.Spells e := by
  obtain ⟨d', hword, hext', htree', hcharge'⟩ := d.exists_lift (m := .expression) n.one_le_rank
  refine ⟨.group d', ⟨?_, fun _ => (hext' .rightParen).mpr hext, ?_, htree'.trans htree, ?_⟩⟩
  · rw [hsource, word, hword]
    exact hline.group
  · rw [word, readable_cons (by simp), readable_append, hword]
    exact ⟨hnum, readable_singleton (by simp)⟩
  · rw [Derivation.charge, hcharge']
    exact hcharge

end Derivation.Spells

open Linewise.Derivation

/-- A well-formed tree has a derivation of its source text. -/
theorem Expr.WellFormed.exists_spells {e : Expr} (h : e.WellFormed) :
    ∃ d : Derivation .primary, d.Spells e := by
  induction e with
  | number spelling value =>
    obtain ⟨htext, hpoints, hvalue⟩ := h
    refine ⟨.number spelling, lineWord_spelling (k := .number spelling) htext, fun _ => trivial,
      ?_, ?_, Nat.le_refl 0⟩
    · rw [word, readable_number, hvalue]
      rfl
    · rw [tree, Number.ofSpelling, hvalue]
      rfl
  | boolean value =>
    exact ⟨.boolean value, lineWord_spelling trivial, fun _ => trivial, readable_singleton (by simp),
      rfl, Nat.le_refl 0⟩
  | text contents =>
    exact ⟨.text contents, lineWord_spelling (k := .text contents) h, fun _ => trivial,
      readable_singleton (by simp), rfl, Nat.le_refl 0⟩
  | var name =>
    exact ⟨.name name, lineWord_spelling (Identifier.wellFormed h), fun _ => trivial,
      readable_singleton (by simp), rfl, Nat.le_refl 0⟩
  | unary op operand ih =>
    obtain ⟨dprimary, hprimary⟩ := ih h
    rcases eq_or_ne op .not with rfl | hnot
    · obtain ⟨d, hd⟩ := hprimary.exists_lift (m := .comparison) (Nonterminal.rank_le_nine _)
      refine Spells.of_group (.negation d) rfl ?_ (hd.ext _) ?_ ?_ ?_
      · exact (lineWord_spelling (k := .not) trivial).spaced hd.line
      · exact (readable_cons (by simp)).mpr hd.readable
      · rw [tree, hd.tree]
      · have hcharge := hd.charge
        simp only [charge, Expr.height]
        omega
    · obtain ⟨d, hd⟩ := hprimary.exists_lift (m := .factor) (Nonterminal.rank_le_nine _)
      have hsign := UnaryOp.sign?_kind hnot
      refine Spells.of_group (.signed op.kind op hsign d) rfl ?_ (hd.ext _) ?_ ?_ ?_
      · exact op.lineWord_kind.spaced hd.line
      · exact (readable_cons (Kind.sign_ne_number hsign)).mpr hd.readable
      · rw [tree, hd.tree]
      · have hcharge := hd.charge
        simp only [charge, Expr.height]
        omega
  | binary op left right ihleft ihright =>
    obtain ⟨dleft, hleft⟩ := ihleft h.1
    obtain ⟨dright, hright⟩ := ihright h.2
    obtain ⟨l, hl⟩ := hleft.exists_lift (m := op.chain.operand) (Nonterminal.rank_le_nine _)
    obtain ⟨r, hr⟩ := hright.exists_lift (m := op.chain.rightOperand) (Nonterminal.rank_le_nine _)
    refine Spells.of_group (.fold (.operand l) op.kind op op.operator?_kind r) rfl ?_ ?_ ?_ ?_ ?_
    · rw [word, List.append_cons]
      exact (hl.line.spaced op.lineWord_symbol).spaced hr.line
    · exact ⟨hl.ext _, hr.ext _, fun _ => Kind.endsGroup_iff.mpr rfl⟩
    · rw [word, readable_append, readable_cons (Chain.operator_ne_number op.operator?_kind)]
      exact ⟨hl.readable, hr.readable⟩
    · rw [tree, tree, hl.tree, hr.tree]
    -- One level for the parentheses, and at most two for the right side.
    · have hchargel := hl.charge
      have hcharger := hr.charge
      have hopening : op.chain.opening 0 ≤ 2 := by
        rw [Chain.opening]
        split <;> omega
      simp only [charge, count, Expr.height]
      omega

/-- A well-formed tree is read back from its source text, with three levels of nesting
for each of its levels. -/
theorem Expr.ofLine_source {e : Expr} {limit : Int} (he : e.WellFormed)
    (hlimit : ((3 * e.height : Nat) : Int) ≤ limit) : Expr.ofLine limit e.source = .ok e := by
  obtain ⟨dprimary, hprimary⟩ := he.exists_spells
  obtain ⟨d, hd⟩ := hprimary.exists_lift (m := .expression) (Nonterminal.rank_le_nine _)
  refine Expr.ofLine_eq_ok_iff.mpr ⟨d, Or.inl hd.line, hd.ext _, hd.readable, ?_, hd.tree⟩
  exact Nat.le_trans hd.charge (Configuration.le_room_zero hlimit)

/-- A minus before a blank is an operator, and one before a digit is part of a number. -/
theorem Expr.ofLine_source_equality :
    let e : Expr := .binary (.compare .eq)
      (.unary .minus (.number "-1.5" (Number.ofSpelling "-1.5"))) (.text "a b")
    e.WellFormed ∧ ((3 * e.height : Nat) : Int) ≤ 6 ∧
      Expr.ofLine 6 "((- -1.5) == \"a b\")" = .ok e := by
  intro e
  have htext : NumberText "-1.5".toList := by
    refine ⟨'1', ['.', '5'], rfl, ?_, Or.inr rfl⟩
    simp only [List.forall_mem_cons]
    exact ⟨rfl, rfl, by simp⟩
  have hnumber : (Expr.number "-1.5" (Number.ofSpelling "-1.5")).WellFormed :=
    wellFormed_number htext (by decide)
  have he : e.WellFormed := ⟨hnumber, show '"' ∉ "a b".toList by simp⟩
  have hlimit : ((3 * e.height : Nat) : Int) ≤ 6 := Int.le_refl 6
  have hsource : e.source = "((- -1.5) == \"a b\")" := rfl
  have hread := Expr.ofLine_source he hlimit
  rw [hsource] at hread
  exact ⟨he, hlimit, hread⟩

end Linewise
