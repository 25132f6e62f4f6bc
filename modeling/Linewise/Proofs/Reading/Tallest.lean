/-
The highest trees within a limit on nesting.

* `Derivation.Fits` — a derivation of a line within a limit, with a tree of a given
  height;
* `exists_fits` — within every limit one reaches the bound on the height;
* `LimitBoundsHeight` — a line has no tree higher than the limit that it is read
  within;
* `limitBoundsHeight_iff` — so it is with every line for the limit zero only, and
  with one line exactly for the limits that refuse it and those from its height on.
-/
import Linewise.Proofs.Reading.Height
import Linewise.Proofs.Reading.Line
import Linewise.Proofs.Token.Spelling
import Mathlib.Order.Bounds.Defs

namespace Linewise

open Linewise.Configuration

/-! ### A derivation that reaches the bound -/

theorem Chain.exists_operator (c : Chain) : ∃ sign op, c.operator? sign = some op := by
  cases c with
  | disjunction => exact ⟨.or .sign, _, rfl⟩
  | conjunction => exact ⟨.and .sign, _, rfl⟩
  | equality => exact ⟨.equal, _, rfl⟩
  | order => exact ⟨.less, _, rfl⟩
  | sum => exact ⟨.plus, _, rfl⟩
  | product => exact ⟨.star, _, rfl⟩

theorem Kind.wellFormed_of_operator {c : Chain} {k : Kind} {op : BinaryOp}
    (h : c.operator? k = some op) : k.WellFormed := by
  have hbin := (Chain.operator?_eq_some_iff.mp h).1
  cases k <;> trivial

namespace Derivation

/-- A derivation that can stand anywhere in a line, within a limit, and whose tree has
the given height. -/
structure Fits {n : Nonterminal} (d : Derivation n) (limit height : Nat) : Prop where
  ext : ∀ next, d.Extends next
  charge_le : d.charge ≤ limit
  height_eq : d.tree.height = height
  readable : Readable d.word
  wellFormed : ∀ k ∈ d.word, k.WellFormed

variable {limit height : Nat}

theorem exists_fits_zero (n : Nonterminal) : ∃ d : Derivation n, d.Fits 0 0 := by
  obtain ⟨d, hword, hext, htree, hcharge⟩ := (Derivation.name "a").exists_lift n.rank_le_nine
  refine ⟨d, fun next => (hext next).mpr trivial, Nat.le_of_eq hcharge, by rw [htree]; rfl, ?_, ?_⟩
  · rw [hword]
    exact readable_singleton (by simp)
  · rw [hword]
    intro k hk
    obtain rfl := List.mem_singleton.mp hk
    exact ⟨rfl, 'a', [], rfl, rfl, by simp⟩

/-- As many operators as the limit allows stand on top of the first operand of a
chain. -/
theorem Fits.exists_chain {c : Chain} {first : Derivation c.operand} (h : first.Fits limit height)
    (hc : c ≠ .equality) (count : Nat) (hcount : count ≤ limit) :
    ∃ d : Derivation (.chain c), d.Fits limit (height + count) ∧ d.count = count := by
  obtain ⟨sign, op, hop⟩ := c.exists_operator
  obtain ⟨right, hright⟩ := exists_fits_zero c.rightOperand
  -- One operator more puts the tree so far on the left, where it costs nothing.
  induction count with
  | zero => exact ⟨operand first, ⟨h.ext, h.charge_le, h.height_eq, h.readable, h.wellFormed⟩, rfl⟩
  | succ count ih =>
    obtain ⟨d, hd, hdcount⟩ := ih (Nat.le_of_succ_le hcount)
    have hzero := Nat.le_zero.mp hright.charge_le
    refine ⟨fold d sign op hop right, ⟨?_, ?_, ?_, ?_, ?_⟩, by rw [Derivation.count, hdcount]⟩
    · intro next
      exact ⟨hd.ext sign, hright.ext next, fun h => absurd h hc⟩
    · rw [charge, Chain.opening, if_neg hc, hzero, hdcount]
      exact Nat.max_le.mpr ⟨hd.charge_le, hcount⟩
    · rw [tree, Expr.height, hd.height_eq, hright.height_eq, Nat.max_eq_left (Nat.zero_le _)]
      rfl
    · rw [word, readable_append, readable_cons (Chain.operator_ne_number hop)]
      exact ⟨hd.readable, hright.readable⟩
    · intro k hk
      rw [word] at hk
      rcases List.mem_append.mp hk with hk | hk
      · exact hd.wellFormed k hk
      · rcases List.mem_cons.mp hk with rfl | hk
        · exact Kind.wellFormed_of_operator hop
        · exact hright.wellFormed k hk

/-- The five chains other than equalities stand on top of each other. -/
theorem Fits.exists_expression {first : Derivation .factor} (h : first.Fits limit height) :
    ∃ d : Derivation .expression, d.Fits limit (height + 5 * limit) := by
  have hall := Nat.le_refl limit
  obtain ⟨product, hproduct, -⟩ := Fits.exists_chain (c := .product) h (by simp) limit hall
  obtain ⟨sum, hsum, -⟩ := Fits.exists_chain (c := .sum) hproduct (by simp) limit hall
  obtain ⟨order, horder, -⟩ := Fits.exists_chain (c := .order) hsum (by simp) limit hall
  -- An equality would take what follows it into its right side, so there is none.
  have hfactor : (unnegated (@operand .equality order)).Fits limit
      (height + limit + limit + limit) :=
    ⟨horder.ext, horder.charge_le, horder.height_eq, horder.readable, horder.wellFormed⟩
  obtain ⟨conjunction, hconjunction, -⟩ :=
    Fits.exists_chain (c := .conjunction) hfactor (by simp) limit hall
  obtain ⟨disjunction, hdisjunction, -⟩ :=
    Fits.exists_chain (c := .disjunction) hconjunction (by simp) limit hall
  have hheight : height + limit + limit + limit + limit + limit = height + 5 * limit := by omega
  exact ⟨disjunction, hheight ▸ hdisjunction⟩

theorem exists_fits (limit : Nat) :
    ∃ d : Derivation .expression, d.Fits limit (heightBound limit) := by
  induction limit with
  | zero => exact exists_fits_zero .expression
  | succ limit ih =>
    cases limit with
    | zero =>
      -- With one level left a sign is higher than a group.
      obtain ⟨d, hd⟩ := exists_fits_zero .factor
      have hsigned : (signed .minus .minus rfl d).Fits 1 1 := by
        refine ⟨hd.ext, Nat.succ_le_succ hd.charge_le, ?_, ?_, ?_⟩
        · show d.tree.height + 1 = 1
          rw [hd.height_eq]
        · show Readable (.minus :: d.word)
          rw [readable_cons (by simp)]
          exact hd.readable
        · intro k hk
          rcases List.mem_cons.mp hk with rfl | hk
          · trivial
          · exact hd.wellFormed k hk
      exact hsigned.exists_expression
    | succ limit =>
      obtain ⟨d, hd⟩ := ih
      have hgroup : (unsigned (group d)).Fits (limit + 2) (heightBound (limit + 1)) := by
        refine ⟨fun _ => hd.ext _, Nat.succ_le_succ hd.charge_le, hd.height_eq, ?_, ?_⟩
        · rw [word, word, readable_cons (by simp), readable_append]
          exact ⟨hd.readable, readable_singleton (by simp)⟩
        · intro k hk
          rcases List.mem_cons.mp hk with rfl | hk
          · trivial
          · rcases List.mem_append.mp hk with hk | hk
            · exact hd.wellFormed k hk
            · obtain rfl := List.mem_singleton.mp hk
              trivial
      exact hgroup.exists_expression

end Derivation

/-! ### Lines -/

/-- The expression of a statement. -/
def Statement.expr : Statement → Expr
  | assign _ e => e
  | print e => e

/-- Within a limit, a line is read as no tree that is higher than the limit. -/
def LimitBoundsHeight (limit : Nat) (line : String) : Prop :=
  (∀ e, Expr.ofLine limit line = .ok e → e.height ≤ limit) ∧
    ∀ s, Statement.ofLine limit line = .ok s → s.expr.height ≤ limit

section Heights

variable (limit : Nat)

theorem isGreatest_height_expression :
    IsGreatest {h | ∃ line e, Expr.ofLine limit line = .ok e ∧ e.height = h}
      (heightBound limit) := by
  constructor
  -- The bound is reached by the spelling of the derivation that fits.
  · obtain ⟨d, hd⟩ := Derivation.exists_fits limit
    refine ⟨String.ofList (spelled d.word), d.tree, Expr.ofLine_eq_ok_iff.mpr ⟨d, ?_⟩, hd.height_eq⟩
    refine ⟨Or.inl (lineWord_spelled hd.wellFormed), hd.ext _, hd.readable, ?_, rfl⟩
    rw [room_natCast_zero]
    exact hd.charge_le
  · rintro h ⟨line, e, hok, rfl⟩
    obtain ⟨d, -, hext, -, hcharge, rfl⟩ := Expr.ofLine_eq_ok_iff.mp hok
    rw [room_natCast_zero] at hcharge
    exact (d.height_tree_le hext hcharge).1

theorem isGreatest_height_statement :
    IsGreatest {h | ∃ line s, Statement.ofLine limit line = .ok s ∧ s.expr.height = h}
      (heightBound limit) := by
  constructor
  · obtain ⟨d, hd⟩ := Derivation.exists_fits limit
    have hprint : ∀ k ∈ (StatementDerivation.print d).word, k.WellFormed := by
      intro k hk
      rcases List.mem_append.mp hk with hk | hk
      · rcases List.mem_append.mp hk with hk | hk
        · obtain rfl := List.mem_singleton.mp hk
          trivial
        · exact hd.wellFormed k hk
      · obtain rfl := List.mem_singleton.mp hk
        trivial
    refine ⟨String.ofList (spelled (StatementDerivation.print d).word), .print d.tree,
      Statement.ofLine_eq_ok_iff.mpr ⟨.print d, lineWord_spelled hprint, hd.ext _, hd.readable,
        ?_, rfl⟩, hd.height_eq⟩
    rw [room_natCast_zero]
    exact hd.charge_le
  · rintro h ⟨line, s, hok, rfl⟩
    obtain ⟨d, -, hext, -, hcharge, rfl⟩ := Statement.ofLine_eq_ok_iff.mp hok
    rw [room_natCast_zero] at hcharge
    have hle := (d.value.height_tree_le hext hcharge).1
    cases d <;> exact hle

end Heights

/-- Every line has no higher tree than the limit only if the limit is zero: under any
other limit the greatest height grows with its square, for expressions and for
statements.  A single line has a higher tree exactly under the limits from its charge
on that are less than its height. -/
theorem limitBoundsHeight_iff (limit : Nat) :
    ((∀ line, LimitBoundsHeight limit line) ↔ limit = 0) ∧
    (0 < limit → 2 * heightBound limit = 5 * limit * (limit + 1) + 2) ∧
    IsGreatest {h | ∃ line e, Expr.ofLine limit line = .ok e ∧ e.height = h}
      (heightBound limit) ∧
    IsGreatest {h | ∃ line s, Statement.ofLine limit line = .ok s ∧ s.expr.height = h}
      (heightBound limit) ∧
    (∀ (line : String) (d : Derivation .expression),
      (LineWord line d.word ∨ LineWord line (d.word ++ [.semicolon])) →
      d.Extends .semicolon → Readable d.word →
      ((∀ e, Expr.ofLine limit line = .ok e → e.height ≤ limit) ↔
        limit < d.charge ∨ d.tree.height ≤ limit)) ∧
    (∀ (line : String) (d : StatementDerivation), LineWord line d.word →
      d.value.Extends .semicolon → Readable d.value.word →
      ((∀ s, Statement.ofLine limit line = .ok s → s.expr.height ≤ limit) ↔
        limit < d.value.charge ∨ d.value.tree.height ≤ limit)) := by
  have hexpression := isGreatest_height_expression limit
  have hstatement := isGreatest_height_statement limit
  refine ⟨⟨?_, ?_⟩, two_mul_heightBound, hexpression, hstatement, ?_, ?_⟩
  · intro hall
    -- Five chains of operators stand on top of each other already with one level.
    obtain ⟨line, e, hok, hheight⟩ := hexpression.1
    have hle := (hall line).1 e hok
    have hlarge := five_mul_le_heightBound limit
    omega
  · rintro rfl line
    exact ⟨fun e hok => hexpression.2 ⟨line, e, hok, rfl⟩,
      fun s hok => hstatement.2 ⟨line, s, hok, rfl⟩⟩
  · intro line d hline hext hnum
    simp only [Expr.ofLine_eq_ok_iff_of_word hline hext hnum, room_natCast_zero]
    constructor
    · intro h
      rcases Nat.lt_or_ge limit d.charge with hlt | hge
      · exact Or.inl hlt
      · exact Or.inr (h d.tree ⟨hge, rfl⟩)
    · rintro hlimit e ⟨hcharge, rfl⟩
      rcases hlimit with hlt | hle
      · exact absurd hlt (Nat.not_lt.mpr hcharge)
      · exact hle
  · intro line d hline hext hnum
    have hexpr : d.tree.expr = d.value.tree := by cases d <;> rfl
    simp only [Statement.ofLine_eq_ok_iff_of_word hline hext hnum, room_natCast_zero]
    constructor
    · intro h
      rcases Nat.lt_or_ge limit d.value.charge with hlt | hge
      · exact Or.inl hlt
      · exact Or.inr (hexpr ▸ h d.tree ⟨hge, rfl⟩)
    · rintro hlimit s ⟨hcharge, rfl⟩
      rcases hlimit with hlt | hle
      · exact absurd hlt (Nat.not_lt.mpr hcharge)
      · exact hexpr ▸ hle

/-- An operator that binds tighter takes a level right of a sum, and none left of it. -/
theorem not_limitBoundsHeight_product_sum :
    Expr.ofLine 1 "a + b * c" = .error (.parse ⟨.nestingTooDeep 1, 6⟩) ∧
    Expr.ofLine 1 "a * b + c" = .ok (.binary (.arith .add)
      (.binary (.arith .mul) (.var "a") (.var "b")) (.var "c")) ∧
    ¬ LimitBoundsHeight 1 "a * b + c" := by
  have hnames : ∀ x y, x.WellFormed → y.WellFormed →
      ∀ k ∈ [Kind.name "a", x, .name "b", y, .name "c"], k.WellFormed := by
    intro x y hx hy
    simp only [List.forall_mem_cons]
    exact ⟨Kind.wellFormed_letter rfl rfl rfl, hx, Kind.wellFormed_letter rfl rfl rfl, hy,
      Kind.wellFormed_letter rfl rfl rfl, by simp⟩
  have hsum := TokenStream.ofString_spelled (hnames .plus .star trivial trivial)
  have hproduct := TokenStream.ofString_spelled (hnames .star .plus trivial trivial)
  have hsumLine : String.ofList (spelled [.name "a", .plus, .name "b", .star, .name "c"]) =
      "a + b * c" := rfl
  have hproductLine : String.ofList (spelled [.name "a", .star, .name "b", .plus, .name "c"]) =
      "a * b + c" := rfl
  rw [hsumLine] at hsum
  rw [hproductLine] at hproduct
  have hrefused : Expr.ofLine 1 "a + b * c" = .error (.parse ⟨.nestingTooDeep 1, 6⟩) := by
    rw [Expr.ofLine, Reader.ofString, hsum]
    rfl
  have hread : Expr.ofLine 1 "a * b + c" = .ok (.binary (.arith .add)
      (.binary (.arith .mul) (.var "a") (.var "b")) (.var "c")) := by
    rw [Expr.ofLine, Reader.ofString, hproduct]
    rfl
  exact ⟨hrefused, hread, fun h => absurd (h.1 _ hread) (by decide)⟩

end Linewise
