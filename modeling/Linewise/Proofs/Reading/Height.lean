/-
How high a tree can be that is read within a limit.

* `Expr.height` — the greatest number of operators above a leaf;
* `heightBound` — the greatest height within a limit, with a closed form in
  `two_mul_heightBound`;
* `Derivation.height_tree_le` — a derivation whose charge is within the limit has
  no higher tree.

Design notes: an operator opens a level for what stands right of it, and that level
is closed when its chain ends.  What stands left of it was read before, and its own
levels are closed by then.  So one chain can stand on top of another without a level
for it, five of them in one group.
-/
import Linewise.Proofs.Grammar
import Mathlib.Tactic.Ring

namespace Linewise

/-- The greatest number of operators between the root of a tree and a leaf. -/
def Expr.height : Expr → Nat
  | number _ _ | boolean _ | text _ | var _ => 0
  | unary _ e => e.height + 1
  | binary _ left right => max left.height right.height + 1

/-- The greatest height of a tree that is read within a limit: one sign, and for
every level five chains of as many operators as levels are left. -/
def heightBound : Nat → Nat
  | 0 => 0
  | 1 => 6
  | limit + 2 => heightBound (limit + 1) + 5 * (limit + 2)

/-- The chains other than equalities that a derivation can be the first operand of,
with its own chain. -/
def Nonterminal.chains : Nonterminal → Nat
  | chain .disjunction => 1
  | chain .conjunction | logicalFactor | chain .equality => 2
  | chain .order => 3
  | chain .sum => 4
  | chain .product | factor | primary => 5

/-! ### The bound -/

/-- The bound in closed form. -/
theorem two_mul_heightBound {limit : Nat} (h : 0 < limit) :
    2 * heightBound limit = 5 * limit * (limit + 1) + 2 := by
  induction limit, h using Nat.le_induction with
  | base => rfl
  | succ limit h ih =>
    obtain ⟨below, rfl⟩ := Nat.exists_eq_add_of_le' h
    rw [heightBound, Nat.mul_add, ih]
    ring

theorem heightBound_add_six_le (limit : Nat) : heightBound limit + 6 ≤ heightBound (limit + 1) := by
  cases limit with
  | zero => exact Nat.le_refl 6
  | succ limit =>
    rw [heightBound]
    omega

theorem heightBound_add_le_succ (limit : Nat) :
    heightBound limit + 5 * (limit + 1) ≤ heightBound (limit + 1) := by
  cases limit with
  | zero => exact Nat.le_succ 5
  | succ limit => exact Nat.le_refl _

theorem heightBound_add_le {inner limit : Nat} (h : inner < limit) :
    heightBound inner + 5 * limit ≤ heightBound limit := by
  induction limit with
  | zero => exact absurd h (Nat.not_lt_zero inner)
  | succ limit ih =>
    have hstep := heightBound_add_le_succ limit
    rcases Nat.lt_succ_iff_lt_or_eq.mp h with hlt | rfl
    · have hinner := ih hlt
      omega
    · exact hstep

theorem five_mul_le_heightBound (limit : Nat) : 5 * limit ≤ heightBound limit := by
  cases limit with
  | zero => exact Nat.le_refl 0
  | succ limit =>
    have hstep := heightBound_add_le_succ limit
    omega

theorem Nonterminal.chains_le (n : Nonterminal) : n.chains ≤ 5 := by
  rcases n with (_ | _ | _ | _ | _ | _) | _ | _ | _ <;> exact Nat.le_of_ble_eq_true rfl

theorem Nonterminal.chains_pos (n : Nonterminal) : 1 ≤ n.chains := by
  rcases n with (_ | _ | _ | _ | _ | _) | _ | _ | _ <;> exact Nat.le_of_ble_eq_true rfl

namespace Derivation

theorem count_le_charge {n : Nonterminal} (d : Derivation n) : d.count ≤ d.charge := by
  cases d with
  | @fold c left sign op spelled right =>
    rw [count, charge, Chain.opening]
    split <;> omega
  | _ => exact Nat.zero_le _

/-- An equality extends to the end of its group, so none stands before an operator. -/
theorem count_eq_zero {d : Derivation .comparison} {next : Kind} (hext : d.Extends next)
    (h : ¬ next.EndsGroup) : d.count = 0 := by
  cases d with
  | operand d => rfl
  | fold left sign op spelled right => exact absurd (hext.2.2 rfl) h

/-- What a chain's operand leaves for the chain. -/
theorem count_operand_le {c : Chain} (d : Derivation c.operand) {limit : Nat}
    (h : d.charge ≤ limit) :
    d.count + (Nonterminal.chain c).chains * limit ≤ c.operand.chains * limit := by
  have hcount := Nat.le_trans d.count_le_charge h
  cases c with
  | disjunction =>
    show d.count + 1 * limit ≤ 2 * limit
    omega
  | conjunction =>
    have hzero : d.count = 0 := by cases d <;> rfl
    rw [hzero, Nat.zero_add]
    exact Nat.le_refl _
  | equality =>
    show d.count + 2 * limit ≤ 3 * limit
    omega
  | order =>
    show d.count + 3 * limit ≤ 4 * limit
    omega
  | sum =>
    show d.count + 4 * limit ≤ 5 * limit
    omega
  | product =>
    have hzero : d.count = 0 := by cases d <;> rfl
    rw [hzero, Nat.zero_add]
    exact Nat.le_refl _

/-- A derivation within a limit has no higher tree than the bound.  Where it stands
before an operator, or binds tighter than an equality, its tree leaves room for the
chains that can stand on top of it. -/
theorem height_tree_le {n : Nonterminal} (d : Derivation n) {limit : Nat} {next : Kind}
    (hext : d.Extends next) (hcharge : d.charge ≤ limit) :
    d.tree.height ≤ heightBound limit ∧
      ((next.EndsGroup → 5 ≤ n.rank) →
        d.tree.height + n.chains * limit ≤ heightBound limit + d.count) := by
  -- By induction on the derivation.  The right operand of an operator has lost a level,
  -- which is worth five chains of `limit` operators; the left one has lost nothing, and
  -- the chain's own operators are paid by `chains`.
  induction d generalizing limit next with
  | @operand c d ih =>
    obtain ⟨hle, hroom⟩ := ih hext hcharge
    refine ⟨hle, fun h => ?_⟩
    have hd := hroom fun hend => by
      rw [c.rank_operand]
      exact Nat.le_succ_of_le (h hend)
    have hcount := count_operand_le d hcharge
    simp only [tree, count]
    omega
  | @fold c left sign op spelled right ihleft ihright =>
    obtain ⟨hleft, hright, hend⟩ := hext
    rw [charge] at hcharge
    have hsign : ¬ sign.EndsGroup := fun h => absurd ((h c).symm.trans spelled) (by simp)
    obtain ⟨-, hroom⟩ := ihleft hleft (Nat.le_trans (Nat.le_max_left _ _) hcharge)
    have hl := hroom fun h => absurd h hsign
    have hopening : c.opening left.count + right.charge ≤ limit :=
      Nat.le_trans (Nat.le_max_right _ _) hcharge
    have hrest : right.charge ≤ limit - c.opening left.count := by omega
    obtain ⟨hr, -⟩ := ihright hright hrest
    simp only [tree, count, Expr.height]
    by_cases hc : c = .equality
    · -- After an equality nothing stands on top of it in its group.
      subst hc
      simp only [Chain.opening, if_true, Nonterminal.chains] at hopening hr hl
      have hinner : heightBound (limit - (left.count + 2)) + 5 * limit ≤ heightBound limit :=
        heightBound_add_le (by omega)
      refine ⟨by omega, fun h => absurd (h (hend rfl)) (by decide)⟩
    · simp only [Chain.opening, if_neg hc] at hopening hr
      have hinner : heightBound (limit - (left.count + 1)) + 5 * limit ≤ heightBound limit :=
        heightBound_add_le (by omega)
      have hmost := Nat.mul_le_mul_right limit (Nonterminal.chain c).chains_le
      have hleast := Nat.mul_le_mul_right limit (Nonterminal.chain c).chains_pos
      exact ⟨by omega, fun _ => by omega⟩
  | negation d ih =>
    rw [charge] at hcharge
    obtain ⟨inner, rfl⟩ := Nat.exists_eq_add_of_le' (Nat.le_trans (Nat.le_add_left 1 _) hcharge)
    obtain ⟨hle, hroom⟩ := ih hext (Nat.le_of_succ_le_succ hcharge)
    have hstep := heightBound_add_le_succ inner
    simp only [tree, count, Expr.height]
    refine ⟨by omega, fun h => ?_⟩
    have hd := hroom fun hend => absurd (h hend) (by decide)
    have hcount := Nat.le_trans d.count_le_charge (Nat.le_of_succ_le_succ hcharge)
    simp only [Nonterminal.chains] at hd ⊢
    omega
  | unnegated d ih =>
    obtain ⟨hle, hroom⟩ := ih hext hcharge
    refine ⟨hle, fun h => ?_⟩
    have hnext : ¬ next.EndsGroup := fun hend => absurd (h hend) (by decide)
    have hd := hroom fun hend => absurd hend hnext
    rw [count_eq_zero hext hnext] at hd
    exact hd
  | signed sign op spelled d ih =>
    rw [charge] at hcharge
    obtain ⟨inner, rfl⟩ := Nat.exists_eq_add_of_le' (Nat.le_trans (Nat.le_add_left 1 _) hcharge)
    obtain ⟨-, hroom⟩ := ih hext (Nat.le_of_succ_le_succ hcharge)
    have hd := hroom fun _ => Nat.le_of_ble_eq_true rfl
    have hstep := heightBound_add_six_le inner
    have hcount : d.count = 0 := by cases d <;> rfl
    simp only [tree, count, Expr.height, Nonterminal.chains] at hd ⊢
    exact ⟨by omega, fun _ => by omega⟩
  | unsigned d ih =>
    obtain ⟨hle, hroom⟩ := ih hext hcharge
    have hcount : d.count = 0 := by cases d <;> rfl
    have hd := hroom fun _ => Nat.le_of_ble_eq_true rfl
    rw [hcount] at hd
    exact ⟨hle, fun _ => hd⟩
  | group d ih =>
    rw [charge] at hcharge
    obtain ⟨inner, rfl⟩ := Nat.exists_eq_add_of_le' (Nat.le_trans (Nat.le_add_left 1 _) hcharge)
    obtain ⟨hle, -⟩ := ih hext (Nat.le_of_succ_le_succ hcharge)
    have hstep := heightBound_add_le_succ inner
    simp only [tree, count, Nonterminal.chains]
    exact ⟨by omega, fun _ => by omega⟩
  | _ =>
    have hleaf := five_mul_le_heightBound limit
    simp only [tree, count, Expr.height, Nonterminal.chains, Nat.zero_add, Nat.add_zero]
    exact ⟨Nat.zero_le _, fun _ => hleaf⟩

end Derivation

end Linewise
