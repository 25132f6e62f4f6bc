/-
Reading an expression, against the grammar.

* `tree_eq_of_word_eq` — among the derivations in which equalities extend to the
  end of their groups, the tokens determine the tree;
* `expression_eq_ok_iff` — exactly which expressions are read, from which tokens
  and within which limits;
* `expression_derives_tree` — what is read is derived from the grammar, and its
  tree is the only one that such a derivation has.
-/
import Linewise.Proofs.Reading.Opens

namespace Linewise

open Linewise.Frame Linewise.Configuration

namespace Derivation

theorem completes_after {d : Derivation .expression} {depth : Nat} {next : Token}
    (hnext : next.kind.EndsGroup) : (d.after [] depth).Completes next d.tree := by
  refine ⟨d.last, rfl, Kind.endsGroup_iff.mp hnext, ?_, ?_⟩
  · intro f hf
    rw [after, List.append_nil] at hf
    exact d.isGroup_frames f hf
  · rw [after, List.append_nil]
    exact d.completeAll_frames

/-- `read?_word` for the start of an expression. -/
theorem read?_start {d : Derivation .expression} {limit : Int} {depth : Nat} {next : Kind}
    {ts : List Token} {c : Configuration} (hext : d.Extends next)
    (hts : ts.map Token.kind = d.word) : (start depth).read? limit ts = some c ↔
      Readable d.word ∧ d.charge ≤ room limit depth ∧ c = d.after [] depth :=
  d.read?_word (Nat.le_refl 1) (fun _ => rfl) hext hts

section Unambiguous

variable {d d' : Derivation .expression} {next : Kind} (hword : d.word = d'.word)
  (hnum : Readable d.word) (hext : d.Extends next) (hext' : d'.Extends next)

include hword hnum hext hext'

/-- What is read of a word ends in the right spine of any of its derivations in which
equalities extend to the end of their groups. -/
theorem charge_le_and_after_eq_of_word_eq :
    d'.charge ≤ d.charge ∧ d'.after [] 0 = d.after [] 0 := by
  set ts : List Token := d.word.map (⟨·, 0⟩) with hts
  have hkinds : ts.map Token.kind = d.word := by
    simp [hts, Function.comp_def]
  have hroom : d.charge ≤ room (d.charge : Nat) 0 := Nat.le_of_eq (room_natCast_zero _).symm
  have hread := (read?_start hext hkinds).mpr ⟨hnum, hroom, rfl⟩
  obtain ⟨-, hcharge, hafter⟩ := (read?_start hext' (hkinds.trans hword)).mp hread
  rw [room_natCast_zero] at hcharge
  exact ⟨hcharge, hafter.symm⟩

/-- The grammar is unambiguous where equalities extend to the end of their groups. -/
theorem tree_eq_of_word_eq : d.tree = d'.tree := by
  obtain ⟨-, hafter⟩ := charge_le_and_after_eq_of_word_eq hword hnum hext hext'
  simp only [after, List.append_nil, Configuration.mk.injEq, Expected.operator.injEq] at hafter
  rw [← d.completeAll_frames, ← d'.completeAll_frames, hafter.1, hafter.2.1]

theorem charge_eq_of_word_eq : d.charge = d'.charge := by
  obtain ⟨hle, -⟩ := charge_le_and_after_eq_of_word_eq hword hnum hext hext'
  obtain ⟨hge, -⟩ := charge_le_and_after_eq_of_word_eq hword.symm (hword ▸ hnum) hext' hext
  exact Nat.le_antisymm hge hle

end Unambiguous

/-- A comparison counts as a whole expression. -/
def ofComparison (d : Derivation .comparison) : Derivation .expression :=
  @operand .disjunction (@operand .conjunction (unnegated d))

end Derivation

theorem Reader.expression_eq_ok_iff {r r' : Reader} {e : Expr} :
    r.expression = ⟨.ok e, r'⟩ ↔
      ∃ (d : Derivation .expression) (consumed rest : List Token) (next : Token),
        r.input.tokens = consumed ++ rest ∧ d.word = consumed.map Token.kind ∧
        r' = { r with input.tokens := rest } ∧ r'.input.current = .ok next ∧
        next.kind.EndsGroup ∧ d.Extends next.kind ∧ Readable d.word ∧
        d.charge ≤ room r.limit r.depth ∧ d.tree = e := by
  have hdepth : ∀ d : Derivation .expression, (d.after [] r.depth).outerDepth = r.depth := by
    intro d
    simp [outerDepth, Derivation.after]
  constructor
  -- What is read has a derivation, and `read?_word` for it says what the reading costs.
  · intro h
    set reading := (start r.depth).run r.limit r.input.ending r.input.tokens with hreading
    have hresult : reading = ⟨.ok e, reading.rest, reading.depth⟩ := by
      have hok : reading.result = .ok e := congrArg Attempt.result h
      rw [← hok]
    have hr' : r' = { r with input.tokens := reading.rest, depth := reading.depth } :=
      (congrArg Attempt.reader h).symm
    obtain ⟨consumed, c, next, htokens, hread, hnext, hcomp, hd⟩ :=
      run_eq_ok_iff.mp (hreading.symm.trans hresult)
    obtain ⟨d, hword, hext⟩ := exists_derivation hread hcomp
    obtain ⟨hnum, hcharge, rfl⟩ := (Derivation.read?_start hext hword.symm).mp hread
    obtain ⟨left, hleft, hend, hgroup, htree⟩ := hcomp
    rw [hdepth] at hd
    rw [hd] at hr'
    refine ⟨d, consumed, reading.rest, next, htokens, hword, hr', hr' ▸ hnext,
      Kind.endsGroup_iff.mpr hend, hext, hnum, hcharge, ?_⟩
    obtain rfl := Expected.operator.inj hleft
    rw [← htree, ← d.completeAll_frames, Derivation.after, List.append_nil]
  · rintro ⟨d, consumed, rest, next, htokens, hword, rfl, hnext, hend, hext, hnum, hcharge, rfl⟩
    have hread := (Derivation.read?_start hext hword.symm).mpr ⟨hnum, hcharge, rfl⟩
    have hrun := run_eq_ok_iff.mpr ⟨consumed, d.after [] r.depth, next, htokens, hread, hnext,
      Derivation.completes_after hend, rfl⟩
    rw [hdepth] at hrun
    simp only [Reader.expression, hrun]

/-- An expression that is read has a derivation from the tokens that were taken for
it, in which every equality extends to the end of its group, and any such
derivation has its tree.  So two equalities in one group bind to the right. -/
theorem Reader.expression_derives_tree {r r' : Reader} {e : Expr}
    (h : r.expression = ⟨.ok e, r'⟩) :
    ∃ (consumed : List Token) (next : Token),
      r.input.tokens = consumed ++ r'.input.tokens ∧ r'.input.ending = r.input.ending ∧
      r'.input.current = .ok next ∧ next.kind.EndsGroup ∧
      (∃ d : Derivation .expression,
        d.word = consumed.map Token.kind ∧ d.Extends next.kind ∧ d.tree = e) ∧
      (∀ d : Derivation .expression,
        d.word = consumed.map Token.kind → d.Extends next.kind → d.tree = e) ∧
      (∀ (x y : Derivation .relation) (z : Derivation .expression) (s₁ s₂ : Kind)
        (op₁ op₂ : BinaryOp), Chain.equality.operator? s₁ = some op₁ →
        Chain.equality.operator? s₂ = some op₂ →
        consumed.map Token.kind = x.word ++ s₁ :: (y.word ++ s₂ :: z.word) →
        x.Extends s₁ → y.Extends s₂ → z.Extends next.kind →
        e = .binary op₁ x.tree (.binary op₂ y.tree z.tree)) := by
  obtain ⟨d, consumed, rest, next, htokens, hword, rfl, hnext, hend, hext, hnum, -, rfl⟩ :=
    expression_eq_ok_iff.mp h
  have hunique : ∀ d' : Derivation .expression, d'.word = consumed.map Token.kind →
      d'.Extends next.kind → d'.tree = d.tree := by
    intro d' hword' hext'
    exact (Derivation.tree_eq_of_word_eq (hword.trans hword'.symm) hnum hext hext').symm
  refine ⟨consumed, next, htokens, rfl, hnext, hend, ⟨d, hword, hext, rfl⟩, hunique, ?_⟩
  intro x y z s₁ s₂ op₁ op₂ hop₁ hop₂ hkinds hx hy hz
  -- The second equality is the right side of the first one: the other grouping would
  -- end the first right side before an operator.
  let inner : Derivation .expression :=
    .ofComparison (@Derivation.fold .equality (.operand y) s₂ op₂ hop₂ z)
  let outer : Derivation .expression :=
    .ofComparison (@Derivation.fold .equality (.operand x) s₁ op₁ hop₁ inner)
  have hinner : inner.Extends next.kind := ⟨hy, hz, fun _ => hend⟩
  have houter : outer.Extends next.kind := ⟨hx, hinner, fun _ => hend⟩
  exact (hunique outer hkinds.symm houter).symm

/-- `a == b == c`, with two levels for each equality. -/
theorem Reader.expression_derives_tree_equalities :
    let r : Reader := ⟨⟨[⟨.name "a", 0⟩, ⟨.equal, 2⟩, ⟨.name "b", 5⟩, ⟨.equal, 7⟩,
      ⟨.name "c", 10⟩], .endOfLine 11⟩, 4, 0⟩
    let e : Expr := .binary (.compare .eq) (.var "a") (.binary (.compare .eq) (.var "b") (.var "c"))
    r.expression = ⟨.ok e, { r with input.tokens := [] }⟩ ∧
    ∃ (consumed : List Token) (next : Token), r.input.tokens = consumed ++ [] ∧
      ∃ d : Derivation .expression, d.word = consumed.map Token.kind ∧ d.Extends next.kind ∧
        d.tree = e := by
  intro r e
  have hread : r.expression = ⟨.ok e, { r with input.tokens := [] }⟩ := rfl
  obtain ⟨consumed, next, htokens, -, -, -, hd, -⟩ := Reader.expression_derives_tree hread
  exact ⟨hread, consumed, next, htokens, hd⟩

end Linewise
