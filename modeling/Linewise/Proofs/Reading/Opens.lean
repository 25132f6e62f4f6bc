/-
The derivation behind a configuration.

* `Opens` — what the tokens before the next operand derive, frame by frame;
* `Opens.complete` — a derived operand goes up through the frames that end
  before the next token;
* `Opened.take?` — every token that is taken keeps the configuration derived;
* `exists_derivation` — what is read up to the end of an expression has a
  derivation in which equalities extend to the end of their groups.

Design notes: a frame is only asked which tokens opened it and how loose it is.
The tree inside it and its number of operators follow from `read?_word`.
-/
import Linewise.Proofs.Reading.Spine

namespace Linewise

open Linewise.Frame Linewise.Configuration

/-! ### Loosening -/

namespace Derivation

/-- A derivation counts as one of the next looser nonterminal too. -/
theorem exists_loosen {n : Nonterminal} (d : Derivation n) (h : 1 < n.rank) :
    ∃ (m : Nonterminal) (d' : Derivation m), m.rank + 1 = n.rank ∧ d'.word = d.word ∧
      (∀ next, d'.Extends next ↔ d.Extends next) ∧ d'.tree = d.tree ∧ d'.charge = d.charge := by
  rcases n with (_ | _ | _ | _ | _ | _) | _ | _ | _
  · exact absurd h (by decide)
  · exact ⟨.expression, @operand .disjunction d, rfl, rfl, fun _ => Iff.rfl, rfl, rfl⟩
  · exact ⟨.logicalFactor, unnegated d, rfl, rfl, fun _ => Iff.rfl, rfl, rfl⟩
  · exact ⟨.comparison, @operand .equality d, rfl, rfl, fun _ => Iff.rfl, rfl, rfl⟩
  · exact ⟨.relation, @operand .order d, rfl, rfl, fun _ => Iff.rfl, rfl, rfl⟩
  · exact ⟨.arithmetic, @operand .sum d, rfl, rfl, fun _ => Iff.rfl, rfl, rfl⟩
  · exact ⟨.logicalTerm, @operand .conjunction d, rfl, rfl, fun _ => Iff.rfl, rfl, rfl⟩
  · exact ⟨.term, @operand .product d, rfl, rfl, fun _ => Iff.rfl, rfl, rfl⟩
  · exact ⟨.factor, unsigned d, rfl, rfl, fun _ => Iff.rfl, rfl, rfl⟩

theorem rank_injective {m n : Nonterminal} (h : m.rank = n.rank) :
    m = n := by
  rcases m with (_ | _ | _ | _ | _ | _) | _ | _ | _ <;>
    rcases n with (_ | _ | _ | _ | _ | _) | _ | _ | _ <;>
    first | rfl | exact absurd h (by decide)

theorem exists_lift {m n : Nonterminal} (h : m.rank ≤ n.rank) (d : Derivation n) :
    ∃ d' : Derivation m, d'.word = d.word ∧ (∀ next, d'.Extends next ↔ d.Extends next) ∧
      d'.tree = d.tree ∧ d'.charge = d.charge := by
  -- By induction on the number of rules between the two.
  induction hk : n.rank - m.rank generalizing n with
  | zero =>
    obtain rfl := rank_injective (show m.rank = n.rank by omega)
    exact ⟨d, rfl, fun _ => Iff.rfl, rfl, rfl⟩
  | succ k ih =>
    have hm := m.one_le_rank
    obtain ⟨p, dp, hp, hword, hext, htree, hcharge⟩ := d.exists_loosen (by omega)
    obtain ⟨d', hword', hext', htree', hcharge'⟩ := ih (by omega) dp (by omega)
    exact ⟨d', hword'.trans hword, fun next => (hext' next).trans (hext next),
      htree'.trans htree, hcharge'.trans hcharge⟩

end Derivation

/-! ### Frames -/

/-- Whether the operand of a frame ends where the token `next` follows it. -/
def Frame.endsAt (next : Kind) (f : Frame) : Bool :=
  match next.binary? with
  | some op => f.endsBefore op
  | none => !f.isGroup

/-- The tokens `u` have opened the frames `fs`: each frame has the tokens that
derive what it holds, and fits into the frame around it. -/
inductive Opens : List Frame → List Kind → Prop
  | nil : Opens [] []
  | group {fs : List Frame} {u : List Kind} (h : Opens fs u) :
      Opens (.group :: fs) (u ++ [.leftParen])
  | negation {fs : List Frame} {u : List Kind} (h : Opens fs u) (hfs : innerRank fs ≤ 3) :
      Opens (.before .not :: fs) (u ++ [.not])
  | sign {fs : List Frame} {u : List Kind} {sign : Kind} {op : UnaryOp} (h : Opens fs u)
      (spelled : sign.sign? = some op) : Opens (.before op :: fs) (u ++ [sign])
  | chain {fs : List Frame} {u : List Kind} {c : Chain} {sign : Kind} {op : BinaryOp} {e : Expr}
      {count : Nat} (h : Opens fs u) (hfs : innerRank fs ≤ c.rank) (hc : c ≠ .equality)
      (left : Derivation (.chain c)) (spelled : c.operator? sign = some op)
      (hext : left.Extends sign) : Opens (.chain op e count :: fs) (u ++ left.word ++ [sign])
  | equality {fs : List Frame} {u : List Kind} {sign : Kind} {op : BinaryOp} {e : Expr}
      {count : Nat} (h : Opens fs u) (hfs : innerRank fs ≤ Chain.equality.rank)
      (left : Derivation .comparison) (spelled : Chain.equality.operator? sign = some op)
      (hext : left.Extends sign) :
      Opens (.rightSide :: .chain op e count :: fs) (u ++ left.word ++ [sign])

namespace Frame

theorem innerRank_le_eight (fs : List Frame) : innerRank fs ≤ 8 := by
  rcases fs with _ | ⟨_ | _ | op | ⟨op, e, count⟩, fs⟩
  · decide
  · exact Nat.le_of_ble_eq_true rfl
  · exact Nat.le_of_ble_eq_true rfl
  · cases op <;> exact Nat.le_of_ble_eq_true rfl
  · exact op.chain.rank_lt_eight

end Frame

/-- The tokens `w` open the frames `fs` and derive an operand that fits there and
that `next` does not continue from within. -/
def Derived (next : Kind) (fs : List Frame) (w : List Kind) : Prop :=
  ∃ (n : Nonterminal) (d : Derivation n) (u : List Kind), Opens fs u ∧ w = u ++ d.word ∧
    innerRank fs ≤ n.rank ∧ d.Extends next ∧
    ∀ op, next.binary? = some op → op.chain.rank < n.rank

/-- A derived operand completes the frames that end before the next token. -/
theorem Opens.complete {fs : List Frame} {u : List Kind} (h : Opens fs u) {n : Nonterminal}
    (d : Derivation n) (hfs : innerRank fs ≤ n.rank) {next : Kind} (hext : d.Extends next)
    (hrank : ∀ op, next.binary? = some op → op.chain.rank < n.rank) :
    Derived next (fs.dropWhile (endsAt next)) (u ++ d.word) := by
  -- By induction on the frames: one that ends makes its operand part of a larger
  -- derivation, which is the operand of the frames below it.
  induction h generalizing n with
  | nil => exact ⟨n, d, [], .nil, rfl, hfs, hext, hrank⟩
  | @group fs u h ih =>
    have hstop : endsAt next .group = false := by
      unfold endsAt
      split <;> rfl
    rw [List.dropWhile_cons_of_neg (by simp [hstop])]
    exact ⟨n, d, _, h.group, rfl, hfs, hext, hrank⟩
  | @negation fs u h hin ih =>
    by_cases hend : endsAt next (.before .not) = true
    · have hlogic : ∀ op, next.binary? = some op → op.chain.rank < 3 := by
        intro op hop
        simp only [endsAt, hop] at hend
        exact BinaryOp.isLogic_iff.mp hend
      obtain ⟨d', hword, hext', -⟩ := d.exists_lift (m := .comparison) hfs
      have hdone := ih (.negation d') hin ((hext' next).mpr hext) hlogic
      rw [Derivation.word, hword] at hdone
      rw [List.dropWhile_cons_of_pos hend, List.append_assoc]
      exact hdone
    · rw [List.dropWhile_cons_of_neg hend]
      exact ⟨n, d, _, h.negation hin, rfl, hfs, hext, hrank⟩
  | @sign fs u sign op h spelled ih =>
    by_cases hend : endsAt next (.before op) = true
    · have hrank' : ∀ op, next.binary? = some op → op.chain.rank < 8 := by
        intro op _
        exact op.chain.rank_lt_eight
      have hfactor : Nonterminal.factor.rank ≤ n.rank := by
        rw [innerRank, operandRank_sign spelled] at hfs
        exact hfs
      obtain ⟨d', hword, hext', -⟩ := d.exists_lift hfactor
      have hdone := ih (.signed sign op spelled d') (innerRank_le_eight fs)
        ((hext' next).mpr hext) hrank'
      rw [Derivation.word, hword] at hdone
      rw [List.dropWhile_cons_of_pos hend, List.append_assoc]
      exact hdone
    · rw [List.dropWhile_cons_of_neg hend]
      exact ⟨n, d, _, h.sign spelled, rfl, hfs, hext, hrank⟩
  | @chain fs u c sign op e count h hin hc left spelled hleft ih =>
    by_cases hend : endsAt next (.chain op e count) = true
    · obtain ⟨-, hchain⟩ := Chain.operator?_eq_some_iff.mp spelled
      have hrank' : ∀ op', next.binary? = some op' → op'.chain.rank < c.rank := by
        intro op' hop
        simp only [endsAt, hop, endsBefore, decide_eq_true_eq, BinaryOp.level_lt_level_iff,
          hchain] at hend
        exact hend
      have hright : c.rightOperand.rank ≤ n.rank := by
        rw [Chain.rightOperand_eq hc, c.rank_operand, ← hchain]
        exact hfs
      obtain ⟨d', hword, hext', -⟩ := d.exists_lift hright
      have hdone := ih (.fold left sign op spelled d') hin
        ⟨hleft, (hext' next).mpr hext, fun h => absurd h hc⟩ hrank'
      rw [Derivation.word, hword] at hdone
      rw [List.dropWhile_cons_of_pos hend]
      simpa using hdone
    · rw [List.dropWhile_cons_of_neg hend]
      exact ⟨n, d, _, h.chain hin hc left spelled hleft, rfl, hfs, hext, hrank⟩
  | @equality fs u sign op e count h hin left spelled hleft ih =>
    -- The right side of an equality ends where its group does, and only there.
    cases hnext : next.binary? with
    | none =>
      have hend : ∀ f : Frame, endsAt next f = !f.isGroup := by
        intro f
        simp only [endsAt, hnext]
      obtain ⟨d', hword, hext', -⟩ := d.exists_lift (m := .expression) hfs
      have hfold : (Derivation.fold left sign op spelled d').word =
          left.word ++ sign :: d.word := by
        rw [← hword]
        rfl
      have hdone := ih (.fold left sign op spelled d') hin
        ⟨hleft, (hext' next).mpr hext, fun _ => Kind.endsGroup_iff.mpr hnext⟩
        (by simp [hnext])
      rw [hfold] at hdone
      rw [List.dropWhile_cons_of_pos (by simp [hend, isGroup]),
        List.dropWhile_cons_of_pos (by simp [hend, isGroup])]
      simpa using hdone
    | some op' =>
      have hstop : endsAt next .rightSide = false := by simp [endsAt, hnext, endsBefore]
      rw [List.dropWhile_cons_of_neg (by simp [hstop])]
      exact ⟨n, d, _, h.equality hin left spelled hleft, rfl, hfs, hext, hrank⟩

/-! ### Configurations -/

/-- The tokens `u` are derived as far as the configuration has come. -/
def Opened (c : Configuration) (u : List Kind) : Prop :=
  match c.expected with
  | .operand negatable => Opens c.frames u ∧ (negatable = true → innerRank c.frames ≤ 3)
  | .rightSide _ => Opens (.rightSide :: c.frames) u
  | .operator _ => ∃ (v : List Kind) (p : Derivation .primary), Opens c.frames v ∧
      u = v ++ p.word ∧ ∀ next, p.Extends next

namespace Opened

variable {limit : Int} {c c' : Configuration} {t : Token} {u : List Kind}

/-- A derived primary completes the frames that end before the next token. -/
theorem complete {left : Expr} (h : Opened c u) (hleft : c.expected = .operator left)
    (next : Kind) : Derived next (c.frames.dropWhile (endsAt next)) u := by
  simp only [Opened, hleft] at h
  obtain ⟨v, p, hopens, rfl, hext⟩ := h
  refine hopens.complete p ?_ (hext next) ?_
  · exact Nat.le_succ_of_le (innerRank_le_eight _)
  · intro op _
    exact Nat.lt_succ_of_lt op.chain.rank_lt_eight

/-- Taking the start of an operand. -/
theorem shiftOperand {negatable : Bool} (hopens : Opens c.frames u)
    (hneg : negatable = true → innerRank c.frames ≤ 3)
    (hshift : c.shiftOperand limit negatable t = some (.ok c')) : Opened c' (u ++ [t.kind]) := by
  have hleaf : ∀ {e : Expr} (p : Derivation .primary), p.word = [t.kind] →
      (∀ next, p.Extends next) → Except.ok { c with expected := .operator e } =
        (Except.ok c' : Except ParseError Configuration) → Opened c' (u ++ [t.kind]) := by
    intro e p hp hext hc
    obtain rfl := Except.ok.inj hc
    exact ⟨u, p, hopens, by rw [hp], hext⟩
  have henter : ∀ {f : Frame} {inner : Bool}, Opens (f :: c.frames) (u ++ [t.kind]) →
      (inner = true → f.operandRank ≤ 3) →
      deepen limit t.column (.operand inner) (f :: c.frames) c.depth = .ok c' →
      Opened c' (u ++ [t.kind]) := by
    intro f inner hf hinner hc
    obtain ⟨-, rfl⟩ := deepen_eq_ok_iff.mp hc
    exact ⟨hf, hinner⟩
  unfold Configuration.shiftOperand at hshift
  split at hshift
  case h_1 s hk =>
    split at hshift
    · exact hleaf (.number s) (by simp [Derivation.word, hk]) (fun _ => trivial)
        (Option.some.inj hshift)
    · exact absurd hshift (by simp)
  case h_2 s hk =>
    exact hleaf (.text s) (by simp [Derivation.word, hk]) (fun _ => trivial)
      (Option.some.inj hshift)
  case h_3 b hk =>
    exact hleaf (.boolean b) (by simp [Derivation.word, hk]) (fun _ => trivial)
      (Option.some.inj hshift)
  case h_4 s hk =>
    exact hleaf (.name s) (by simp [Derivation.word, hk]) (fun _ => trivial)
      (Option.some.inj hshift)
  case h_5 hk =>
    refine henter ?_ (fun _ => Nat.le_of_ble_eq_true rfl) (Option.some.inj hshift)
    rw [hk]
    exact hopens.group
  case h_6 hk =>
    exact henter (hopens.sign (by simp [hk, Kind.sign?])) (by simp) (Option.some.inj hshift)
  case h_7 hk =>
    exact henter (hopens.sign (by simp [hk, Kind.sign?])) (by simp) (Option.some.inj hshift)
  case h_8 hk =>
    split at hshift
    · next hnegatable =>
      refine henter ?_ (by simp) (Option.some.inj hshift)
      rw [hk]
      exact hopens.negation (hneg hnegatable)
    · exact absurd hshift (by simp)
  case h_9 => exact absurd hshift (by simp)

/-- An operator after a derived chain opens its right operand. -/
theorem of_chain {fs : List Frame} {op : BinaryOp} {e : Expr} {count depth column : Nat}
    {sign : Kind} (hopens : Opens fs u) (hfs : innerRank fs ≤ op.chain.rank)
    (left : Derivation (.chain op.chain)) (spelled : op.chain.operator? sign = some op)
    (hext : left.Extends sign) :
    Opened ⟨if op.isEquality then .rightSide column else .operand op.isLogic,
      .chain op e count :: fs, depth⟩ (u ++ left.word ++ [sign]) := by
  by_cases hc : op.chain = .equality
  · rw [if_pos (BinaryOp.isEquality_iff.mpr hc)]
    -- The derivation depends on the chain, so it is generalized before the rewriting.
    revert left spelled
    rw [hc] at hfs ⊢
    intro left spelled hext
    exact hopens.equality hfs left spelled hext
  · rw [if_neg (fun h => hc (BinaryOp.isEquality_iff.mp h))]
    refine ⟨hopens.chain hfs hc left spelled hext, fun hlogic => ?_⟩
    exact BinaryOp.isLogic_iff.mp hlogic

/-- Taking an operator after a derived operand. -/
theorem shiftBinary {left : Expr} {op : BinaryOp} (h : Opened c u)
    (hleft : c.expected = .operator left) (hop : t.kind.binary? = some op)
    (hshift : c.shiftBinary limit op t.column left = .ok c') : Opened c' (u ++ [t.kind]) := by
  have hend : endsAt t.kind = (·.endsBefore op) := by
    funext f
    simp only [endsAt, hop]
  have hspelled : op.chain.operator? t.kind = some op := Chain.operator?_eq_some_iff.mpr ⟨hop, rfl⟩
  have hhead := List.head?_dropWhile_not (·.endsBefore op) c.frames
  obtain ⟨n, d, v, hopens, rfl, hinner, hext, hrank⟩ := h.complete hleft t.kind
  unfold Configuration.shiftBinary at hshift
  obtain ⟨-, rfl⟩ := deepen_eq_ok_iff.mp hshift
  clear hshift
  rw [hend] at hopens hinner
  -- From here on only the frames that do not end before the operator matter.
  generalize c.frames.dropWhile (·.endsBefore op) = around at hopens hinner hhead ⊢
  have hoperand : op.chain.operand.rank ≤ n.rank := by
    rw [op.chain.rank_operand]
    exact hrank op hop
  obtain ⟨d', hword, hext', -⟩ := d.exists_lift hoperand
  have hnew : ∀ {e : Expr} {count depth : Nat}, innerRank around ≤ op.chain.rank →
      Opened ⟨if op.isEquality then .rightSide t.column else .operand op.isLogic,
        .chain op e count :: around, depth⟩ (v ++ d.word ++ [t.kind]) := by
    intro e count depth hfs
    rw [← hword]
    exact of_chain hopens hfs (.operand d') hspelled ((hext' _).mpr hext)
  rcases around with _ | ⟨_ | _ | sign | ⟨own, first, count⟩, outer⟩
  · exact hnew op.chain.rank_pos
  · exact hnew op.chain.rank_pos
  · exact hnew op.chain.rank_pos
  · exact hnew (operandRank_le hhead fun _ _ _ h => absurd h (by simp))
  · by_cases hlevel : own.level = op.level
    · simp only [hlevel, if_true]
      have hchain : own.chain = op.chain := BinaryOp.level_eq_level_iff.mp hlevel
      cases hopens with
      | @chain _ w c sign _ _ _ hopens hfs hc before spelled hbefore =>
        -- The chain goes on: what was its right operand is folded into its left one.
        obtain rfl : op.chain = c :=
          hchain.symm.trans (Chain.operator?_eq_some_iff.mp spelled).2
        rw [← Chain.rightOperand_eq hc] at hoperand
        obtain ⟨d₂, hword₂, hext₂, -⟩ := d.exists_lift hoperand
        have hfold : (Derivation.fold before sign own spelled d₂).word =
            before.word ++ sign :: d.word := by rw [Derivation.word, hword₂]
        have hword₃ : w ++ before.word ++ [sign] ++ d.word =
            w ++ (Derivation.fold before sign own spelled d₂).word := by simp [hfold]
        rw [hword₃]
        exact of_chain hopens hfs (.fold before sign own spelled d₂) hspelled
          ⟨hbefore, (hext₂ _).mpr hext, fun h => absurd h hc⟩
    · simp only [hlevel, if_false]
      refine hnew (operandRank_le hhead ?_)
      rintro _ _ _ ⟨⟩
      exact hlevel

/-- Taking a closing parenthesis after a derived operand. -/
theorem shiftClosing {left : Expr} (h : Opened c u) (hleft : c.expected = .operator left)
    (ht : t.kind = .rightParen) (hshift : c.shiftClosing left = some c') :
    Opened c' (u ++ [t.kind]) := by
  have hend : endsAt t.kind = (!·.isGroup) := by
    funext f
    simp only [endsAt, ht, Kind.binary?]
  have hhead := List.head?_dropWhile_not (!·.isGroup) c.frames
  obtain ⟨n, d, v, hopens, rfl, hinner, hext, -⟩ := h.complete hleft t.kind
  rw [hend] at hopens hinner
  unfold Configuration.shiftClosing at hshift
  split at hshift
  · exact absurd hshift (by simp)
  · next opening outer haround =>
    obtain rfl := Option.some.inj hshift
    rw [haround] at hopens hinner hhead
    have hgroup : opening = .group := by
      cases opening <;> simp_all [isGroup]
    subst hgroup
    cases hopens with
    | group hopens =>
      obtain ⟨d', hword, hext', -⟩ := d.exists_lift (m := .expression) hinner
      rw [ht] at hext ⊢
      refine ⟨_, .group d', hopens, ?_, fun _ => (hext' _).mpr hext⟩
      rw [Derivation.word, hword]
      simp

theorem take? (h : Opened c u) (htake : c.take? limit t = some c') :
    Opened c' (u ++ [t.kind]) := by
  obtain ⟨expected, fs, depth⟩ := c
  cases expected with
  | operand negatable =>
    rw [take?_operand_iff] at htake
    exact shiftOperand h.1 h.2 htake
  | rightSide column =>
    obtain ⟨-, htake⟩ := take?_rightSide_iff.mp htake
    rw [take?_operand_iff] at htake
    exact shiftOperand (c := ⟨.operand true, .rightSide :: fs, depth + 1⟩) h
      (fun _ => Nat.le_of_ble_eq_true rfl) htake
  | operator left =>
    rw [take?_operator_iff] at htake
    simp only [shift?] at htake
    split at htake
    · next op hop => exact h.shiftBinary rfl hop (Option.some.inj htake)
    · split at htake
      · next ht =>
        obtain ⟨next, hnext, hok⟩ := Option.map_eq_some_iff.mp htake
        obtain rfl := Except.ok.inj hok
        exact h.shiftClosing rfl ht hnext
      · exact absurd htake (by simp)

theorem read? {ts : List Token} (h : Opened c u) (hread : c.read? limit ts = some c') :
    Opened c' (u ++ ts.map Token.kind) := by
  induction ts generalizing c u with
  | nil =>
    obtain rfl := Option.some.inj hread
    simpa using h
  | cons t ts ih =>
    obtain ⟨next, htake, hread⟩ := Option.bind_eq_some_iff.mp hread
    simpa using ih (h.take? htake) hread

end Opened

/-- What is read up to the end of an expression is derived from it, and every
equality in the derivation extends to the end of its group. -/
theorem exists_derivation {limit : Int} {depth : Nat} {ts : List Token} {c : Configuration}
    {next : Token} {e : Expr} (hread : (start depth).read? limit ts = some c)
    (hcomp : c.Completes next e) :
    ∃ d : Derivation .expression, d.word = ts.map Token.kind ∧ d.Extends next.kind := by
  have hstart : Opened (start depth) [] := ⟨.nil, fun _ => Nat.le_of_ble_eq_true rfl⟩
  obtain ⟨left, hleft, hnext, hgroup, -⟩ := hcomp
  obtain ⟨n, d, u, hopens, hword, hinner, hext, -⟩ := (hstart.read? hread).complete hleft next.kind
  -- Without an open parenthesis every frame ends here.
  have hnil : c.frames.dropWhile (endsAt next.kind) = [] := by
    rw [List.dropWhile_eq_nil_iff]
    intro f hf
    simp [endsAt, hnext, hgroup f hf]
  rw [hnil] at hopens hinner
  cases hopens with
  | nil =>
    obtain ⟨d', hword', hext', -⟩ := d.exists_lift (m := .expression) hinner
    exact ⟨d', hword'.trans hword.symm, (hext' _).mpr hext⟩

end Linewise
