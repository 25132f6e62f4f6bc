/-
What reading a derived word leaves on the stack.

* `Derivation.frames`, `Derivation.last` — the right spine of a derivation: the
  frames that are still open after its word, and the operand that was read last;
* `completeAll_frames` — completing the frames gives the tree of the derivation;
* `read?_word` — the word of a derivation is read exactly if its numbers are
  numerals and the limit leaves room for its charge, and then it pushes exactly
  the frames of its right spine.

Design notes: `read?_word` is an equivalence, so it decides at once that a word
is read, what the reading costs and that no other derivation of the word gives
another tree.
-/
import Linewise.Proofs.Grammar
import Linewise.Proofs.Reading.Steps

namespace Linewise

open Linewise.Frame Linewise.Configuration

/-! ### Frames and ranks -/

namespace Frame

/-- The loosest rank of what may stand in a frame. -/
def operandRank : Frame → Nat
  | group | rightSide => 1
  | before .not => 4
  | before _ => 8
  | chain op _ _ => op.chain.rank + 1

/-- The loosest rank of what may stand in a stack of frames. -/
def innerRank : List Frame → Nat
  | [] => 1
  | f :: _ => f.operandRank

theorem operandRank_sign {k : Kind} {op : UnaryOp} (h : k.sign? = some op) :
    (before op).operandRank = 8 := by
  cases k <;> simp [Kind.sign?] at h <;> subst h <;> rfl

theorem endsBefore_eq_false {f : Frame} {op : BinaryOp} (h : f.operandRank ≤ op.chain.rank) :
    f.endsBefore op = false := by
  cases f with
  | group => rfl
  | rightSide => rfl
  | before sign =>
    cases sign with
    | not =>
      have hlogic := op.isLogic_iff
      simp only [operandRank] at h
      simp only [endsBefore, Bool.eq_false_iff, ne_eq, hlogic]
      omega
    | plus | minus =>
      have hrank := op.chain.rank_lt_eight
      simp only [operandRank] at h
      omega
  | chain own left count =>
    simp only [operandRank] at h
    simp only [endsBefore, decide_eq_false_iff_not, BinaryOp.level_lt_level_iff]
    omega

/-- An operator that a frame does not end before fits into the frame, unless it
goes on with the frame's own chain. -/
theorem operandRank_le {f : Frame} {op : BinaryOp} (h : f.endsBefore op = false)
    (hchain : ∀ own left count, f = .chain own left count → own.level ≠ op.level) :
    f.operandRank ≤ op.chain.rank := by
  cases f with
  | group => exact op.chain.rank_pos
  | rightSide => exact op.chain.rank_pos
  | before sign =>
    cases sign with
    | not =>
      have hlogic : ¬ op.chain.rank < 3 := fun hlt => by
        rw [endsBefore, BinaryOp.isLogic_iff.mpr hlt] at h
        exact absurd h (by simp)
      revert hlogic
      simp only [operandRank]
      cases op.chain <;> decide
    | plus | minus => exact absurd h (by simp [endsBefore])
  | chain own left count =>
    have hne := hchain own left count rfl
    rw [ne_eq, BinaryOp.level_eq_level_iff] at hne
    simp only [endsBefore, decide_eq_false_iff_not, BinaryOp.level_lt_level_iff] at h
    have hrank : own.chain.rank ≠ op.chain.rank := fun heq => hne (Chain.rank_injective heq)
    simp only [operandRank]
    omega

theorem takeWhile_endsBefore {fs : List Frame} {op : BinaryOp}
    (h : innerRank fs ≤ op.chain.rank) : fs.takeWhile (·.endsBefore op) = [] := by
  cases fs with
  | nil => rfl
  | cons f fs => simp [endsBefore_eq_false h]

theorem dropWhile_endsBefore {fs : List Frame} {op : BinaryOp}
    (h : innerRank fs ≤ op.chain.rank) : fs.dropWhile (·.endsBefore op) = fs := by
  cases fs with
  | nil => rfl
  | cons f fs => simp [endsBefore_eq_false h]

theorem completeAll_append (fs gs : List Frame) (e : Expr) :
    completeAll (fs ++ gs) e = completeAll gs (completeAll fs e) := by
  rw [completeAll, List.foldl_append]
  rfl

end Frame

/-- The frames around the right operand of an operator of a chain. -/
def Chain.frames (c : Chain) (op : BinaryOp) (left : Expr) (count : Nat) : List Frame :=
  if c = .equality then [.rightSide, .chain op left (count + 1)] else [.chain op left (count + 1)]

theorem Chain.totalCost_frames (c : Chain) (op : BinaryOp) (left : Expr) (count : Nat) :
    totalCost (c.frames op left count) = c.opening count := by
  rw [Chain.frames, Chain.opening]
  split
  · simp only [totalCost_cons, totalCost_nil, Frame.cost]
    omega
  · rfl

theorem Chain.completeAll_frames (c : Chain) (op : BinaryOp) (left right : Expr) (count : Nat) :
    completeAll (c.frames op left count) right = .binary op left right := by
  rw [Chain.frames]
  split <;> rfl

namespace Derivation

/-! ### The right spine -/

/-- The frames that are open after the word of a derivation, innermost first. -/
def frames {n : Nonterminal} : Derivation n → List Frame
  | operand d => d.frames
  | @fold c left _ op _ right => right.frames ++ c.frames op left.tree left.count
  | negation d => d.frames ++ [.before .not]
  | unnegated d => d.frames
  | signed _ op _ d => d.frames ++ [.before op]
  | unsigned d => d.frames
  | number _ | boolean _ | text _ | group _ | name _ => []

/-- The operand at the end of a derivation. -/
def last {n : Nonterminal} : Derivation n → Expr
  | operand d => d.last
  | fold _ _ _ _ right => right.last
  | negation d => d.last
  | unnegated d => d.last
  | signed _ _ _ d => d.last
  | unsigned d => d.last
  | number s => .number s (Number.ofSpelling s)
  | boolean b => .boolean b
  | text s => .text s
  | group d => d.tree
  | name s => .var s

theorem completeAll_frames {n : Nonterminal} (d : Derivation n) :
    completeAll d.frames d.last = d.tree := by
  induction d with
  | operand d ih => exact ih
  | fold left sign op spelled right _ ih =>
    rw [frames, last, completeAll_append, ih, Chain.completeAll_frames, tree]
  | negation d ih => rw [frames, last, completeAll_append, ih, tree]; rfl
  | unnegated d ih => exact ih
  | signed sign op spelled d ih => rw [frames, last, completeAll_append, ih, tree]; rfl
  | unsigned d ih => exact ih
  | number s => rfl
  | boolean b => rfl
  | text s => rfl
  | group d _ => rfl
  | name s => rfl

/-- A derivation leaves no parenthesis open. -/
theorem isGroup_frames {n : Nonterminal} (d : Derivation n) :
    ∀ f ∈ d.frames, f.isGroup = false := by
  induction d with
  | operand d ih => exact ih
  | @fold c left sign op spelled right _ ih =>
    intro f hf
    rw [frames, Chain.frames] at hf
    rcases List.mem_append.mp hf with hf | hf
    · exact ih f hf
    · split at hf <;> simp at hf
      · rcases hf with rfl | rfl <;> rfl
      · subst hf
        rfl
  | negation d ih =>
    intro f hf
    rcases List.mem_append.mp hf with hf | hf
    · exact ih f hf
    · rw [List.mem_singleton.mp hf]
      rfl
  | unnegated d ih => exact ih
  | signed sign op spelled d ih =>
    intro f hf
    rcases List.mem_append.mp hf with hf | hf
    · exact ih f hf
    · rw [List.mem_singleton.mp hf]
      rfl
  | unsigned d ih => exact ih
  | number s => simp [frames]
  | boolean b => simp [frames]
  | text s => simp [frames]
  | group d _ => simp [frames]
  | name s => simp [frames]

/-- The frames of a derivation end before an operator that is looser than the
derivation, unless an equality has to extend beyond it. -/
theorem endsBefore_frames {n : Nonterminal} (d : Derivation n) {next : Kind} {op : BinaryOp}
    (hext : d.Extends next) (hop : next.binary? = some op) (hrank : op.chain.rank < n.rank) :
    ∀ f ∈ d.frames, f.endsBefore op = true := by
  induction d with
  | @operand c d ih =>
    refine ih hext ?_
    rw [c.rank_operand]
    exact Nat.lt_succ_of_lt hrank
  | @fold c left sign own spelled right _ ih =>
    obtain ⟨-, hright, hend⟩ := hext
    by_cases hc : c = .equality
    · have hnone := Kind.endsGroup_iff.mp (hend hc)
      exact absurd (hnone.symm.trans hop) (by simp)
    · intro f hf
      rw [frames, Chain.frames, if_neg hc] at hf
      rcases List.mem_append.mp hf with hf | hf
      · refine ih hright ?_ f hf
        rw [Chain.rightOperand_eq hc, c.rank_operand]
        exact Nat.lt_succ_of_lt hrank
      · obtain ⟨-, rfl⟩ := Chain.operator?_eq_some_iff.mp spelled
        rw [List.mem_singleton.mp hf]
        exact decide_eq_true (BinaryOp.level_lt_level_iff.mpr hrank)
  | negation d ih =>
    intro f hf
    have hlogic : op.chain.rank < 3 := hrank
    rcases List.mem_append.mp hf with hf | hf
    · exact ih hext (Nat.lt_succ_of_lt hrank) f hf
    · rw [List.mem_singleton.mp hf]
      exact BinaryOp.isLogic_iff.mpr hlogic
  | unnegated d ih => exact ih hext (Nat.lt_succ_of_lt hrank)
  | signed sign own spelled d ih =>
    intro f hf
    rcases List.mem_append.mp hf with hf | hf
    · exact ih hext hrank f hf
    · rw [List.mem_singleton.mp hf]
      cases sign <;> simp [Kind.sign?] at spelled <;> subst spelled <;> rfl
  | unsigned d ih => exact ih hext (Nat.lt_succ_of_lt hrank)
  | number s => simp [frames]
  | boolean b => simp [frames]
  | text s => simp [frames]
  | group d _ => simp [frames]
  | name s => simp [frames]

end Derivation

/-! ### Single tokens -/

namespace Configuration

variable {limit : Int} {c' : Configuration} {t : Token} {fs : List Frame} {depth : Nat}

/-- A token that opens a level where an operand is expected. -/
theorem take?_of_enter {negatable inner : Bool} {f : Frame}
    (h : (⟨.operand negatable, fs, depth⟩ : Configuration).shiftOperand limit negatable t =
      some (deepen limit t.column (.operand inner) (f :: fs) depth)) :
    (⟨.operand negatable, fs, depth⟩ : Configuration).take? limit t = some c' ↔
      0 < room limit depth ∧ c' = ⟨.operand inner, f :: fs, depth + 1⟩ := by
  rw [take?_operand_iff, h, Option.some_inj, deepen_eq_ok_iff]

/-- A token that is an operand by itself. -/
theorem take?_of_operand {negatable : Bool} {e : Expr}
    (h : (⟨.operand negatable, fs, depth⟩ : Configuration).shiftOperand limit negatable t =
      some (.ok ⟨.operator e, fs, depth⟩)) :
    (⟨.operand negatable, fs, depth⟩ : Configuration).take? limit t = some c' ↔
      c' = ⟨.operator e, fs, depth⟩ := by
  rw [take?_operand_iff, h, Option.some_inj, Except.ok.injEq]
  exact eq_comm

theorem take?_number {negatable : Bool} {s : String} (ht : t.kind = .number s) :
    (⟨.operand negatable, fs, depth⟩ : Configuration).take? limit t = some c' ↔
      (Number.read? s).isSome ∧ c' = ⟨.operator (.number s (Number.ofSpelling s)), fs, depth⟩ := by
  cases hs : Number.read? s with
  | none =>
    rw [take?_operand_iff]
    simp [shiftOperand, ht, hs]
  | some value =>
    have hvalue : Number.ofSpelling s = value := by rw [Number.ofSpelling, hs]; rfl
    rw [hvalue, take?_of_operand (e := .number s value)]
    · simp
    · simp only [shiftOperand, ht, hs]

/-- A closing parenthesis completes the group around a derived expression. -/
theorem take?_rightParen {d : Derivation .expression} (ht : t.kind = .rightParen) :
    (⟨.operator d.last, d.frames ++ .group :: fs, depth + 1 + totalCost d.frames⟩ :
      Configuration).take? limit t = some c' ↔ c' = ⟨.operator d.tree, fs, depth⟩ := by
  have hframes : ∀ f ∈ d.frames, (!f.isGroup) = true := fun f hf => by
    rw [d.isGroup_frames f hf]
    rfl
  have hended : (d.frames ++ .group :: fs).takeWhile (!·.isGroup) = d.frames := by
    rw [List.takeWhile_append_of_pos hframes]
    simp [isGroup]
  have haround : (d.frames ++ .group :: fs).dropWhile (!·.isGroup) = .group :: fs := by
    rw [List.dropWhile_append_of_pos hframes]
    simp [isGroup]
  have hdepth : depth + 1 + totalCost d.frames - totalCost d.frames - 1 = depth := by omega
  rw [take?_operator_iff]
  simp only [shift?, ht, Kind.binary?, if_true, shiftClosing, hended, haround, Frame.cost, hdepth,
    d.completeAll_frames, Option.map_some, Option.some.injEq, Except.ok.injEq]
  exact eq_comm

/-! #### Operators -/

variable {op : BinaryOp} {expected : Expected} {column : Nat} {left : Expr}

/-- The frames that end before an operator may be completed before it is taken. -/
theorem shiftBinary_append {gs : List Frame} (hgs : ∀ f ∈ gs, f.endsBefore op = true) :
    (⟨expected, gs ++ fs, depth + totalCost gs⟩ : Configuration).shiftBinary limit op column left =
      (⟨expected, fs, depth⟩ : Configuration).shiftBinary limit op column
        (completeAll gs left) := by
  have hdepth : ∀ hs : List Frame,
      depth + totalCost gs - totalCost (gs ++ hs) = depth - totalCost hs := by
    intro hs
    rw [totalCost_append]
    omega
  simp only [shiftBinary, List.takeWhile_append_of_pos hgs, List.dropWhile_append_of_pos hgs,
    completeAll_append, hdepth]

/-- An operator starts a chain where an operand of its chain may stand. -/
theorem shiftBinary_start (hfs : innerRank fs ≤ op.chain.rank) :
    (⟨expected, fs, depth⟩ : Configuration).shiftBinary limit op column left =
      deepen limit column (if op.isEquality then .rightSide column else .operand op.isLogic)
        (.chain op left 1 :: fs) depth := by
  simp only [shiftBinary, takeWhile_endsBefore hfs, dropWhile_endsBefore hfs, completeAll_nil,
    totalCost_nil, Nat.sub_zero]
  rcases fs with _ | ⟨_ | _ | _ | ⟨own, first, count⟩, fs⟩
  · rfl
  · rfl
  · rfl
  · rfl
  · -- Were the frame of the same chain, the operand would not fit into it.
    have hne : own.level ≠ op.level := by
      intro h
      rw [BinaryOp.level_eq_level_iff] at h
      simp only [innerRank, operandRank, h] at hfs
      omega
    simp only [if_neg hne]

/-- An operator goes on with the chain that it belongs to. -/
theorem shiftBinary_chain {own : BinaryOp} {first : Expr} {count : Nat}
    (hown : own.chain = op.chain) :
    (⟨expected, .chain own first count :: fs, depth⟩ : Configuration).shiftBinary limit op column
        left =
      deepen limit column (if op.isEquality then .rightSide column else .operand op.isLogic)
        (.chain op (.binary own first left) (count + 1) :: fs) depth := by
  have hlevel : own.level = op.level := BinaryOp.level_eq_level_iff.mpr hown
  have hstop : (Frame.chain own first count).endsBefore op = false := by
    simp [endsBefore, hlevel]
  simp only [shiftBinary, List.takeWhile_cons, List.dropWhile_cons, hstop, Bool.false_eq_true,
    if_false, completeAll_nil, totalCost_nil, Nat.sub_zero, hlevel, if_true]

/-- An operator of a chain completes what binds tighter and leaves one frame for
the chain so far. -/
theorem shiftBinary_word {c : Chain} {left : Derivation (.chain c)} {sign : Kind}
    (hop : c.operator? sign = some op) (hext : left.Extends sign) (hfs : innerRank fs ≤ c.rank) :
    (⟨expected, left.frames ++ fs, depth + totalCost left.frames⟩ : Configuration).shiftBinary
        limit op column left.last =
      deepen limit column (if op.isEquality then .rightSide column else .operand op.isLogic)
        (.chain op left.tree (left.count + 1) :: fs) (depth + left.count) := by
  obtain ⟨hbin, rfl⟩ := Chain.operator?_eq_some_iff.mp hop
  cases left with
  | operand d =>
    have hended : ∀ f ∈ d.frames, f.endsBefore op = true :=
      d.endsBefore_frames hext hbin (by rw [Chain.rank_operand]; exact Nat.lt_succ_self _)
    simp only [Derivation.frames, Derivation.last, Derivation.count, Derivation.tree]
    rw [shiftBinary_append hended, d.completeAll_frames, shiftBinary_start hfs]
    rfl
  | fold left sign' own spelled right =>
    obtain ⟨-, hright, hend⟩ := hext
    obtain ⟨hbin', hown⟩ := Chain.operator?_eq_some_iff.mp spelled
    have hc : op.chain ≠ .equality := by
      intro h
      have hnone := Kind.endsGroup_iff.mp (hend h)
      exact absurd (hnone.symm.trans hbin) (by simp)
    have hended : ∀ f ∈ right.frames, f.endsBefore op = true := by
      refine right.endsBefore_frames hright hbin ?_
      rw [Chain.rightOperand_eq hc, Chain.rank_operand]
      exact Nat.lt_succ_self _
    have hdepth : depth + totalCost (right.frames ++ [.chain own left.tree (left.count + 1)]) =
        depth + (left.count + 1) + totalCost right.frames := by
      simp only [totalCost_append, totalCost_cons, totalCost_nil, Frame.cost]
      omega
    simp only [Derivation.frames, Chain.frames, if_neg hc, Derivation.last, Derivation.count,
      Derivation.tree, hdepth]
    rw [List.append_assoc, shiftBinary_append hended, right.completeAll_frames]
    exact shiftBinary_chain hown

end Configuration

/-! ### Whole words -/

namespace Derivation

theorem word_ne_nil {n : Nonterminal} (d : Derivation n) : d.word ≠ [] := by
  induction d with
  | operand d ih => exact ih
  | fold left sign op spelled right _ _ => simp [word]
  | unnegated d ih => exact ih
  | unsigned d ih => exact ih
  | negation d _ | signed sign op spelled d _ | number s | boolean b | text s | group d _
  | name s => simp [word]

/-- The configuration after the word of a derivation. -/
def after {n : Nonterminal} (d : Derivation n) (fs : List Frame) (depth : Nat) : Configuration :=
  ⟨.operator d.last, d.frames ++ fs, depth + totalCost d.frames⟩

/-- Reading on after a token that opens a level. -/
theorem read?_enter {limit : Int} {negatable inner : Bool} {f : Frame} {fs : List Frame}
    {depth : Nat} {t : Token} {ts : List Token} {c' : Configuration}
    (h : (⟨.operand negatable, fs, depth⟩ : Configuration).shiftOperand limit negatable t =
      some (deepen limit t.column (.operand inner) (f :: fs) depth)) :
    (⟨.operand negatable, fs, depth⟩ : Configuration).read? limit (t :: ts) = some c' ↔
      0 < room limit depth ∧
        (⟨.operand inner, f :: fs, depth + 1⟩ : Configuration).read? limit ts = some c' := by
  rw [read?_cons, Option.bind_eq_some_iff]
  constructor
  · rintro ⟨next, htake, hread⟩
    obtain ⟨hroom, rfl⟩ := (take?_of_enter h).mp htake
    exact ⟨hroom, hread⟩
  · rintro ⟨hroom, hread⟩
    exact ⟨_, (take?_of_enter h).mpr ⟨hroom, rfl⟩, hread⟩

/-- Reading on after a sign or a negation, where `d` derives its operand. -/
theorem read?_before {n : Nonterminal} {d : Derivation n} {limit : Int} {negatable : Bool}
    {op : UnaryOp} {fs : List Frame} {depth : Nat} {t : Token} {ts : List Token}
    {c' : Configuration}
    (h : (⟨.operand negatable, fs, depth⟩ : Configuration).shiftOperand limit negatable t =
      some (deepen limit t.column (.operand false) (.before op :: fs) depth))
    (hnum : ∀ s, t.kind ≠ .number s)
    (ih : (⟨.operand false, .before op :: fs, depth + 1⟩ : Configuration).read? limit ts =
      some c' ↔ Readable d.word ∧ d.charge ≤ room limit (depth + 1) ∧
        c' = d.after (.before op :: fs) (depth + 1)) :
    (⟨.operand negatable, fs, depth⟩ : Configuration).read? limit (t :: ts) = some c' ↔
      Readable (t.kind :: d.word) ∧ d.charge + 1 ≤ room limit depth ∧
        c' = ⟨.operator d.last, (d.frames ++ [.before op]) ++ fs,
          depth + totalCost (d.frames ++ [.before op])⟩ := by
  have hroom := room_add limit depth 1
  have hafter : d.after (.before op :: fs) (depth + 1) = ⟨.operator d.last,
      (d.frames ++ [.before op]) ++ fs, depth + totalCost (d.frames ++ [.before op])⟩ := by
    simp [after, Frame.cost, Nat.add_assoc, Nat.add_comm 1]
  rw [read?_enter h, ih, readable_cons hnum, hafter]
  constructor
  · rintro ⟨hpos, hread, hcharge, rfl⟩
    exact ⟨hread, by omega, rfl⟩
  · rintro ⟨hread, hcharge, rfl⟩
    exact ⟨by omega, hread, by omega, rfl⟩

theorem shiftOperand_sign {c : Configuration} {limit : Int} {negatable : Bool} {op : UnaryOp}
    {t : Token} (h : t.kind.sign? = some op) : c.shiftOperand limit negatable t =
      some (deepen limit t.column (.operand false) (.before op :: c.frames) c.depth) := by
  cases hk : t.kind <;> simp [Kind.sign?, hk] at h <;> subst h
  · simp only [shiftOperand, hk]
  · simp only [shiftOperand, hk]

/-- Reading a token that is an operand by itself, other than a number. -/
theorem read?_leaf {limit : Int} {negatable : Bool} {e : Expr} {fs : List Frame} {depth : Nat}
    {t : Token} {c' : Configuration}
    (h : (⟨.operand negatable, fs, depth⟩ : Configuration).shiftOperand limit negatable t =
      some (.ok ⟨.operator e, fs, depth⟩))
    (hnum : ∀ s, t.kind ≠ .number s) :
    (⟨.operand negatable, fs, depth⟩ : Configuration).read? limit [t] = some c' ↔
      Readable [t.kind] ∧ 0 ≤ room limit depth ∧ c' = ⟨.operator e, fs, depth⟩ := by
  rw [read?_singleton, take?_of_operand h]
  exact ⟨fun hc => ⟨readable_singleton hnum, Nat.zero_le _, hc⟩, fun hc => hc.2.2⟩

/-- Reading on after an operator of a chain: what follows is read in the frames
around the operator's right operand. -/
theorem read?_operator {limit : Int} {c : Chain} {left : Derivation (.chain c)} {op : BinaryOp}
    {fs : List Frame} {depth : Nat} {t : Token} {ts : List Token} {c' : Configuration}
    (hop : c.operator? t.kind = some op) (hext : left.Extends t.kind)
    (hfs : innerRank fs ≤ c.rank) (hts : ts ≠ []) :
    (left.after fs depth).read? limit (t :: ts) = some c' ↔
      c.opening left.count ≤ room limit depth ∧
        (⟨.operand (op.isEquality || op.isLogic), c.frames op left.tree left.count ++ fs,
          depth + c.opening left.count⟩ : Configuration).read? limit ts = some c' := by
  obtain ⟨hbin, hchain⟩ := Chain.operator?_eq_some_iff.mp hop
  have hroom := room_add limit depth left.count
  have hshift : (left.after fs depth).shift? limit t =
      some (deepen limit t.column (if op.isEquality then .rightSide t.column
        else .operand op.isLogic) (.chain op left.tree (left.count + 1) :: fs)
        (depth + left.count)) := by
    simp only [after, shift?, hbin, shiftBinary_word hop hext hfs]
  have hstep : (left.after fs depth).read? limit (t :: ts) = some c' ↔
      0 < room limit (depth + left.count) ∧
        (⟨if op.isEquality then .rightSide t.column else .operand op.isLogic,
          .chain op left.tree (left.count + 1) :: fs, depth + left.count + 1⟩ :
          Configuration).read? limit ts = some c' := by
    rw [read?_cons, Option.bind_eq_some_iff]
    constructor
    · rintro ⟨next, htake, hread⟩
      rw [after, take?_operator_iff, ← after, hshift, Option.some_inj, deepen_eq_ok_iff] at htake
      obtain ⟨hdepth, rfl⟩ := htake
      exact ⟨hdepth, hread⟩
    · rintro ⟨hdepth, hread⟩
      refine ⟨_, ?_, hread⟩
      rw [after, take?_operator_iff, ← after, hshift, Option.some_inj, deepen_eq_ok_iff]
      exact ⟨hdepth, rfl⟩
  rw [hstep]
  -- An equality opens a second level when its right side starts.
  by_cases heq : op.isEquality = true
  · have hc : c = .equality := hchain.symm.trans (BinaryOp.isEquality_iff.mp heq)
    have hroom' := room_add limit (depth + left.count) 1
    obtain ⟨u, us, rfl⟩ := List.exists_cons_of_ne_nil hts
    simp only [heq, if_true, Bool.true_or, read?_cons, Option.bind_eq_some_iff,
      take?_rightSide_iff, Chain.frames, Chain.opening, hc, List.cons_append, List.nil_append]
    constructor
    · rintro ⟨hone, next, ⟨htwo, htake⟩, hread⟩
      exact ⟨by omega, next, htake, hread⟩
    · rintro ⟨htwo, next, htake, hread⟩
      exact ⟨by omega, next, ⟨by omega, htake⟩, hread⟩
  · have hc : c ≠ .equality := fun hc => heq (BinaryOp.isEquality_iff.mpr (hchain.trans hc))
    simp only [Bool.not_eq_true] at heq
    simp only [heq, Bool.false_eq_true, if_false, Bool.false_or, Chain.frames, Chain.opening, hc,
      List.singleton_append]
    refine and_congr_left fun _ => ?_
    omega

theorem innerRank_frames {c : Chain} {op : BinaryOp} (hop : op.chain = c) (left : Expr)
    (count : Nat) (fs : List Frame) :
    innerRank (c.frames op left count ++ fs) ≤ c.rightOperand.rank := by
  rw [Chain.frames]
  split
  · next hc =>
    rw [hc]
    exact Nat.le_refl 1
  · next hc =>
    rw [Chain.rightOperand_eq hc, c.rank_operand, ← hop]
    exact Nat.le_refl _

theorem isLogic_of_rank_rightOperand {op : BinaryOp} (h : op.chain.rightOperand.rank ≤ 3) :
    (op.isEquality || op.isLogic) = true := by
  by_cases hc : op.chain = .equality
  · simp [BinaryOp.isEquality_iff.mpr hc]
  · rw [Chain.rightOperand_eq hc, Chain.rank_operand] at h
    simp [BinaryOp.isLogic_iff.mpr (show op.chain.rank < 3 by omega)]

/-- The word of a derivation is read exactly if its numbers are numerals and the
limit leaves room for its charge. -/
theorem read?_word {n : Nonterminal} (d : Derivation n) {limit : Int} {fs : List Frame}
    {depth : Nat} {negatable : Bool} {next : Kind} {ts : List Token} {c' : Configuration}
    (hfs : innerRank fs ≤ n.rank) (hneg : n.rank ≤ 3 → negatable = true)
    (hext : d.Extends next) (hts : ts.map Token.kind = d.word) :
    (⟨.operand negatable, fs, depth⟩ : Configuration).read? limit ts = some c' ↔
      Readable d.word ∧ d.charge ≤ room limit depth ∧ c' = d.after fs depth := by
  -- By induction on the derivation.  `hfs` says that no frame below can take part of
  -- the word, so the frames of the spine are pushed on top of them.
  induction d generalizing fs depth negatable next ts c' with
  | @operand c d ih =>
    have hrank := c.rank_operand
    have hc : (Nonterminal.chain c).rank = c.rank := rfl
    exact ih (by omega) (fun h => hneg (by omega)) hext hts
  | @fold c left sign op spelled right ihleft ihright =>
    obtain ⟨hleft, hright, hend⟩ := hext
    obtain ⟨ls, rs, rfl, hls, hrs⟩ := List.map_eq_append_iff.mp hts
    obtain ⟨t, us, rfl, rfl, hus⟩ := List.map_eq_cons_iff.mp hrs
    have hne : us ≠ [] := by
      rintro rfl
      exact right.word_ne_nil hus.symm
    obtain ⟨-, hchain⟩ := Chain.operator?_eq_some_iff.mp spelled
    have hword : Readable (fold left t.kind op spelled right).word ↔
        Readable left.word ∧ Readable right.word := by
      rw [word, readable_append, readable_cons (Chain.operator_ne_number spelled)]
    have hafter : right.after (c.frames op left.tree left.count ++ fs)
        (depth + c.opening left.count) = (fold left t.kind op spelled right).after fs depth := by
      simp only [after, last, frames, List.append_assoc, totalCost_append,
        Chain.totalCost_frames]
      rw [Nat.add_assoc, Nat.add_comm (c.opening left.count)]
    have hroom := room_add limit depth (c.opening left.count)
    -- The left operand, the operator and the right operand are read in turn.
    rw [read?_append, Option.bind_eq_some_iff, hword, ← hafter]
    constructor
    · rintro ⟨mid, hmid, hread⟩
      obtain ⟨hnum, hcharge, rfl⟩ := (ihleft hfs hneg hleft hls).mp hmid
      obtain ⟨hopening, hread⟩ := (read?_operator spelled hleft hfs hne).mp hread
      obtain ⟨hnum', hcharge', rfl⟩ := (ihright (innerRank_frames hchain _ _ _)
        (fun h => isLogic_of_rank_rightOperand (hchain ▸ h)) hright hus).mp hread
      refine ⟨⟨hnum, hnum'⟩, ?_, rfl⟩
      rw [charge]
      omega
    · rintro ⟨⟨hnum, hnum'⟩, hcharge, rfl⟩
      rw [charge] at hcharge
      refine ⟨_, (ihleft hfs hneg hleft hls).mpr ⟨hnum, by omega, rfl⟩, ?_⟩
      refine (read?_operator spelled hleft hfs hne).mpr ⟨by omega, ?_⟩
      exact (ihright (innerRank_frames hchain _ _ _)
        (fun h => isLogic_of_rank_rightOperand (hchain ▸ h)) hright hus).mpr
        ⟨hnum', by omega, rfl⟩
  | negation d ih =>
    obtain ⟨t, us, rfl, ht, hus⟩ := List.map_eq_cons_iff.mp hts
    obtain rfl := hneg (Nat.le_refl 3)
    rw [word, ← ht]
    refine read?_before (by simp [shiftOperand, ht]) (by simp [ht]) ?_
    exact ih (show innerRank (.before .not :: fs) ≤ 4 from Nat.le_refl 4)
      (fun h => absurd h (by decide)) hext hus
  | unnegated d ih =>
    exact ih (Nat.le_succ_of_le hfs) (fun h => hneg (Nat.le_of_succ_le h)) hext hts
  | signed sign op spelled d ih =>
    obtain ⟨t, us, rfl, rfl, hus⟩ := List.map_eq_cons_iff.mp hts
    have hinner : innerRank (.before op :: fs) ≤ Nonterminal.factor.rank :=
      Nat.le_of_eq (operandRank_sign spelled)
    refine read?_before (shiftOperand_sign spelled) (Kind.sign_ne_number spelled) ?_
    exact ih hinner (fun h => absurd h (by decide)) hext hus
  | unsigned d ih =>
    exact ih (Nat.le_succ_of_le hfs) (fun h => hneg (Nat.le_of_succ_le h)) hext hts
  | number s =>
    obtain ⟨t, us, rfl, ht, hus⟩ := List.map_eq_cons_iff.mp hts
    obtain rfl := List.map_eq_nil_iff.mp hus
    rw [read?_singleton, take?_number ht, word, readable_number]
    simp [charge, after, last, frames]
  | boolean b =>
    obtain ⟨t, us, rfl, ht, hus⟩ := List.map_eq_cons_iff.mp hts
    obtain rfl := List.map_eq_nil_iff.mp hus
    rw [word, ← ht]
    exact read?_leaf (by simp only [shiftOperand, ht, last]) (by simp [ht])
  | text s =>
    obtain ⟨t, us, rfl, ht, hus⟩ := List.map_eq_cons_iff.mp hts
    obtain rfl := List.map_eq_nil_iff.mp hus
    rw [word, ← ht]
    exact read?_leaf (by simp only [shiftOperand, ht, last]) (by simp [ht])
  | group d ih =>
    obtain ⟨t, us, rfl, ht, hus⟩ := List.map_eq_cons_iff.mp hts
    obtain ⟨is, cs, rfl, his, hcs⟩ := List.map_eq_append_iff.mp hus
    obtain ⟨u, vs, rfl, hu, hvs⟩ := List.map_eq_cons_iff.mp hcs
    obtain rfl := List.map_eq_nil_iff.mp hvs
    have hroom := room_add limit depth 1
    have hinner : innerRank (.group :: fs) ≤ Nonterminal.expression.rank := Nat.le_refl 1
    have hshift : (⟨.operand negatable, fs, depth⟩ : Configuration).shiftOperand limit negatable t =
        some (deepen limit t.column (.operand true) (.group :: fs) depth) := by
      simp only [shiftOperand, ht]
    have hword : Readable (group d).word ↔ Readable d.word := by
      rw [word, readable_cons (by simp), readable_append]
      exact ⟨And.left, fun h => ⟨h, readable_singleton (by simp)⟩⟩
    rw [read?_enter hshift, read?_append, Option.bind_eq_some_iff, hword, charge]
    constructor
    · rintro ⟨hpos, mid, hmid, hread⟩
      obtain ⟨hnum, hcharge, rfl⟩ := (ih hinner (fun _ => rfl) hext his).mp hmid
      rw [read?_singleton, after, take?_rightParen hu] at hread
      exact ⟨hnum, by omega, by simpa [after, last, frames] using hread⟩
    · rintro ⟨hnum, hcharge, rfl⟩
      refine ⟨by omega, _, (ih hinner (fun _ => rfl) hext his).mpr ⟨hnum, by omega, rfl⟩, ?_⟩
      rw [read?_singleton, after, take?_rightParen hu]
      simp [after, last, frames]
  | name s =>
    obtain ⟨t, us, rfl, ht, hus⟩ := List.map_eq_cons_iff.mp hts
    obtain rfl := List.map_eq_nil_iff.mp hus
    rw [word, ← ht]
    exact read?_leaf (by simp only [shiftOperand, ht, last]) (by simp [ht])

end Derivation

end Linewise
