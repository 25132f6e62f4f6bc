/-
A descent reads what the reader reads.

* `run_of_current`, `run_of_deepen` — one step of a run, seen from its next token;
* `run_complete` — a frame that ends before the next token may be completed before this is
  read;
* `Descent.Encloses` — the active rules stand for the frames around what is read next;
* `foretells_step` — a step of a descent keeps what the reader comes to from these frames;
* `Reader.finish_start` — so the descent for a statement or an expression comes to what the
  reader makes of it.

Design notes: the reader has a frame only where a level is opened or an operand is waited for;
a descent has an active rule for every nonterminal on the way.  So the rules that wait without
an operator have no frame.  A rule that is active further out is at the bottom of everything
here; for a statement this is its own rule, and its expression is read above it.
-/
import Linewise.Proofs.Reading.Equality
import Linewise.Proofs.Reading.Moves

namespace Linewise

open Linewise.Configuration Linewise.Frame

/-- No chain has the place of a negation. -/
theorem Chain.rank_lt_three {c : Chain} (h : c.rank < 4) : c.rank < 3 := by
  cases c <;> first | decide | exact absurd h (by decide)

/-- No operator is looser than all chains. -/
theorem Kind.binary?_eq_none {k : Kind} (h : ∀ op, k.binary? = some op → op.chain.rank < 1) :
    k.binary? = none := by
  cases hop : k.binary? with
  | none => rfl
  | some op => exact absurd (h op hop) (Nat.not_lt.mpr op.chain.rank_pos)

/-! ### A run at its next token -/

namespace Configuration

variable {limit : Int} {ending : Ending} {c next : Configuration} {ts : List Token} {t : Token}
  {fs : List Frame} {depth : Nat}

theorem shift?_endOfLine (limit : Int) (c : Configuration) (column : Nat) :
    c.shift? limit ⟨.endOfLine, column⟩ = none := by
  unfold shift?
  split <;> simp [shiftOperand, Kind.binary?]

theorem run_of_failed {error : LexError} (h : TokenStream.current ⟨ts, ending⟩ = .error error) :
    c.run limit ending ts = ⟨.error (.lex error), ts, c.outerDepth⟩ := by
  cases ts with
  | cons t ts => exact absurd h (by simp [TokenStream.current])
  | nil =>
    cases ending with
    | endOfLine column => exact absurd h (by simp [TokenStream.current])
    | failed error' =>
      obtain rfl := Except.error.inj h
      rfl

/-- One step of a run that waits for no right side. -/
theorem run_of_current (h : TokenStream.current ⟨ts, ending⟩ = .ok t)
    (hopen : c.openRightSide limit = .ok c) :
    c.run limit ending ts = match c.shift? limit t with
      | some (.ok next) => next.run limit ending ts.tail
      | some (.error error) => ⟨.error (.parse error), ts, c.outerDepth⟩
      | none => ⟨(c.finish t).mapError .parse, ts, c.outerDepth⟩ := by
  cases ts with
  | cons u ts =>
    obtain rfl := Except.ok.inj h
    rcases hshift : c.shift? limit u with _ | (error | next) <;>
      simp only [run, hopen, hshift, List.tail_cons]
  | nil =>
    cases ending with
    | endOfLine column =>
      obtain rfl := Except.ok.inj h
      simp only [run, hopen, Except.bind, shift?_endOfLine]
    | failed error => exact absurd h (by simp [TokenStream.current])

/-- A token that opens a level, if the limit allows it. -/
theorem run_of_deepen {expected : Expected} {frames : List Frame} {d : Nat}
    (h : TokenStream.current ⟨ts, ending⟩ = .ok t) (hopen : c.openRightSide limit = .ok c)
    (hshift : c.shift? limit t = some (deepen limit t.column expected frames d)) :
    c.run limit ending ts =
      if limit ≤ d then ⟨.error (.parse ⟨.nestingTooDeep limit, t.column⟩), ts, c.outerDepth⟩
      else (⟨expected, frames, d + 1⟩ : Configuration).run limit ending ts.tail := by
  rw [run_of_current h hopen, hshift, deepen]
  split
  · next next hnext =>
    split at hnext
    · exact absurd hnext (by simp)
    · next hroom =>
      rw [if_neg hroom, ← Except.ok.inj (Option.some.inj hnext)]
  · next error herror =>
    split at herror
    · next hfull =>
      rw [if_pos hfull, ← Except.error.inj (Option.some.inj herror)]
    · exact absurd herror (by simp)
  · next hnone => exact absurd hnone (by simp)

/-- Where no negation follows it does not matter whether one might. -/
theorem run_unnegated (h : TokenStream.current ⟨ts, ending⟩ = .ok t) (hnot : t.kind ≠ .not) :
    (⟨.operand true, fs, depth⟩ : Configuration).run limit ending ts =
      (⟨.operand false, fs, depth⟩ : Configuration).run limit ending ts := by
  have hshift : (⟨.operand true, fs, depth⟩ : Configuration).shift? limit t =
      (⟨.operand false, fs, depth⟩ : Configuration).shift? limit t := by
    simp only [shift?]
    unfold shiftOperand
    split
    case h_8 hkind => exact absurd hkind hnot
    all_goals rfl
  rw [run_of_current h rfl, run_of_current h rfl, hshift]
  rfl

/-- The right side of an equality, once a token or the end of the line is in sight. -/
theorem run_rightSide {column : Nat} (h : TokenStream.current ⟨ts, ending⟩ = .ok t) :
    (⟨.rightSide column, fs, depth⟩ : Configuration).run limit ending ts =
      if limit ≤ depth then
        ⟨.error (.parse ⟨.nestingTooDeep limit, column⟩), ts, depth - totalCost fs⟩
      else
        (⟨.operand true, .rightSide :: fs, depth + 1⟩ : Configuration).run limit ending ts := by
  have hopen : (⟨.rightSide column, fs, depth⟩ : Configuration).openRightSide limit =
    deepen limit column (.operand true) (.rightSide :: fs) depth := rfl
  split
  · next hfull =>
    rw [deepen, if_pos hfull] at hopen
    cases ts with
    | cons u ts => simp [run, hopen, outerDepth]
    | nil =>
      cases ending with
      | endOfLine c => simp [run, hopen, Except.bind, outerDepth]
      | failed error => exact absurd h (by simp [TokenStream.current])
  · next hroom =>
    rw [deepen, if_neg hroom] at hopen
    exact run_of_open hopen

/-! ### Frames that end -/

/-- A frame that ends before the next token may be completed before this is read. -/
theorem run_complete {f : Frame} {e : Expr} (hgroup : f.isGroup = false)
    (hends : ∀ t op, TokenStream.current ⟨ts, ending⟩ = .ok t → t.kind.binary? = some op →
      f.endsBefore op = true) :
    (⟨.operator e, f :: fs, depth + f.cost⟩ : Configuration).run limit ending ts =
      (⟨.operator (f.complete e), fs, depth⟩ : Configuration).run limit ending ts := by
  have hcost : ∀ gs : List Frame, depth + f.cost - totalCost (f :: gs) = depth - totalCost gs := by
    intro gs
    rw [totalCost_cons]
    omega
  have houter : (⟨.operator e, f :: fs, depth + f.cost⟩ : Configuration).outerDepth =
      (⟨.operator (f.complete e), fs, depth⟩ : Configuration).outerDepth := hcost fs
  cases hcurrent : TokenStream.current ⟨ts, ending⟩ with
  | error error => rw [run_of_failed hcurrent, run_of_failed hcurrent, houter]
  | ok t =>
    have hfinish : (⟨.operator e, f :: fs, depth + f.cost⟩ : Configuration).finish t =
        (⟨.operator (f.complete e), fs, depth⟩ : Configuration).finish t := by
      simp [Configuration.finish, hgroup]
    have hshift : (⟨.operator e, f :: fs, depth + f.cost⟩ : Configuration).shift? limit t =
        (⟨.operator (f.complete e), fs, depth⟩ : Configuration).shift? limit t := by
      simp only [shift?]
      cases hop : t.kind.binary? with
      | some op =>
        have hf : ∀ g ∈ [f], g.endsBefore op = true := by simpa using hends t op hcurrent hop
        exact congrArg some (shiftBinary_append hf)
      | none =>
        have hopened : (!f.isGroup) = true := by rw [hgroup]; rfl
        simp only [shiftClosing, List.takeWhile_cons, List.dropWhile_cons, hopened, if_true, hcost,
          completeAll_cons]
    rw [run_of_current hcurrent rfl, run_of_current hcurrent rfl, hshift, hfinish, houter]

end Configuration

/-! ### What a descent is about to read -/

namespace Descent

/-- The active rules, down to `bottom`, wait for `n`; the frames `fs` enclose it, and `depth`
levels are open. -/
inductive Encloses (bottom : List Activation) (base : Nat) :
    Nonterminal → List Activation → Nat → List Frame → Prop
  | bottom : Encloses bottom base .expression bottom base []
  | first {c : Chain} {entry : Parser} {active : List Activation} {depth : Nat} {fs : List Frame}
      (h : Encloses bottom base (.chain c) active depth fs) (hrank : innerRank fs ≤ c.rank) :
      Encloses bottom base c.operand (⟨.first c, entry⟩ :: active) depth fs
  | right {c : Chain} {op : BinaryOp} {left : Expr} {tested : TokenStream} {entry : Parser}
      {active : List Activation} {depth : Nat} {fs : List Frame} (count : Nat)
      (h : Encloses bottom base (.chain c) active depth fs) (hop : op.chain = c) :
      Encloses bottom base c.rightOperand (⟨.right c op left depth tested, entry⟩ :: active)
        (depth + count) (.chain op left count :: fs)
  | rightSide {entry : Parser} {active : List Activation} {depth : Nat} {fs : List Frame}
      (h : Encloses bottom base .expression active depth fs) :
      Encloses bottom base .expression (⟨.rightSide, entry⟩ :: active) (depth + 1)
        (.rightSide :: fs)
  | negation {entry : Parser} {active : List Activation} {depth : Nat} {fs : List Frame}
      (h : Encloses bottom base .logicalFactor active depth fs) :
      Encloses bottom base .comparison (⟨.before .not, entry⟩ :: active) (depth + 1)
        (.before .not :: fs)
  | unnegated {entry : Parser} {active : List Activation} {depth : Nat} {fs : List Frame}
      (h : Encloses bottom base .logicalFactor active depth fs) :
      Encloses bottom base .comparison (⟨.unnegated, entry⟩ :: active) depth fs
  | signed {op : UnaryOp} {entry : Parser} {active : List Activation} {depth : Nat}
      {fs : List Frame} (hop : op ≠ .not) (h : Encloses bottom base .factor active depth fs) :
      Encloses bottom base .factor (⟨.before op, entry⟩ :: active) (depth + 1) (.before op :: fs)
  | unsigned {entry : Parser} {active : List Activation} {depth : Nat} {fs : List Frame}
      (h : Encloses bottom base .factor active depth fs) :
      Encloses bottom base .primary (⟨.unsigned, entry⟩ :: active) depth fs
  | group {entry : Parser} {active : List Activation} {depth : Nat} {fs : List Frame}
      (h : Encloses bottom base .primary active depth fs) :
      Encloses bottom base .expression (⟨.group, entry⟩ :: active) (depth + 1) (.group :: fs)

/-- A descent is about to come to `v`, as the reader does from the frames that enclose what is
read next. -/
inductive Foretells (limit : Int) (ending : Ending) (bottom : List Activation) (base : Nat) :
    Descent → Reading → Prop
  | enter {n : Nonterminal} {active : List Activation} {ts : List Token} {depth : Nat}
      {fs : List Frame} {v : Reading} (h : Encloses bottom base n active depth fs)
      (hrank : innerRank fs ≤ n.rank)
      (hsign : n = .primary → ∀ t, TokenStream.current ⟨ts, ending⟩ = .ok t → t.kind.sign? = none)
      (hv : (⟨.operand (decide (n.rank ≤ 3)), fs, depth⟩ : Configuration).run limit ending ts = v) :
      Foretells limit ending bottom base ⟨.enter (.inner n), active, ⟨⟨ts, ending⟩, depth⟩⟩ v
  | due {n : Nonterminal} {active : List Activation} {ts : List Token} {depth : Nat}
      {fs : List Frame} {v : Reading} (h : Encloses bottom base n active depth fs)
      (hrank : innerRank fs ≤ n.rank) (hn : n ≠ .primary)
      (hv : (⟨.operand (decide (n.rank ≤ 3)), fs, depth⟩ : Configuration).run limit ending ts = v) :
      Foretells limit ending bottom base ⟨.due n none, active, ⟨⟨ts, ending⟩, depth⟩⟩ v
  | dueRight {column : Nat} {active : List Activation} {ts : List Token} {depth : Nat}
      {fs : List Frame} {v : Reading} (h : Encloses bottom base .expression active depth fs)
      (hv : (⟨.rightSide column, fs, depth⟩ : Configuration).run limit ending ts = v) :
      Foretells limit ending bottom base
        ⟨.due .expression (some column), active, ⟨⟨ts, ending⟩, depth⟩⟩ v
  | ok {n : Nonterminal} {entry : Parser} {e : Expr} {t : Token} {active : List Activation}
      {ts : List Token} {depth : Nat} {fs : List Frame} {v : Reading}
      (h : Encloses bottom base n active depth fs)
      (hcurrent : TokenStream.current ⟨ts, ending⟩ = .ok t)
      (hends : ∀ op, t.kind.binary? = some op → op.chain.rank < n.rank)
      (hv : (⟨.operator e, fs, depth⟩ : Configuration).run limit ending ts = v) :
      Foretells limit ending bottom base ⟨.leave entry (.ok e), active, ⟨⟨ts, ending⟩, depth⟩⟩ v
  | error {n : Nonterminal} {entry : Parser} {error : LineError} {active : List Activation}
      {ts : List Token} {depth : Nat} {fs : List Frame} {v : Reading}
      (h : Encloses bottom base n active depth fs) (hv : ⟨.error error, ts, base⟩ = v) :
      Foretells limit ending bottom base
        ⟨.leave entry (.error error), active, ⟨⟨ts, ending⟩, depth⟩⟩ v

/-- The descent is back at the bottom with `v`, and the counter is at `base`. -/
def Returns (limit : Int) (ending : Ending) (bottom : List Activation) (base : Nat) (m : Descent)
    (v : Reading) : Prop :=
  v.depth = base ∧ m = back limit ⟨⟨v.rest, ending⟩, base⟩ v.result bottom

section Steps

variable {limit : Int} {ending : Ending} {bottom active : List Activation} {base depth : Nat}
  {n : Nonterminal} {fs : List Frame} {ts : List Token} {v : Reading} {t : Token}

theorem Encloses.depth_eq (h : Encloses bottom base n active depth fs) :
    depth = base + totalCost fs := by
  induction h with
  | bottom => rfl
  | first h hrank ih => exact ih
  | right count h hop ih =>
    rw [totalCost_cons, Frame.cost]
    omega
  | unnegated h ih => exact ih
  | unsigned h ih => exact ih
  | rightSide h ih | negation h ih | signed hop h ih | group h ih =>
    simp only [totalCost_cons, Frame.cost]
    omega

/-- All levels above `base` are those of the frames. -/
theorem Encloses.outerDepth_eq (h : Encloses bottom base n active depth fs) (x : Expected) :
    (⟨x, fs, depth⟩ : Configuration).outerDepth = base := by
  have hdepth := h.depth_eq
  simp only [outerDepth]
  omega

theorem Encloses.outerDepth_cons (h : Encloses bottom base n active depth fs) (x : Expected)
    (f : Frame) : (⟨x, f :: fs, depth + f.cost⟩ : Configuration).outerDepth = base := by
  have hdepth := h.depth_eq
  simp only [outerDepth, totalCost_cons]
  omega

/-- Where the text cannot go on, everything down to the bottom fails. -/
theorem Encloses.run_of_failed {x : Expected} {error : LexError}
    (h : Encloses bottom base n active depth fs)
    (hcurrent : TokenStream.current ⟨ts, ending⟩ = .error error)
    (hv : (⟨x, fs, depth⟩ : Configuration).run limit ending ts = v) :
    ⟨.error (.lex error), ts, base⟩ = v := by
  rw [← hv, Configuration.run_of_failed hcurrent, h.outerDepth_eq]

/-! #### Rules that are called -/

theorem foretells_deepen {n' : Nonterminal} {task : Task} {f : Frame}
    (h : Encloses bottom base n active depth fs)
    (hinner : Encloses bottom base n' (⟨task, ⟨⟨ts, ending⟩, depth⟩⟩ :: active) (depth + 1)
      (f :: fs))
    (hrank : f.operandRank ≤ n'.rank) (hn' : n' ≠ .primary)
    (hcurrent : TokenStream.current ⟨ts, ending⟩ = .ok t) {x : Expected}
    (hshift : (⟨x, fs, depth⟩ : Configuration).shift? limit t = some
      (Configuration.deepen limit t.column (.operand (decide (n'.rank ≤ 3))) (f :: fs) depth))
    (hopen : (⟨x, fs, depth⟩ : Configuration).openRightSide limit = .ok ⟨x, fs, depth⟩)
    (hv : (⟨x, fs, depth⟩ : Configuration).run limit ending ts = v) :
    Foretells limit ending bottom base
      (Descent.deepen limit ⟨⟨ts, ending⟩, depth⟩ active t task n') v := by
  rw [run_of_deepen hcurrent hopen hshift, h.outerDepth_eq] at hv
  rw [Descent.deepen]
  by_cases hfull : limit ≤ depth
  · rw [if_pos hfull] at hv ⊢
    exact .error h hv
  · rw [if_neg hfull] at hv ⊢
    exact .due hinner hrank hn' hv

/-- A result stands if the token after it can be read. -/
theorem foretells_next {entry : Parser} {e : Expr} (h : Encloses bottom base n active depth fs)
    (hends : ∀ (t : Token) op, t.kind.binary? = some op → op.chain.rank < n.rank)
    (hv : (⟨.operator e, fs, depth⟩ : Configuration).run limit ending ts = v) :
    Foretells limit ending bottom base
      ⟨.leave entry ((⟨⟨ts, ending⟩, depth⟩ : Parser).peek.map fun _ => e), active,
        ⟨⟨ts, ending⟩, depth⟩⟩ v := by
  cases hcurrent : TokenStream.current ⟨ts, ending⟩ with
  | error error =>
    rw [Parser.peek_of_error hcurrent]
    exact .error h (h.run_of_failed hcurrent hv)
  | ok t =>
    rw [Parser.peek_of_ok hcurrent]
    exact .ok h hcurrent (hends t) hv

theorem foretells_enterPrimary (h : Encloses bottom base .primary active depth fs)
    (hsign : ∀ t, TokenStream.current ⟨ts, ending⟩ = .ok t → t.kind.sign? = none)
    (hv : (⟨.operand false, fs, depth⟩ : Configuration).run limit ending ts = v) :
    Foretells limit ending bottom base (enterPrimary limit ⟨⟨ts, ending⟩, depth⟩ active) v := by
  have hends : ∀ (t : Token) op, t.kind.binary? = some op →
      op.chain.rank < Nonterminal.primary.rank :=
    fun _ op _ => Nat.lt_succ_of_lt op.chain.rank_lt_eight
  cases hcurrent : TokenStream.current ⟨ts, ending⟩ with
  | error error =>
    rw [enterPrimary, Parser.peek_of_error hcurrent]
    exact .error h (h.run_of_failed hcurrent hv)
  | ok t =>
    have hpeek : (⟨⟨ts, ending⟩, depth⟩ : Parser).peek = .ok t := Parser.peek_of_ok hcurrent
    have htake : ∀ e, (⟨.operand false, fs, depth⟩ : Configuration).shift? limit t =
        some (.ok ⟨.operator e, fs, depth⟩) →
        Foretells limit ending bottom base (take ⟨⟨ts, ending⟩, depth⟩ active e) v := by
      intro e hshift
      rw [run_of_current hcurrent rfl, hshift] at hv
      exact foretells_next h hends hv
    have hfail : ∀ fault, (⟨.operand false, fs, depth⟩ : Configuration).run limit ending ts =
          ⟨.error (.parse ⟨fault, t.column⟩), ts, base⟩ →
        Foretells limit ending bottom base
          (fail ⟨⟨ts, ending⟩, depth⟩ active (.parse ⟨fault, t.column⟩)) v :=
      fun fault hrun => .error h (hrun.symm.trans hv)
    simp only [enterPrimary, hpeek]
    split
    · next spelling hnumber =>
      cases hread : Number.read? spelling with
      | some value => exact htake _ (by simp [shift?, shiftOperand, hnumber, hread])
      | none =>
        refine hfail _ ?_
        rw [run_of_current hcurrent rfl, h.outerDepth_eq]
        simp [shift?, shiftOperand, hnumber, hread]
    · next hkind => exact htake _ (by simp [shift?, shiftOperand, hkind])
    · next hkind => exact htake _ (by simp [shift?, shiftOperand, hkind])
    · next hkind => exact htake _ (by simp [shift?, shiftOperand, hkind])
    · next hkind =>
      have hshift : (⟨.operand false, fs, depth⟩ : Configuration).shift? limit t =
          some (Configuration.deepen limit t.column (.operand true) (.group :: fs) depth) := by
        simp [shift?, shiftOperand, hkind]
      exact foretells_deepen h (.group h) (Nat.le_refl 1) (by simp) hcurrent hshift rfl hv
    · next hnumber hboolean htext hname hparen =>
      refine hfail _ ?_
      -- A sign would open a level, but the factor before has taken all of them.
      have hshift : (⟨.operand false, fs, depth⟩ : Configuration).shift? limit t = none := by
        have hsigned := hsign t hcurrent
        cases hkind : t.kind with
        | number s => exact absurd hkind (hnumber s)
        | boolean b => exact absurd hkind (hboolean b)
        | text s => exact absurd hkind (htext s)
        | name s => exact absurd hkind (hname s)
        | leftParen => exact absurd hkind hparen
        | plus | minus => exact absurd hsigned (by simp [hkind, Kind.sign?])
        | _ => simp [shift?, shiftOperand, hkind]
      rw [run_of_current hcurrent rfl, h.outerDepth_eq, hshift]
      rfl

theorem foretells_enterInner (h : Encloses bottom base n active depth fs)
    (hrank : innerRank fs ≤ n.rank)
    (hsign : n = .primary → ∀ t, TokenStream.current ⟨ts, ending⟩ = .ok t → t.kind.sign? = none)
    (hv : (⟨.operand (decide (n.rank ≤ 3)), fs, depth⟩ : Configuration).run limit ending ts = v) :
    Foretells limit ending bottom base (enterInner limit ⟨⟨ts, ending⟩, depth⟩ active n) v := by
  cases n with
  | chain c =>
    have hoperand : innerRank fs ≤ c.operand.rank := by
      rw [c.rank_operand]
      exact Nat.le_succ_of_le hrank
    have hflag : decide ((Nonterminal.chain c).rank ≤ 3) = decide (c.operand.rank ≤ 3) := by
      cases c <;> rfl
    rw [hflag] at hv
    exact .enter (.first h hrank) hoperand (by cases c <;> simp [Chain.operand]) hv
  | logicalFactor =>
    cases hcurrent : TokenStream.current ⟨ts, ending⟩ with
    | error error =>
      rw [enterInner, Parser.peek_of_error hcurrent]
      exact .error h (h.run_of_failed hcurrent hv)
    | ok t =>
      simp only [enterInner, Parser.peek_of_ok hcurrent]
      split
      · next hnot =>
        have hshift : (⟨.operand true, fs, depth⟩ : Configuration).shift? limit t = some
            (Configuration.deepen limit t.column (.operand false) (.before .not :: fs) depth) := by
          simp [shift?, shiftOperand, hnot]
        exact foretells_deepen h (.negation h) (Nat.le_refl 4) (by simp) hcurrent hshift rfl hv
      · next hnot =>
        exact .enter (.unnegated h) (Nat.le_succ_of_le hrank) (by simp)
          ((run_unnegated hcurrent hnot).symm.trans hv)
  | factor =>
    cases hcurrent : TokenStream.current ⟨ts, ending⟩ with
    | error error =>
      rw [enterInner, Parser.peek_of_error hcurrent]
      exact .error h (h.run_of_failed hcurrent hv)
    | ok t =>
      simp only [enterInner, Parser.peek_of_ok hcurrent]
      split
      · next op hop =>
        have hnot : op ≠ .not := by
          rintro rfl
          cases hk : t.kind <;> simp [hk, Kind.sign?] at hop
        have hshift : (⟨.operand false, fs, depth⟩ : Configuration).shift? limit t = some
            (Configuration.deepen limit t.column (.operand false) (.before op :: fs) depth) := by
          simp only [shift?]
          exact Derivation.shiftOperand_sign hop
        exact foretells_deepen h (.signed hnot h) (Nat.le_of_eq (operandRank_sign hop)) (by simp)
          hcurrent hshift rfl hv
      · next hsigned =>
        refine .enter (.unsigned h) (Nat.le_succ_of_le hrank) (fun _ u hu => ?_) hv
        obtain rfl := Except.ok.inj (hcurrent.symm.trans hu)
        exact hsigned
  | primary => exact foretells_enterPrimary h (hsign rfl) hv

/-! #### Rules that return -/

variable {a : Activation} {x : Int} {d : Nat}

theorem foretells_leave_error {error : LineError} (h : Encloses bottom base n active d fs)
    (hrestore : a.task.restore x = d) (hv : ⟨.error error, ts, base⟩ = v) :
    Foretells limit ending bottom base (leave ⟨⟨ts, ending⟩, x⟩ active a (.error error)) v := by
  rw [leave, Parser.setDepth, hrestore]
  exact .error h hv

theorem foretells_leave_ok {e : Expr} (h : Encloses bottom base n active d fs)
    (hrestore : a.task.restore x = d) (hcurrent : TokenStream.current ⟨ts, ending⟩ = .ok t)
    (hends : ∀ op, t.kind.binary? = some op → op.chain.rank < n.rank)
    (hv : (⟨.operator e, fs, d⟩ : Configuration).run limit ending ts = v) :
    Foretells limit ending bottom base (leave ⟨⟨ts, ending⟩, x⟩ active a (.ok e)) v := by
  rw [leave, Parser.setDepth, hrestore]
  exact .ok h hcurrent hends hv

/-- The loop of a chain after `left`, with `count` operators in it. -/
theorem foretells_loop {c : Chain} {left : Expr} (count : Nat)
    (h : Encloses bottom base (.chain c) active d fs)
    (hrestore : a.task.restore (d + count : Nat) = d)
    (hcurrent : TokenStream.current ⟨ts, ending⟩ = .ok t)
    (hends : ∀ op, t.kind.binary? = some op → op.chain.rank ≤ c.rank)
    (hstop : (∀ op, t.kind.binary? = some op → op.chain.rank < c.rank) →
      (⟨.operator left, fs, d⟩ : Configuration).run limit ending ts = v)
    (hfold : ∀ op, t.kind.binary? = some op → op.chain = c →
      (if limit ≤ (d + count : Nat) then
        ⟨.error (.parse ⟨.nestingTooDeep limit, t.column⟩), ts, base⟩
      else (⟨if op.isEquality then .rightSide t.column else .operand op.isLogic,
        .chain op left (count + 1) :: fs, d + count + 1⟩ : Configuration).run limit ending
          ts.tail) = v) :
    Foretells limit ending bottom base
      (loop limit ⟨⟨ts, ending⟩, (d + count : Nat)⟩ active a c left d) v := by
  have hpeek : (⟨⟨ts, ending⟩, (d + count : Nat)⟩ : Parser).peek = .ok t :=
    Parser.peek_of_ok hcurrent
  simp only [loop, hpeek]
  split
  · next hnone =>
    -- What the operand has left is no tighter than the chain, and its own operators are out.
    have hlt : ∀ op, t.kind.binary? = some op → op.chain.rank < c.rank := by
      intro op hop
      refine Nat.lt_of_le_of_ne (hends op hop) fun hrank => ?_
      have hsome := Chain.operator?_eq_some_iff.mpr ⟨hop, Chain.rank_injective hrank⟩
      exact absurd (hsome.symm.trans hnone) (by simp)
    exact foretells_leave_ok h hrestore hcurrent hlt (hstop hlt)
  · next op hop =>
    obtain ⟨hbin, hchain⟩ := Chain.operator?_eq_some_iff.mp hop
    have hv := hfold op hbin hchain
    by_cases hfull : limit ≤ (d + count : Nat)
    · rw [if_pos hfull] at hv ⊢
      exact foretells_leave_error h hrestore hv
    · rw [if_neg hfull] at hv ⊢
      have hinner : Encloses bottom base c.rightOperand
          (⟨.right c op left d ⟨ts, ending⟩, a.entry⟩ :: active) (d + count + 1)
          (.chain op left (count + 1) :: fs) := .right (count + 1) h hchain
      by_cases hc : c = .equality
      · subst hc
        rw [if_pos (BinaryOp.isEquality_iff.mpr hchain)] at hv
        exact .dueRight hinner hv
      · have hequality : ¬ op.isEquality = true := by
          rw [BinaryOp.isEquality_iff, hchain]
          exact hc
        have hrank : c.rightOperand.rank = c.rank + 1 := by
          rw [Chain.rightOperand_eq hc, c.rank_operand]
        have hflag : op.isLogic = decide (c.rightOperand.rank ≤ 3) := by
          rw [Bool.eq_iff_iff, BinaryOp.isLogic_iff, hchain, hrank, decide_eq_true_iff]
          omega
        rw [if_neg hequality, hflag] at hv
        rw [if_neg hc]
        refine .due hinner ?_ ?_ hv
        · simp only [innerRank, operandRank, hchain, hrank]
          exact Nat.le_refl _
        · cases c <;> simp [Chain.rightOperand, Chain.operand]

theorem foretells_first {c : Chain} {entry : Parser} {e : Expr}
    (h : Encloses bottom base (.chain c) active depth fs) (hrank : innerRank fs ≤ c.rank)
    (hcurrent : TokenStream.current ⟨ts, ending⟩ = .ok t)
    (hends : ∀ op, t.kind.binary? = some op → op.chain.rank < c.operand.rank)
    (hv : (⟨.operator e, fs, depth⟩ : Configuration).run limit ending ts = v) :
    Foretells limit ending bottom base
      (loop limit ⟨⟨ts, ending⟩, depth⟩ active ⟨.first c, entry⟩ c e depth) v := by
  refine foretells_loop 0 h rfl hcurrent (fun op hop => ?_) (fun _ => hv) fun op hop hchain => ?_
  · have hlt := hends op hop
    rw [c.rank_operand] at hlt
    exact Nat.le_of_lt_succ hlt
  · have hshift : (⟨.operator e, fs, depth⟩ : Configuration).shift? limit t =
        some (Configuration.deepen limit t.column
          (if op.isEquality then .rightSide t.column else .operand op.isLogic)
          (.chain op e 1 :: fs) depth) := by
      simp only [shift?, hop]
      rw [shiftBinary_start (hchain ▸ hrank)]
    rw [← hv, run_of_deepen hcurrent rfl hshift, h.outerDepth_eq]
    rfl

theorem foretells_right {c : Chain} {own : BinaryOp} {left e : Expr} {tested : TokenStream}
    {entry : Parser} {count : Nat} (h : Encloses bottom base (.chain c) active d fs)
    (hown : own.chain = c) (hcurrent : TokenStream.current ⟨ts, ending⟩ = .ok t)
    (hends : ∀ op, t.kind.binary? = some op → op.chain.rank < c.rightOperand.rank)
    (hv : (⟨.operator e, .chain own left count :: fs, d + count⟩ : Configuration).run limit ending
      ts = v) :
    Foretells limit ending bottom base
      (loop limit ⟨⟨ts, ending⟩, (d + count : Nat)⟩ active ⟨.right c own left d tested, entry⟩ c
        (.binary own left e) d) v := by
  -- The right side of an equality is a whole expression and leaves no operator behind.
  have hle : ∀ op, t.kind.binary? = some op → op.chain.rank ≤ c.rank := by
    intro op hop
    have hlt := hends op hop
    by_cases hc : c = .equality
    · subst hc
      exact absurd hlt (Nat.not_lt.mpr op.chain.rank_pos)
    · rw [Chain.rightOperand_eq hc, c.rank_operand] at hlt
      exact Nat.le_of_lt_succ hlt
  refine foretells_loop count h rfl hcurrent hle (fun hlt => ?_) fun op hop hchain => ?_
  · have hends : ∀ u op, TokenStream.current ⟨ts, ending⟩ = .ok u → u.kind.binary? = some op →
        (Frame.chain own left count).endsBefore op = true := by
      intro u op hu hop
      obtain rfl := Except.ok.inj (hcurrent.symm.trans hu)
      refine decide_eq_true (BinaryOp.level_lt_level_iff.mpr ?_)
      rw [hown]
      exact hlt op hop
    exact (run_complete rfl hends).symm.trans hv
  · have hshift : (⟨.operator e, .chain own left count :: fs, d + count⟩ :
        Configuration).shift? limit t = some (Configuration.deepen limit t.column
          (if op.isEquality then .rightSide t.column else .operand op.isLogic)
          (.chain op (.binary own left e) (count + 1) :: fs) (d + count)) := by
      simp only [shift?, hop]
      rw [shiftBinary_chain (hown.trans hchain.symm)]
    have houter : (⟨.operator e, .chain own left count :: fs, d + count⟩ :
        Configuration).outerDepth = base := h.outerDepth_cons _ (.chain own left count)
    rw [← hv, run_of_deepen hcurrent rfl hshift, houter]

theorem foretells_close {e : Expr} (h : Encloses bottom base .primary active d fs)
    (hrestore : a.task.restore (d + 1 : Nat) = d)
    (hcurrent : TokenStream.current ⟨ts, ending⟩ = .ok t)
    (hends : ∀ op, t.kind.binary? = some op → op.chain.rank < Nonterminal.expression.rank)
    (hv : (⟨.operator e, .group :: fs, d + 1⟩ : Configuration).run limit ending ts = v) :
    Foretells limit ending bottom base (close ⟨⟨ts, ending⟩, (d + 1 : Nat)⟩ active a e) v := by
  have hpeek : (⟨⟨ts, ending⟩, (d + 1 : Nat)⟩ : Parser).peek = .ok t :=
    Parser.peek_of_ok hcurrent
  have hnone : t.kind.binary? = none := Kind.binary?_eq_none hends
  simp only [close, hpeek]
  split
  · next hparen =>
    have hshift : (⟨.operator e, .group :: fs, d + 1⟩ : Configuration).shift? limit t =
        some (.ok ⟨.operator e, fs, d⟩) := by
      simp [shift?, hparen, Kind.binary?, shiftClosing, isGroup, Frame.cost]
    rw [run_of_current hcurrent rfl, hshift] at hv
    rw [leave, Parser.setDepth]
    refine hrestore ▸ foretells_next h ?_ hv
    exact fun _ op _ => Nat.lt_succ_of_lt op.chain.rank_lt_eight
  · next hparen =>
    have hshift : (⟨.operator e, .group :: fs, d + 1⟩ : Configuration).shift? limit t = none := by
      simp [shift?, hnone, hparen]
    have houter : (⟨.operator e, .group :: fs, d + 1⟩ : Configuration).outerDepth = base :=
      h.outerDepth_cons _ .group
    rw [run_of_current hcurrent rfl, hshift, houter] at hv
    exact foretells_leave_error h hrestore (by simpa [Configuration.finish, isGroup] using hv)

/-- An error goes back to the innermost active rule, or to the one at the bottom. -/
theorem foretells_back_error {error : LineError} (h : Encloses bottom base n active depth fs)
    (hv : ⟨.error error, ts, base⟩ = v) :
    Foretells limit ending bottom base
        (back limit ⟨⟨ts, ending⟩, depth⟩ (.error error) active) v ∨
      Returns limit ending bottom base
        (back limit ⟨⟨ts, ending⟩, depth⟩ (.error error) active) v := by
  cases h with
  | bottom =>
    subst hv
    exact Or.inr ⟨rfl, rfl⟩
  | first h hrank => exact Or.inl (foretells_leave_error h rfl hv)
  | right count h hop => exact Or.inl (foretells_leave_error h rfl hv)
  | unnegated h => exact Or.inl (foretells_leave_error h rfl hv)
  | unsigned h => exact Or.inl (foretells_leave_error h rfl hv)
  | rightSide h | negation h | signed hop h | group h =>
    exact Or.inl (foretells_leave_error h (by simp [Task.restore]) hv)

/-- An expression goes back to the innermost active rule, or to the one at the bottom. -/
theorem foretells_back_ok {e : Expr} (h : Encloses bottom base n active depth fs)
    (hcurrent : TokenStream.current ⟨ts, ending⟩ = .ok t)
    (hends : ∀ op, t.kind.binary? = some op → op.chain.rank < n.rank)
    (hv : (⟨.operator e, fs, depth⟩ : Configuration).run limit ending ts = v) :
    Foretells limit ending bottom base (back limit ⟨⟨ts, ending⟩, depth⟩ (.ok e) active) v ∨
      Returns limit ending bottom base (back limit ⟨⟨ts, ending⟩, depth⟩ (.ok e) active) v := by
  have hcomplete : ∀ {f : Frame} {gs : List Frame} {d : Nat}, f.isGroup = false →
      (∀ op, t.kind.binary? = some op → f.endsBefore op = true) →
      (⟨.operator e, f :: gs, d + f.cost⟩ : Configuration).run limit ending ts = v →
      (⟨.operator (f.complete e), gs, d⟩ : Configuration).run limit ending ts = v := by
    intro f gs d hgroup hf hrun
    rw [← hrun, run_complete hgroup]
    intro u op hu hop
    obtain rfl := Except.ok.inj (hcurrent.symm.trans hu)
    exact hf op hop
  cases h with
  | bottom =>
    -- Without a frame, the run stops at the first token that goes on with no chain.
    have hnone : t.kind.binary? = none := Kind.binary?_eq_none hends
    have hshift : (⟨.operator e, [], base⟩ : Configuration).shift? limit t = none := by
      simp [shift?, hnone, shiftClosing]
    rw [run_of_current hcurrent rfl, hshift] at hv
    subst hv
    exact Or.inr ⟨Nat.sub_zero base, rfl⟩
  | first h hrank => exact Or.inl (foretells_first h hrank hcurrent hends hv)
  | right count h hop => exact Or.inl (foretells_right h hop hcurrent hends hv)
  | rightSide h =>
    refine Or.inl (foretells_leave_ok h (by simp [Task.restore]) hcurrent hends ?_)
    exact hcomplete rfl (fun op hop => absurd (hends op hop) (Nat.not_lt.mpr op.chain.rank_pos)) hv
  | negation h =>
    have hlt : ∀ op, t.kind.binary? = some op → op.chain.rank < 3 := fun op hop =>
      op.chain.rank_lt_three (hends op hop)
    refine Or.inl (foretells_leave_ok h (by simp [Task.restore]) hcurrent hlt ?_)
    have hends : ∀ op, t.kind.binary? = some op → (Frame.before .not).endsBefore op = true :=
      fun op hop => BinaryOp.isLogic_iff.mpr (hlt op hop)
    exact hcomplete rfl hends hv
  | unnegated h =>
    exact Or.inl (foretells_leave_ok h rfl hcurrent
      (fun op hop => op.chain.rank_lt_three (hends op hop)) hv)
  | @signed sign _ _ _ _ hnot h =>
    refine Or.inl (foretells_leave_ok h (by simp [Task.restore]) hcurrent hends ?_)
    refine hcomplete rfl (fun op _ => ?_) hv
    cases sign with
    | not => exact absurd rfl hnot
    | plus | minus => rfl
  | unsigned h =>
    exact Or.inl (foretells_leave_ok h rfl hcurrent (fun op _ => op.chain.rank_lt_eight) hv)
  | group h => exact Or.inl (foretells_close h (by simp [Task.restore]) hcurrent hends hv)

/-- A step keeps what is foretold, or brings it back to the bottom. -/
theorem foretells_step {m : Descent} (h : Foretells limit ending bottom base m v) :
    Foretells limit ending bottom base (step limit m) v ∨
      Returns limit ending bottom base (step limit m) v := by
  cases h with
  | enter h hrank hsign hv => exact Or.inl (foretells_enterInner h hrank hsign hv)
  | @due n active ts depth fs _ h hrank hn hv =>
    cases hcurrent : TokenStream.current ⟨ts, ending⟩ with
    | error error =>
      simp only [step, Parser.peek_of_error hcurrent]
      exact foretells_back_error h (h.run_of_failed hcurrent hv)
    | ok t =>
      simp only [step, Parser.peek_of_ok hcurrent]
      exact Or.inl (.enter h hrank (fun hprimary => absurd hprimary hn) hv)
  | @dueRight column active ts depth fs _ h hv =>
    cases hcurrent : TokenStream.current ⟨ts, ending⟩ with
    | error error =>
      simp only [step, Parser.peek_of_error hcurrent]
      exact foretells_back_error h (h.run_of_failed hcurrent hv)
    | ok t =>
      have houter := h.outerDepth_eq (.rightSide column)
      rw [outerDepth] at houter
      rw [run_rightSide hcurrent, houter] at hv
      simp only [step, Parser.peek_of_ok hcurrent]
      by_cases hfull : limit ≤ depth
      · rw [if_pos hfull] at hv ⊢
        exact foretells_back_error h hv
      · rw [if_neg hfull] at hv ⊢
        exact Or.inl (.enter (.rightSide h) (Nat.le_refl 1) (by simp) hv)
  | ok h hcurrent hends hv => exact foretells_back_ok h hcurrent hends hv
  | error h hv => exact foretells_back_error h hv

theorem Foretells.running {m : Descent} (h : Foretells limit ending bottom base m v) :
    m.mode.result? = none := by
  cases h <;> rfl

/-- What is foretold comes back to the bottom in the end. -/
theorem finish_of_foretells {m : Descent} (h : Foretells limit ending bottom base m v) :
    v.depth = base ∧
      m.finish limit = (back limit ⟨⟨v.rest, ending⟩, base⟩ v.result bottom).finish limit := by
  -- By induction on the steps that are left.
  induction hcost : m.cost using Nat.strong_induction_on generalizing m with
  | _ cost ih =>
    subst hcost
    rw [← finish_step limit m]
    obtain hstep | ⟨hdepth, hstep⟩ := foretells_step h
    · exact ih _ (cost_lt_of_moves (moves_step limit h.running)) hstep rfl
    · exact ⟨hdepth, by rw [hstep]⟩

end Steps

end Descent

/-! ### Whole phrases -/

/-- The parser at the place of a reader. -/
def Reader.parser (r : Reader) : Parser := ⟨r.input, r.depth⟩

/-- What has come of an attempt, and the parser at the place that it has come to. -/
def Attempt.outcome {α : Type} (a : Attempt α) (f : α → Phrase) :
    Except LineError Phrase × Parser :=
  (a.result.map f, a.reader.parser)

/-- What comes of reading what is asked for. -/
def Reader.read (r : Reader) : Goal → Except LineError Phrase × Parser
  | .statement => r.statement.outcome .statement
  | .expression => r.expression.outcome .expression

namespace Reader

open Descent

variable {r : Reader}

theorem peek_parser_of_ok {t : Token} (h : r.input.current = .ok t) : r.parser.peek = .ok t :=
  Parser.peek_of_ok h

theorem peek_parser_of_error {error : LexError} (h : r.input.current = .error error) :
    r.parser.peek = .error (.lex error) :=
  Parser.peek_of_error h

/-- A descent that comes to an expression reads it as the reader does. -/
theorem finish_of_foretells_expression {bottom : List Activation} {m : Descent}
    (h : Foretells r.limit r.input.ending bottom r.depth m
      ((Configuration.start r.depth).run r.limit r.input.ending r.input.tokens)) :
    r.expression.reader.depth = r.depth ∧ m.finish r.limit =
      (back r.limit r.expression.reader.parser r.expression.result bottom).finish r.limit := by
  obtain ⟨hdepth, hfinish⟩ := finish_of_foretells h
  refine ⟨hdepth, hfinish.trans ?_⟩
  rw [parser, expression, hdepth]

theorem finish_start_expression (r : Reader) :
    (Descent.start .expression r.parser).finish r.limit = r.read .expression := by
  have h : Foretells r.limit r.input.ending [] r.depth (Descent.start .expression r.parser) _ :=
    .enter .bottom (Nat.le_refl 1) (by simp) rfl
  rw [(finish_of_foretells_expression h).2]
  exact finish_of_done rfl

theorem finish_terminate (r : Reader) (s : Statement) (limit : Int) :
    (terminate r.parser [] s).finish limit =
      (r.terminator.andThen fun _ r => ⟨.ok s, r⟩).outcome .statement := by
  rw [terminator, terminate]
  cases hcurrent : r.input.current with
  | error error =>
    rw [peek_andThen_of_error hcurrent, peek_parser_of_error hcurrent]
    exact finish_of_done rfl
  | ok t =>
    rw [peek_andThen_of_ok hcurrent, peek_parser_of_ok hcurrent]
    dsimp only
    split
    · have hskip : r.parser.skip = r.skip.parser := rfl
      cases hnext : r.skip.input.current with
      | error error =>
        rw [peek_andThen_of_error hnext, hskip, peek_parser_of_error hnext]
        exact finish_of_done rfl
      | ok next =>
        rw [peek_andThen_of_ok hnext, hskip, peek_parser_of_ok hnext]
        exact finish_of_done rfl
    · exact finish_of_done rfl

/-- The rest of a statement after the tokens before its expression. -/
theorem finish_due_statement (r : Reader) (make : Expr → Statement) (entry : Parser) :
    (⟨.due .expression none, [⟨.statement make, entry⟩], r.parser⟩ : Descent).finish r.limit =
      (r.expression.andThen fun value r =>
        r.terminator.andThen fun _ r => ⟨.ok (make value), r⟩).outcome .statement := by
  -- The rule of the statement waits at the bottom while its expression is read.
  have h : Foretells r.limit r.input.ending [⟨.statement make, entry⟩] r.depth
      ⟨.due .expression none, [⟨.statement make, entry⟩], r.parser⟩ _ :=
    .due .bottom (Nat.le_refl 1) (by simp) rfl
  rw [(finish_of_foretells_expression h).2, Attempt.andThen]
  cases r.expression.result with
  | error error => exact finish_of_done rfl
  | ok e => exact finish_terminate r.expression.reader (make e) r.limit

theorem finish_start_statement (r : Reader) :
    (Descent.start .statement r.parser).finish r.limit = r.read .statement := by
  have hstep : step r.limit (Descent.start .statement r.parser) = enterStatement r.parser [] := rfl
  rw [← finish_step, hstep, read, statement, enterStatement]
  cases hcurrent : r.input.current with
  | error error =>
    rw [peek_andThen_of_error hcurrent, peek_parser_of_error hcurrent]
    exact finish_of_done rfl
  | ok first =>
    rw [peek_andThen_of_ok hcurrent, peek_parser_of_ok hcurrent]
    have hskip : r.parser.skip = r.skip.parser := rfl
    dsimp only
    cases first.kind with
    | name name =>
      dsimp only
      cases hsign : r.skip.input.current with
      | error error =>
        rw [peek_andThen_of_error hsign, hskip, peek_parser_of_error hsign]
        exact finish_of_done rfl
      | ok sign =>
        rw [peek_andThen_of_ok hsign, hskip, peek_parser_of_ok hsign]
        dsimp only
        split
        · exact finish_due_statement r.skip.skip (.assign name) r.parser
        · exact finish_of_done rfl
    | print => exact finish_due_statement r.skip .print r.parser
    | _ => exact finish_of_done rfl

/-- The descent for what is asked for comes to what the reader makes of it. -/
theorem finish_start (r : Reader) (goal : Goal) :
    (Descent.start goal r.parser).finish r.limit = r.read goal := by
  cases goal with
  | statement => exact finish_start_statement r
  | expression => exact finish_start_expression r

end Reader

end Linewise
