/-
What may come next.

* `Stance` — whether an operand or an operator is due, and how many parentheses
  are open: all that decides which tokens can follow;
* `Agrees`, `agrees_shift?` — a token is taken exactly if the stance admits it, but for
  numbers that cannot be read and for the limit on nesting;
* `take?_of_stance` — so it is taken if it can be read and the limit leaves room for two
  more levels;
* `read?_word`, `exists_derivation` — the words that lead from an operand that is due to
  an operator that is due are those of the derivations;
* `exists_extends` — so every derivable word has a derivation in which equalities
  extend to the end of their groups, and its charge is at most twice its length.

Design notes: where the grammar is ambiguous, the reading takes the one derivation
that `Opens` finds behind a configuration.  No token is refused because of that
choice: a stance does not tell the derivations of a word apart.
-/
import Linewise.Proofs.Reading.Levels

namespace Linewise

open Linewise.Frame Linewise.Configuration

/-- What may come next, with the number of parentheses that are open. -/
inductive Stance
  | operand (negatable : Bool) (groups : Nat)
  | operator (groups : Nat)
deriving DecidableEq, Repr

/-- The stance after a token, if the token may come next. -/
def Stance.next? : Stance → Kind → Option Stance
  | operand _ groups, .number _ | operand _ groups, .boolean _
  | operand _ groups, .text _ | operand _ groups, .name _ => some (operator groups)
  | operand _ groups, .leftParen => some (operand true (groups + 1))
  | operand _ groups, .plus | operand _ groups, .minus => some (operand false groups)
  | operand true groups, .not => some (operand false groups)
  | operand _ _, _ => none
  | operator groups, k =>
    match k.binary?, groups with
    | some op, groups => some (operand (op.isEquality || op.isLogic) groups)
    | none, groups + 1 => if k = .rightParen then some (operator groups) else none
    | none, 0 => none

/-- The stance after a list of tokens, if they may come next. -/
def Stance.read? (s : Stance) (word : List Kind) : Option Stance :=
  word.foldlM Stance.next? s

namespace Stance

@[simp] theorem read?_nil (s : Stance) : s.read? [] = some s := rfl

@[simp] theorem read?_cons (s : Stance) (k : Kind) (word : List Kind) :
    s.read? (k :: word) = (s.next? k).bind fun next => next.read? word := rfl

theorem read?_append (s : Stance) (v w : List Kind) :
    s.read? (v ++ w) = (s.read? v).bind fun next => next.read? w := by
  rw [read?, List.foldlM_append]
  rfl

theorem next?_endOfLine (s : Stance) : s.next? .endOfLine = none := by
  rcases s with (_ | _) | _ | _ <;> rfl

theorem next?_operator {sign : Kind} {op : BinaryOp} {c : Chain}
    (h : c.operator? sign = some op) (groups : Nat) :
    (operator groups).next? sign = some (operand (op.isEquality || op.isLogic) groups) := by
  simp only [next?, (Chain.operator?_eq_some_iff.mp h).1]

theorem next?_sign {sign : Kind} {op : UnaryOp} (h : sign.sign? = some op) (negatable : Bool)
    (groups : Nat) : (operand negatable groups).next? sign = some (operand false groups) := by
  cases sign <;> first | (cases negatable <;> rfl) | exact absurd h (by simp [Kind.sign?])

/-- The word of a derivation leads from an operand that is due to an operator that
is due, whatever follows it. -/
theorem read?_word {n : Nonterminal} (d : Derivation n) {negatable : Bool} (groups : Nat)
    (hneg : n.rank ≤ 3 → negatable = true) :
    (operand negatable groups).read? d.word = some (operator groups) := by
  -- By induction on the derivation; after a connective or an equality the operand may
  -- start with a negation, and nowhere else does the grammar allow one.
  induction d generalizing negatable groups with
  | @operand c d ih =>
    refine ih groups fun h => hneg ?_
    rw [c.rank_operand] at h
    exact Nat.le_of_succ_le h
  | @fold c left sign op spelled right ihleft ihright =>
    obtain ⟨-, hchain⟩ := Chain.operator?_eq_some_iff.mp spelled
    rw [Derivation.word, read?_append, ihleft groups hneg, Option.bind_some, read?_cons,
      next?_operator spelled, Option.bind_some]
    exact ihright groups fun h => Derivation.isLogic_of_rank_rightOperand (hchain ▸ h)
  | negation d ih =>
    obtain rfl := hneg (Nat.le_refl 3)
    exact ih groups fun h => absurd h (by decide)
  | unnegated d ih => exact ih groups fun h => hneg (Nat.le_of_succ_le h)
  | signed sign op spelled d ih =>
    rw [Derivation.word, read?_cons, next?_sign spelled, Option.bind_some]
    exact ih groups fun h => absurd h (by decide)
  | unsigned d ih => exact ih groups fun h => hneg (Nat.le_of_succ_le h)
  | number s => cases negatable <;> rfl
  | boolean b => cases negatable <;> rfl
  | text s => cases negatable <;> rfl
  | group d ih =>
    have hopen : (operand negatable groups).next? .leftParen =
        some (operand true (groups + 1)) := by
      cases negatable <;> rfl
    rw [Derivation.word, read?_cons, hopen, Option.bind_some, read?_append,
      ih (groups + 1) fun _ => rfl]
    rfl
  | name s => cases negatable <;> rfl

end Stance

namespace Configuration

/-- What may come next after a configuration. -/
def stance (c : Configuration) : Stance :=
  match c.expected with
  | .operand negatable => .operand negatable (c.frames.countP Frame.isGroup)
  | .rightSide _ => .operand true (c.frames.countP Frame.isGroup)
  | .operator _ => .operator (c.frames.countP Frame.isGroup)

/-- What comes of a token agrees with the stance: it is taken where the stance admits it,
and refused there only for its nesting or as a number that cannot be read. -/
def Agrees (c : Configuration) (t : Token) : Option (Except ParseError Configuration) → Prop
  | none => c.stance.next? t.kind = none
  | some (.ok next) => c.stance.next? t.kind = some next.stance ∧ Readable [t.kind]
  | some (.error error) => (∃ bound, error.fault = .nestingTooDeep bound) ∨ ¬ Readable [t.kind]

variable {limit : Int} {c : Configuration} {t : Token} {s : Stance}

theorem agrees_deepen {column depth : Nat} {expected : Expected} {frames : List Frame}
    (hnext : c.stance.next? t.kind = some (stance ⟨expected, frames, depth⟩))
    (hread : Readable [t.kind]) :
    Agrees c t (some (deepen limit column expected frames depth)) := by
  rw [deepen]
  split
  · exact Or.inl ⟨limit, rfl⟩
  · exact ⟨hnext, hread⟩

theorem agrees_shiftOperand {negatable : Bool}
    (hs : c.stance = .operand negatable (c.frames.countP Frame.isGroup)) :
    Agrees c t (c.shiftOperand limit negatable t) := by
  have hleaf : ∀ e : Expr, (Stance.operand negatable (c.frames.countP Frame.isGroup)).next?
      t.kind = some (.operator (c.frames.countP Frame.isGroup)) → Readable [t.kind] →
      Agrees c t (some (.ok { c with expected := .operator e })) :=
    fun e hnext hread => ⟨hs ▸ hnext, hread⟩
  have henter : ∀ (f : Frame) (inner : Bool),
      (Stance.operand negatable (c.frames.countP Frame.isGroup)).next? t.kind =
        some (.operand inner (List.countP Frame.isGroup (f :: c.frames))) → Readable [t.kind] →
      Agrees c t (some (deepen limit t.column (.operand inner) (f :: c.frames) c.depth)) :=
    fun f inner hnext hread => agrees_deepen (hs ▸ hnext) hread
  have hnone : (Stance.operand negatable (c.frames.countP Frame.isGroup)).next? t.kind = none →
      Agrees c t none := fun hnext => (hs ▸ hnext : c.stance.next? t.kind = none)
  rw [shiftOperand]
  cases ht : t.kind with
  | number spelling =>
    cases hread : Number.read? spelling with
    | some value =>
      simp only [hread]
      exact hleaf _ (by simp [Stance.next?, ht]) (ht ▸ readable_number.mpr (by simp [hread]))
    | none =>
      simp only [hread]
      refine Or.inr fun hnum => ?_
      rw [ht, readable_number, hread] at hnum
      exact absurd hnum (by simp)
  | text contents => exact hleaf _ (by simp [Stance.next?, ht]) (readable_singleton (by simp [ht]))
  | boolean value => exact hleaf _ (by simp [Stance.next?, ht]) (readable_singleton (by simp [ht]))
  | name name => exact hleaf _ (by simp [Stance.next?, ht]) (readable_singleton (by simp [ht]))
  | leftParen =>
    exact henter .group true (by simp [Stance.next?, ht, List.countP_cons, Frame.isGroup])
      (readable_singleton (by simp [ht]))
  | plus =>
    exact henter (.before .plus) false (by simp [Stance.next?, ht, Frame.isGroup])
      (readable_singleton (by simp [ht]))
  | minus =>
    exact henter (.before .minus) false (by simp [Stance.next?, ht, Frame.isGroup])
      (readable_singleton (by simp [ht]))
  | not =>
    cases negatable with
    | false => exact hnone (by simp [Stance.next?, ht])
    | true =>
      exact henter (.before .not) false (by simp [Stance.next?, ht, Frame.isGroup])
        (readable_singleton (by simp [ht]))
  | _ => exact hnone (by simp [Stance.next?, ht])

/-- An operator changes no open parenthesis. -/
theorem countP_shiftBinary {c c' : Configuration} {op : BinaryOp} {column : Nat} {left : Expr}
    (h : c.shiftBinary limit op column left = .ok c') :
    c'.frames.countP Frame.isGroup = c.frames.countP Frame.isGroup := by
  -- No operator ends a parenthesis, so the frames that end hold none.
  have hended : (c.frames.takeWhile (·.endsBefore op)).countP Frame.isGroup = 0 := by
    rw [List.countP_eq_zero]
    intro f hf hgroup
    have hends := List.mem_takeWhile_imp hf
    cases f <;> simp_all [Frame.isGroup, Frame.endsBefore]
  have hsplit : (c.frames.dropWhile (·.endsBefore op)).countP Frame.isGroup =
      c.frames.countP Frame.isGroup := by
    have happend := congrArg (List.countP Frame.isGroup)
      (List.takeWhile_append_dropWhile (p := (·.endsBefore op)) (l := c.frames))
    rw [List.countP_append, hended, Nat.zero_add] at happend
    exact happend
  obtain ⟨-, rfl⟩ := deepen_eq_ok_iff.mp h
  rw [← hsplit]
  simp only
  split
  · next own first count outer haround =>
    rw [haround]
    split <;> simp [Frame.isGroup]
  · simp [Frame.isGroup]

/-- A closing parenthesis closes one that is open. -/
theorem stance_shiftClosing (left : Expr) {groups : Nat}
    (h : c.frames.countP Frame.isGroup = groups + 1) :
    ∃ closed, c.shiftClosing left = some closed ∧ closed.stance = .operator groups := by
  have hended : (c.frames.takeWhile (!·.isGroup)).countP Frame.isGroup = 0 := by
    rw [List.countP_eq_zero]
    intro f hf
    simpa using List.mem_takeWhile_imp hf
  have happend := congrArg (List.countP Frame.isGroup)
    (List.takeWhile_append_dropWhile (p := (!·.isGroup)) (l := c.frames))
  rw [List.countP_append, hended, Nat.zero_add, h] at happend
  cases haround : c.frames.dropWhile (!·.isGroup) with
  | nil =>
    rw [haround] at happend
    exact absurd happend (by simp)
  | cons opening outer =>
    have hopening : opening.isGroup = true := by
      have hhead := List.head?_dropWhile_not (!·.isGroup) c.frames
      simpa [haround] using hhead
    rw [haround, List.countP_cons_of_pos hopening] at happend
    have hclosing : c.shiftClosing left =
        some ⟨.operator (completeAll (c.frames.takeWhile (!·.isGroup)) left), outer,
          c.depth - totalCost (c.frames.takeWhile (!·.isGroup)) - opening.cost⟩ := by
      simp only [shiftClosing, haround]
    exact ⟨_, hclosing, by simpa [stance] using happend⟩

theorem agrees_shiftOperator {left : Expr} (hleft : c.expected = .operator left) :
    Agrees c t (c.shift? limit t) := by
  have hs : c.stance = .operator (c.frames.countP Frame.isGroup) := by
    rw [stance, hleft]
  cases hbin : t.kind.binary? with
  | some op =>
    have hread : Readable [t.kind] := by
      refine readable_singleton fun s hs => ?_
      exact absurd hbin (by simp [hs, Kind.binary?])
    have hbinary : c.shift? limit t = some (c.shiftBinary limit op t.column left) := by
      simp only [shift?, hleft, hbin]
    rw [hbinary]
    cases hshift : c.shiftBinary limit op t.column left with
    | error error => exact Or.inl ⟨limit, by rw [eq_of_deepen_error hshift]⟩
    | ok next =>
      refine ⟨?_, hread⟩
      have hcount := countP_shiftBinary hshift
      obtain ⟨-, hnext⟩ := deepen_eq_ok_iff.mp hshift
      rw [hs, stance, hcount]
      cases hequality : op.isEquality <;> simp [Stance.next?, hbin, hnext, hequality]
  | none =>
    have hclosing : c.shift? limit t =
        if t.kind = .rightParen then (c.shiftClosing left).map .ok else none := by
      simp only [shift?, hleft, hbin]
    rw [hclosing]
    cases hgroups : c.frames.countP Frame.isGroup with
    | zero =>
      have hnone : c.shiftClosing left = none :=
        shiftClosing_eq_none_iff.mpr (by simpa [List.countP_eq_zero] using hgroups)
      have hnext : c.stance.next? t.kind = none := by simp [hs, hgroups, Stance.next?, hbin]
      simp only [hnone, Option.map_none, ite_self]
      exact hnext
    | succ groups =>
      by_cases ht : t.kind = .rightParen
      · obtain ⟨closed, hclosing, hstance⟩ := stance_shiftClosing left hgroups
        simp only [if_pos ht, hclosing, Option.map_some]
        refine ⟨?_, readable_singleton (by simp [ht])⟩
        simp [hs, hgroups, Stance.next?, Kind.binary?, ht, hstance]
      · have hnext : c.stance.next? t.kind = none := by
          simp [hs, hgroups, Stance.next?, hbin, ht]
        simp only [if_neg ht]
        exact hnext

/-- The stance says which tokens are taken. -/
theorem agrees_shift? (limit : Int) (c : Configuration) (t : Token) :
    Agrees c t (c.shift? limit t) := by
  cases hexpected : c.expected with
  | operand negatable =>
    rw [shift?, hexpected]
    exact agrees_shiftOperand (by rw [stance, hexpected])
  | rightSide column =>
    rw [shift?, hexpected]
    exact agrees_shiftOperand (by rw [stance, hexpected])
  | operator left => exact agrees_shiftOperator hexpected

/-- An opened right side waits for the same tokens. -/
theorem stance_openRightSide {opened : Configuration} (h : c.openRightSide limit = .ok opened) :
    opened.stance = c.stance := by
  unfold openRightSide at h
  split at h
  · next column hwaits =>
    obtain ⟨-, rfl⟩ := deepen_eq_ok_iff.mp h
    rw [stance, stance, hwaits]
    rfl
  · exact (Except.ok.inj h) ▸ rfl

/-- What may come next is taken. -/
theorem take?_of_stance (hs : c.stance.next? t.kind = some s) (hread : Readable [t.kind])
    (hroom : c.weight + 2 ≤ limit) :
    ∃ next, c.take? limit t = some next ∧ next.stance = s ∧ next.weight ≤ c.weight + 2 := by
  have htwo := t.kind.levels_le_two
  obtain ⟨opened, hopen, hdepth, -⟩ := exists_openRightSide limit c (by omega)
  have hagrees := agrees_shift? limit opened t
  rw [← stance_openRightSide hopen] at hs
  cases hshift : opened.shift? limit t with
  | none =>
    rw [hshift] at hagrees
    exact absurd (hs.symm.trans hagrees) (by simp)
  | some result =>
    have hsettles := settles_shift? (by omega) hshift
    rw [hshift] at hagrees
    cases result with
    | error error =>
      -- There is room for the token, and it can be read.
      rcases hagrees with ⟨bound, hfault⟩ | hunread
      · exact absurd hfault (hsettles.of_error bound)
      · exact absurd hread hunread
    | ok next =>
      have hweight := hsettles.of_ok
      have hstance : next.stance = s := Option.some.inj (hagrees.1.symm.trans hs)
      exact ⟨next, take?_eq_some_iff.mpr ⟨opened, hopen, hshift⟩, hstance, by omega⟩

theorem read?_of_stance {ts : List Token} {c : Configuration}
    (hs : c.stance.read? (ts.map Token.kind) = some s) (hread : Readable (ts.map Token.kind))
    (hroom : c.weight + 2 * ts.length ≤ limit) :
    ∃ c', c.read? limit ts = some c' ∧ c'.stance = s := by
  induction ts generalizing c with
  | nil => exact ⟨c, rfl, by simpa using hs⟩
  | cons t ts ih =>
    rw [List.map_cons, Stance.read?_cons] at hs
    obtain ⟨next, hnext, hs⟩ := Option.bind_eq_some_iff.mp hs
    rw [List.map_cons, ← List.singleton_append, readable_append] at hread
    rw [List.length_cons] at hroom
    have hpos : c.weight + 2 ≤ limit := by omega
    obtain ⟨c', htake, rfl, hweight⟩ := take?_of_stance hnext hread.1 hpos
    obtain ⟨last, hlast, hstance⟩ := ih hs hread.2 (by omega)
    exact ⟨last, by simp [htake, hlast], hstance⟩

end Configuration

/-- Every word that leads from an operand that is due to an operator that is due has a
derivation in which equalities extend to the end of their groups, and two levels of nesting
for each token are enough for it. -/
theorem Stance.exists_derivation {word : List Kind} {next : Kind}
    (h : (operand true 0).read? word = some (operator 0)) (hnum : Readable word)
    (hnext : next.EndsGroup) :
    ∃ d : Derivation .expression, d.word = word ∧ d.Extends next ∧
      d.charge ≤ 2 * word.length := by
  set ts : List Token := word.map (⟨·, 0⟩) with hts
  have hkinds : ts.map Token.kind = word := by
    simp [hts, Function.comp_def]
  have hlength : ts.length = word.length := by
    rw [hts, List.length_map]
  have hstart : (start 0).stance.read? (ts.map Token.kind) = some (.operator 0) := by
    rw [hkinds]
    exact h
  have hroom : (start 0).weight + 2 * ts.length ≤ ((2 * ts.length : Nat) : Int) := by
    simp [weight, start]
  obtain ⟨c, hread, hstance⟩ := read?_of_stance hstart (hkinds ▸ hnum) hroom
  -- The reading has come to an operator with no parenthesis open, so it is complete.
  obtain ⟨left, hleft⟩ : ∃ left, c.expected = .operator left := by
    unfold stance at hstance
    split at hstance <;> first | exact ⟨_, ‹_›⟩ | exact absurd hstance (by simp)
  have hgroup : ∀ f ∈ c.frames, f.isGroup = false := by
    simpa [stance, hleft, List.countP_eq_zero] using hstance
  have hcomp : c.Completes ⟨next, 0⟩ (completeAll c.frames left) :=
    ⟨left, hleft, Kind.endsGroup_iff.mp hnext, hgroup, rfl⟩
  obtain ⟨d, hword, hext⟩ := Linewise.exists_derivation hread hcomp
  obtain ⟨-, hcharge, -⟩ := (Derivation.read?_start hext hword.symm).mp hread
  refine ⟨d, hword.trans hkinds, hext, ?_⟩
  rw [← hlength]
  rw [room_natCast_zero] at hcharge
  exact hcharge

/-- Every derivable word has a derivation in which equalities extend to the end of
their groups, and two levels of nesting for each token are enough for it. -/
theorem Derivation.exists_extends (d : Derivation .expression) {next : Kind}
    (hnum : Readable d.word) (hnext : next.EndsGroup) :
    ∃ d' : Derivation .expression, d'.word = d.word ∧ d'.Extends next ∧
      d'.charge ≤ 2 * d.word.length :=
  Stance.exists_derivation (Stance.read?_word d 0 fun _ => rfl) hnum hnext

end Linewise
