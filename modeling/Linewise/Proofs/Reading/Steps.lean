/-
Reading as steps that succeed.

* `Configuration.take?`, `Configuration.read?` — the configuration after one
  more token, or after a list of tokens, if every one is taken;
* `Shifts`, `shifts_of_shift?` — all that a token can do;
* `Configuration.Completes` — an expression ends before a token;
* `run_eq_ok_iff` — a run succeeds exactly if its tokens start with some that
  are read into a configuration which completes the expression.

Design notes: `Configuration.run` reports errors and where they are; what it
accepts is easier to say without them.
-/
import Linewise.Reader
import Linewise.Proofs.Results
import Mathlib.Data.List.TakeWhile

namespace Linewise

open Linewise.Frame

/-- The tokens that open a level of nesting: a parenthesis, and an operator before its
operand or between two. -/
def Kind.opensLevel : Kind → Bool
  | leftParen | not => true
  | k => k.binary?.isSome

namespace Configuration

/-- The number of levels that may still be opened, `depth` levels deep. -/
def room (limit : Int) (depth : Nat) : Nat := (limit - depth).toNat

/-- The configuration after one more token, if it is taken. -/
def take? (limit : Int) (c : Configuration) (t : Token) : Option Configuration :=
  match c.openRightSide limit with
  | .error _ => none
  | .ok opened =>
    match opened.shift? limit t with
    | some (.ok next) => some next
    | _ => none

/-- The configuration after a list of tokens, if all of them are taken. -/
def read? (limit : Int) (c : Configuration) (ts : List Token) : Option Configuration :=
  ts.foldlM (take? limit) c

/-- The expression `e` is complete before the token `t`. -/
def Completes (c : Configuration) (t : Token) (e : Expr) : Prop :=
  ∃ left, c.expected = .operator left ∧ t.kind.binary? = none ∧
    (∀ f ∈ c.frames, f.isGroup = false) ∧ completeAll c.frames left = e

variable {limit : Int} {c c' : Configuration} {t : Token}

@[simp] theorem read?_nil : c.read? limit [] = some c := rfl

@[simp] theorem read?_cons (ts : List Token) :
    c.read? limit (t :: ts) = (c.take? limit t).bind fun next => next.read? limit ts := rfl

@[simp] theorem read?_singleton : c.read? limit [t] = c.take? limit t := by
  rw [read?_cons]
  exact Option.bind_fun_some (c.take? limit t)

theorem read?_append (ts us : List Token) :
    c.read? limit (ts ++ us) = (c.read? limit ts).bind fun next => next.read? limit us := by
  rw [read?, List.foldlM_append]
  rfl

theorem room_pos_iff {depth : Nat} : 0 < room limit depth ↔ (depth : Int) < limit := by
  rw [room]
  omega

theorem room_add (limit : Int) (depth levels : Nat) :
    room limit (depth + levels) = room limit depth - levels := by
  rw [room, room]
  omega

theorem room_natCast_zero (limit : Nat) : room limit 0 = limit := by
  rw [room]
  omega

theorem le_room_zero {levels : Nat} (h : (levels : Int) ≤ limit) : levels ≤ room limit 0 := by
  rw [room]
  omega

theorem deepen_eq_ok_iff {column : Nat} {expected : Expected} {frames : List Frame}
    {depth : Nat} : deepen limit column expected frames depth = .ok c ↔
      0 < room limit depth ∧ c = ⟨expected, frames, depth + 1⟩ := by
  rw [room_pos_iff, deepen]
  split
  · next hfull =>
    constructor
    · intro h
      exact absurd h (by simp)
    · rintro ⟨hroom, -⟩
      exact absurd hroom (Int.not_lt.mpr hfull)
  · next hroom =>
    constructor
    · intro h
      exact ⟨Int.not_le.mp hroom, (Except.ok.inj h).symm⟩
    · rintro ⟨-, rfl⟩
      rfl

theorem eq_of_deepen_error {column depth : Nat} {expected : Expected} {frames : List Frame}
    {error : ParseError} (h : deepen limit column expected frames depth = .error error) :
    error = ⟨.nestingTooDeep limit, column⟩ := by
  rw [deepen] at h
  split at h
  · exact (Except.error.inj h).symm
  · exact absurd h (by simp)

theorem openRightSide_operator {left : Expr} (h : c.expected = .operator left) :
    c.openRightSide limit = .ok c := by
  simp [openRightSide, h]

/-- Opening the right side of an equality leaves an operand to be read. -/
theorem expected_of_openRightSide (h : c.openRightSide limit = .ok c') :
    (∃ negatable, c'.expected = .operand negatable) ∨ c' = c := by
  unfold openRightSide at h
  split at h
  · obtain ⟨-, rfl⟩ := deepen_eq_ok_iff.mp h
    exact Or.inl ⟨true, rfl⟩
  · exact Or.inr (Except.ok.inj h).symm

theorem take?_eq_some_iff : c.take? limit t = some c' ↔
    ∃ opened, c.openRightSide limit = .ok opened ∧ opened.shift? limit t = some (.ok c') := by
  rw [take?]
  cases c.openRightSide limit with
  | error error => simp
  | ok opened =>
    rcases hs : opened.shift? limit t with _ | (error | next)
    · simp [hs]
    · simp [hs]
    · simp [hs]

theorem take?_eq_some_iff_of_open (h : c.openRightSide limit = .ok c) :
    c.take? limit t = some c' ↔ c.shift? limit t = some (.ok c') := by
  rw [take?_eq_some_iff]
  constructor
  · rintro ⟨opened, hopen, hshift⟩
    obtain rfl := Except.ok.inj (h.symm.trans hopen)
    exact hshift
  · intro hshift
    exact ⟨c, h, hshift⟩

theorem take?_operand_iff {negatable : Bool} {fs : List Frame} {depth : Nat} :
    (⟨.operand negatable, fs, depth⟩ : Configuration).take? limit t = some c' ↔
      (⟨.operand negatable, fs, depth⟩ : Configuration).shiftOperand limit negatable t =
        some (.ok c') :=
  take?_eq_some_iff_of_open rfl

theorem take?_operator_iff {left : Expr} {fs : List Frame} {depth : Nat} :
    (⟨.operator left, fs, depth⟩ : Configuration).take? limit t = some c' ↔
      (⟨.operator left, fs, depth⟩ : Configuration).shift? limit t = some (.ok c') :=
  take?_eq_some_iff_of_open rfl

/-- The first token after an equality opens its right side. -/
theorem take?_rightSide_iff {column depth : Nat} {fs : List Frame} :
    (⟨.rightSide column, fs, depth⟩ : Configuration).take? limit t = some c' ↔
      0 < room limit depth ∧
        (⟨.operand true, .rightSide :: fs, depth + 1⟩ : Configuration).take? limit t = some c' := by
  have hopen : (⟨.rightSide column, fs, depth⟩ : Configuration).openRightSide limit =
    deepen limit column (.operand true) (.rightSide :: fs) depth := rfl
  rw [take?_eq_some_iff, hopen]
  constructor
  · rintro ⟨opened, hdeepen, hshift⟩
    obtain ⟨hroom, rfl⟩ := deepen_eq_ok_iff.mp hdeepen
    exact ⟨hroom, take?_operand_iff.mpr hshift⟩
  · rintro ⟨hroom, htake⟩
    exact ⟨_, deepen_eq_ok_iff.mpr ⟨hroom, rfl⟩, take?_operand_iff.mp htake⟩

/-! ### What a token does -/

/-- Only a sign of equality after an operand leaves a right side to be opened, and the right
side remembers its column. -/
def WaitsAt (c : Configuration) (t : Token) (expected : Expected) : Prop :=
  ∀ column, expected = .rightSide column → column = t.column ∧
    (∃ left, c.expected = .operator left) ∧ ∃ op, t.kind.binary? = some op ∧ op.isEquality = true

/-- What comes of taking a token: it completes an operand, it opens a level for the next
one, or it is a number that cannot be read. -/
def Shifts (limit : Int) (c : Configuration) (t : Token)
    (result : Except ParseError Configuration) : Prop :=
  (∃ e frames depth, depth ≤ c.depth ∧ result = .ok ⟨.operator e, frames, depth⟩) ∨
  (t.kind.opensLevel = true ∧ ∃ expected frames depth, depth ≤ c.depth ∧ WaitsAt c t expected ∧
    result = deepen limit t.column expected frames depth) ∨
  ∃ spelling, t.kind = .number spelling ∧ Number.read? spelling = none ∧
    result = .error ⟨.invalidNumber spelling, t.column⟩

theorem shifts_of_shiftOperand {negatable : Bool} {result : Except ParseError Configuration}
    (h : c.shiftOperand limit negatable t = some result) : Shifts limit c t result := by
  have hoperand : ∀ e, some (Except.ok { c with expected := .operator e }) = some result →
      Shifts limit c t result :=
    fun e he => Or.inl ⟨e, c.frames, c.depth, Nat.le_refl _, (Option.some.inj he).symm⟩
  have henter : ∀ f inner, t.kind.opensLevel = true →
      some (deepen limit t.column (.operand inner) (f :: c.frames) c.depth) = some result →
      Shifts limit c t result := by
    intro f inner hopens hdeepen
    exact Or.inr (Or.inl ⟨hopens, .operand inner, f :: c.frames, c.depth, Nat.le_refl _,
      by simp [WaitsAt], (Option.some.inj hdeepen).symm⟩)
  unfold shiftOperand at h
  split at h
  case h_1 spelling hkind =>
    split at h
    · exact hoperand _ h
    · next hread => exact Or.inr (Or.inr ⟨spelling, hkind, hread, (Option.some.inj h).symm⟩)
  case h_2 => exact hoperand _ h
  case h_3 => exact hoperand _ h
  case h_4 => exact hoperand _ h
  case h_5 hkind => exact henter _ _ (by rw [hkind]; rfl) h
  case h_6 hkind => exact henter _ _ (by rw [hkind]; rfl) h
  case h_7 hkind => exact henter _ _ (by rw [hkind]; rfl) h
  case h_8 hkind =>
    split at h
    · exact henter _ _ (by rw [hkind]; rfl) h
    · exact absurd h (by simp)
  case h_9 => exact absurd h (by simp)

theorem shifts_of_shift? {result : Except ParseError Configuration}
    (h : c.shift? limit t = some result) : Shifts limit c t result := by
  unfold shift? at h
  split at h
  · exact shifts_of_shiftOperand h
  · exact shifts_of_shiftOperand h
  · next left hleft =>
    split at h
    · next op hop =>
      have hopens : t.kind.opensLevel = true := by
        cases hk : t.kind <;> first | rfl | exact absurd hop (by simp [hk, Kind.binary?])
      refine Or.inr (Or.inl ⟨hopens, _, _, _, Nat.sub_le _ _, ?_, (Option.some.inj h).symm⟩)
      intro column hwaits
      split at hwaits
      · next hequality =>
        exact ⟨(Expected.rightSide.inj hwaits).symm, ⟨left, hleft⟩, op, hop, hequality⟩
      · exact absurd hwaits (by simp)
    · split at h
      · obtain ⟨closed, hclosing, rfl⟩ := Option.map_eq_some_iff.mp h
        unfold shiftClosing at hclosing
        split at hclosing
        · exact absurd hclosing (by simp)
        · obtain rfl := Option.some.inj hclosing
          exact Or.inl ⟨_, _, _, Nat.le_trans (Nat.sub_le _ _) (Nat.sub_le _ _), rfl⟩
      · exact absurd h (by simp)

/-! ### The end of an expression -/

theorem shiftClosing_eq_none_iff {left : Expr} :
    c.shiftClosing left = none ↔ ∀ f ∈ c.frames, f.isGroup = false := by
  unfold shiftClosing
  constructor
  · intro h f hf
    split at h
    case h_1 hnil =>
      have hall := List.dropWhile_eq_nil_iff.mp hnil f hf
      simpa using hall
    case h_2 => exact absurd h (by simp)
  · intro h
    have hnil : c.frames.dropWhile (!·.isGroup) = [] :=
      List.dropWhile_eq_nil_iff.mpr fun f hf => by simp [h f hf]
    simp [hnil]

theorem completes_iff (limit : Int) {e : Expr} :
    c.Completes t e ↔ c.shift? limit t = none ∧ c.finish t = .ok e ∧
      ∃ left, c.expected = .operator left := by
  constructor
  · rintro ⟨left, hleft, hbin, hgroup, rfl⟩
    have hany : c.frames.any Frame.isGroup = false := by simpa using hgroup
    refine ⟨?_, by simp [finish, hleft, hany], left, hleft⟩
    simp [shift?, hleft, hbin, shiftClosing_eq_none_iff.mpr hgroup]
  · rintro ⟨hshift, hfinish, left, hleft⟩
    have hbin : t.kind.binary? = none := by
      cases hk : t.kind.binary? with
      | none => rfl
      | some op => simp [shift?, hleft, hk] at hshift
    simp only [finish, hleft] at hfinish
    split at hfinish
    · exact absurd hfinish (by simp)
    · next hany =>
      refine ⟨left, hleft, hbin, ?_, Except.ok.inj hfinish⟩
      simpa using hany

/-- An expression that can be finished was not waiting for the right side of an
equality. -/
theorem completes_of_finish {opened : Configuration} {e : Expr}
    (hopen : c.openRightSide limit = .ok opened) (hshift : opened.shift? limit t = none)
    (hfin : opened.finish t = .ok e) : opened = c ∧ c.Completes t e := by
  -- An opened right side expects an operand, so nothing was opened.
  have hoperator : ∃ left, opened.expected = .operator left := by
    unfold finish at hfin
    split at hfin
    · exact ⟨_, ‹_›⟩
    · exact absurd hfin (by simp)
  obtain ⟨left, hleft⟩ := hoperator
  obtain ⟨negatable, hneg⟩ | rfl := expected_of_openRightSide hopen
  · exact absurd (hneg.symm.trans hleft) (by simp)
  · exact ⟨rfl, (completes_iff limit).mpr ⟨hshift, hfin, left, hleft⟩⟩

variable {ending : Ending} {ts rest : List Token} {e : Expr} {depth : Nat}

theorem run_nil_eq_ok_iff : c.run limit ending [] = ⟨.ok e, rest, depth⟩ ↔
    ∃ next, TokenStream.current ⟨[], ending⟩ = .ok next ∧ c.Completes next e ∧
      rest = [] ∧ depth = c.outerDepth := by
  cases ending with
  | failed error => simp [run, TokenStream.current]
  | endOfLine column =>
    constructor
    · intro h
      simp only [run, Reading.mk.injEq] at h
      obtain ⟨hres, rfl, rfl⟩ := h
      refine ⟨⟨.endOfLine, column⟩, rfl, ?_, rfl, rfl⟩
      obtain ⟨opened, hopen, hfin⟩ := bind_eq_ok_iff.mp (mapError_eq_ok_iff.mp hres)
      -- No expression goes on with the end of the line.
      have hshift : opened.shift? limit ⟨.endOfLine, column⟩ = none := by
        unfold shift?
        split <;> simp [shiftOperand, Kind.binary?]
      exact (completes_of_finish hopen hshift hfin).2
    · rintro ⟨next, hnext, hcomp, rfl, rfl⟩
      obtain rfl : next = ⟨.endOfLine, column⟩ := by simpa [TokenStream.current] using hnext.symm
      obtain ⟨-, hfin, left, hleft⟩ := (completes_iff limit).mp hcomp
      have hres : ((c.openRightSide limit).bind fun c => c.finish ⟨.endOfLine, column⟩).mapError
          LineError.parse = .ok e :=
        mapError_eq_ok_iff.mpr (bind_eq_ok_iff.mpr ⟨c, openRightSide_operator hleft, hfin⟩)
      rw [run, hres]

theorem run_cons_eq_ok_iff : c.run limit ending (t :: ts) = ⟨.ok e, rest, depth⟩ ↔
    (∃ next, c.take? limit t = some next ∧ next.run limit ending ts = ⟨.ok e, rest, depth⟩) ∨
      c.Completes t e ∧ rest = t :: ts ∧ depth = c.outerDepth := by
  constructor
  · intro h
    rw [run] at h
    split at h
    · exact absurd h (by simp)
    · next opened hopen =>
      split at h
      · next next hshift =>
        exact Or.inl ⟨next, take?_eq_some_iff.mpr ⟨opened, hopen, hshift⟩, h⟩
      · exact absurd h (by simp)
      · next hshift =>
        simp only [Reading.mk.injEq] at h
        obtain ⟨hres, rfl, rfl⟩ := h
        obtain ⟨rfl, hcomp⟩ := completes_of_finish hopen hshift (mapError_eq_ok_iff.mp hres)
        exact Or.inr ⟨hcomp, rfl, rfl⟩
  · rintro (⟨next, htake, hrun⟩ | ⟨hcomp, rfl, rfl⟩)
    · obtain ⟨opened, hopen, hshift⟩ := take?_eq_some_iff.mp htake
      simpa [run, hopen, hshift] using hrun
    · obtain ⟨hshift, hfin, left, hleft⟩ := (completes_iff limit).mp hcomp
      simp [run, openRightSide_operator hleft, hshift, hfin]

/-- What a run accepts. -/
theorem run_eq_ok_iff : c.run limit ending ts = ⟨.ok e, rest, depth⟩ ↔
    ∃ consumed c' next, ts = consumed ++ rest ∧ c.read? limit consumed = some c' ∧
      TokenStream.current ⟨rest, ending⟩ = .ok next ∧ c'.Completes next e ∧
      depth = c'.outerDepth := by
  -- By induction on the tokens: the first is taken, or the expression ends before it.
  induction ts generalizing c with
  | nil =>
    rw [run_nil_eq_ok_iff]
    constructor
    · rintro ⟨next, hnext, hcomp, rfl, rfl⟩
      exact ⟨[], c, next, rfl, rfl, hnext, hcomp, rfl⟩
    · rintro ⟨consumed, c', next, hts, hread, hnext, hcomp, rfl⟩
      obtain ⟨rfl, rfl⟩ := List.append_eq_nil_iff.mp hts.symm
      obtain rfl : c = c' := by simpa using hread
      exact ⟨next, hnext, hcomp, rfl, rfl⟩
  | cons t ts ih =>
    rw [run_cons_eq_ok_iff]
    constructor
    · rintro (⟨next, htake, hrun⟩ | ⟨hcomp, rfl, rfl⟩)
      · obtain ⟨consumed, c', last, rfl, hread, hcur, hcomp, rfl⟩ := ih.mp hrun
        exact ⟨t :: consumed, c', last, rfl, by simp [htake, hread], hcur, hcomp, rfl⟩
      · exact ⟨[], c, t, rfl, rfl, rfl, hcomp, rfl⟩
    · rintro ⟨consumed, c', last, hts, hread, hnext, hcomp, rfl⟩
      cases consumed with
      | nil =>
        obtain rfl : c = c' := by simpa using hread
        subst hts
        obtain rfl : t = last := by simpa [TokenStream.current] using hnext
        exact Or.inr ⟨hcomp, rfl, rfl⟩
      | cons u consumed =>
        obtain ⟨rfl, rfl⟩ : t = u ∧ ts = consumed ++ rest := by simpa using hts
        obtain ⟨next, htake, hread⟩ := Option.bind_eq_some_iff.mp hread
        exact Or.inl ⟨next, htake, ih.mpr ⟨consumed, c', last, rfl, hread, hnext, hcomp, rfl⟩⟩

end Configuration

end Linewise
