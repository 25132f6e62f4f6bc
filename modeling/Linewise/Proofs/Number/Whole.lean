/-
Doubles that are whole numbers.

* `Binary.toRat` — the rational number that a finite double is;
* `Binary.whole?_eq_some_iff` — a double is read as the integer that it is, and as none if it
  is no integer;
* `Binary.zero_lt_iff` — the finite doubles above zero, by their parts;
* `IsInt.zero_lt_iff` — of the whole doubles those above zero are the positive integers.

Design notes: comparing doubles takes them apart by the bits of a word, and `Binary.ofFloat`
by arithmetic on it.  The two agree part by part.
-/
import Linewise.Number.Binary
import Mathlib

namespace Linewise.Number

open Float.Model Float.Model.UnpackedFloat

/-- A fraction is whole exactly if nothing is left of its division. -/
theorem mod_eq_zero_and_div_eq_iff {a d : Nat} {m : Int} (hd : 0 < d) :
    (a % d = 0 ∧ ((a / d : Nat) : Int) = m) ↔ (a : Int) = m * d := by
  constructor
  · rintro ⟨hmod, rfl⟩
    exact_mod_cast (Nat.div_mul_cancel (Nat.dvd_of_mod_eq_zero hmod)).symm
  · intro h
    have hm : 0 ≤ m := by
      by_contra hneg
      have hlt := mul_neg_of_neg_of_pos (Int.not_le.mp hneg) (Int.natCast_pos.mpr hd)
      omega
    lift m to Nat using hm
    have ha : a = m * d := by exact_mod_cast h
    rw [ha, Nat.mul_mod_left, Nat.mul_div_cancel m hd]
    exact ⟨rfl, rfl⟩

namespace Binary

/-- The rational number that a finite double is. -/
def toRat (b : Binary) : ℚ :=
  (if b.negative then -1 else 1) * (b.mantissa * 2 ^ ((b.place : ℤ) - 1075))

/-- The denominator of a finite double, a power of two. -/
def denominator (b : Binary) : Nat := Nat.pow 2 (1075 - b.place)

/-- The numerator of the size of a finite double over this denominator. -/
def numerator (b : Binary) : Nat := b.mantissa * Nat.pow 2 (b.place - 1075)

theorem denominator_pos (b : Binary) : 0 < b.denominator := Nat.two_pow_pos _

theorem mantissa_mul_zpow (b : Binary) :
    (b.mantissa : ℚ) * 2 ^ ((b.place : ℤ) - 1075) = b.numerator / b.denominator := by
  have htwo : (2 : ℚ) ≠ 0 := by norm_num
  have hplace : (b.place : ℤ) - 1075 + (1075 - b.place : Nat) = (b.place - 1075 : Nat) := by omega
  rw [eq_div_iff (Nat.cast_ne_zero.mpr b.denominator_pos.ne'), denominator, numerator, Nat.pow_eq,
    Nat.pow_eq, Nat.cast_mul, Nat.cast_pow, Nat.cast_pow, Nat.cast_ofNat, mul_assoc,
    ← zpow_natCast, ← zpow_natCast, ← zpow_add₀ htwo, hplace]

/-- A double is read as the integer that it is. -/
theorem whole?_eq_some_iff {b : Binary} {n : Int} :
    b.whole? = some n ↔ b.isFinite = true ∧ b.toRat = n := by
  have hfraction : ∀ m : Int, (b.mantissa : ℚ) * 2 ^ ((b.place : ℤ) - 1075) = m ↔
      b.numerator % b.denominator = 0 ∧ ((b.numerator / b.denominator : Nat) : Int) = m := by
    intro m
    rw [mantissa_mul_zpow, div_eq_iff (Nat.cast_ne_zero.mpr b.denominator_pos.ne'),
      mod_eq_zero_and_div_eq_iff b.denominator_pos]
    norm_cast
  have hwhole : b.whole? = some n ↔ b.isFinite = true ∧ b.numerator % b.denominator = 0 ∧
      (if b.negative then -((b.numerator / b.denominator : Nat) : Int)
        else ((b.numerator / b.denominator : Nat) : Int)) = n := by
    rw [whole?, ← numerator, ← denominator, Option.ite_none_right_eq_some, Bool.and_eq_true,
      beq_iff_eq, Option.some_inj, and_assoc]
    rfl
  rw [hwhole, toRat]
  refine and_congr_right fun _ => ?_
  cases b.negative with
  | true =>
    have hopposite := hfraction (-n)
    rw [Int.cast_neg] at hopposite
    rw [if_pos rfl, if_pos rfl, neg_one_mul, neg_eq_iff_eq_neg, neg_eq_iff_eq_neg, hopposite]
  | false =>
    rw [if_neg Bool.false_ne_true, if_neg Bool.false_ne_true, one_mul, hfraction]

/-! ### The parts of a double -/

/-- The word that a double is stored as. -/
abbrev word (x : Float) : BitVec Format.binary64.numBits := x.toBits.toBitVec

theorem biased_ofFloat (x : Float) :
    (unpackExponent (word x)).toNat = (ofFloat x).biased := by
  have hmask := Nat.and_two_pow_sub_one_eq_mod (x.toBits.toNat / 2 ^ 52) 11
  norm_num at hmask
  simpa [unpackExponent_def, Nat.shiftRight_eq_div_pow, ofFloat] using hmask.symm

theorem fraction_ofFloat (x : Float) :
    (unpackMantissa (word x)).toNat = (ofFloat x).fraction := by
  have hmask := Nat.and_two_pow_sub_one_eq_mod x.toBits.toNat 52
  norm_num at hmask
  simpa [unpackMantissa_def, Nat.shiftRight_eq_div_pow, ofFloat] using hmask.symm

theorem negative_ofFloat (x : Float) :
    Sign.ofBitVec (unpackSign (word x)) =
      if (ofFloat x).negative then .negative else .positive := by
  have hbound := x.toBits.toNat_lt
  have hbit : (unpackSign (word x)).toNat = x.toBits.toNat / 2 ^ 63 := by
    simp [unpackSign_def, Nat.shiftRight_eq_div_pow]
    omega
  have hnegative : (ofFloat x).negative = decide (x.toBits.toNat / 2 ^ 63 = 1) := by
    rw [Bool.eq_iff_iff, decide_eq_true_eq, ofFloat, beq_iff_eq, ← UInt64.toNat_inj]
    simp [Nat.shiftRight_eq_div_pow]
  have hpositive : unpackSign (word x) = 0#1 ↔ x.toBits.toNat / 2 ^ 63 = 0 := by
    rw [← BitVec.toNat_inj, hbit]
    rfl
  by_cases hone : x.toBits.toNat / 2 ^ 63 = 1
  · have hne : ¬ x.toBits.toNat / 2 ^ 63 = 0 := by omega
    rw [hnegative, Sign.ofBitVec, if_neg (hpositive.not.mpr hne)]
    exact (if_pos (decide_eq_true hone)).symm
  · have hzero : x.toBits.toNat / 2 ^ 63 = 0 := by omega
    rw [hnegative, Sign.ofBitVec, if_pos (hpositive.mpr hzero)]
    exact (if_neg (by simpa using hone)).symm

/-- A finite double, taken apart as comparisons do: a zero or a number with its sign. -/
theorem unpack_of_isFinite {x : Float} (h : (ofFloat x).isFinite = true) :
    (∃ s, (ofFloat x).isZero = true ∧ x.toModel.unpack = .zero s) ∨
      ∃ m e hm, (ofFloat x).isZero = false ∧ x.toModel.unpack =
        .finite (if (ofFloat x).negative then .negative else .positive) m e hm := by
  have hbiased := biased_ofFloat x
  have hfraction := fraction_ofFloat x
  have hexponent : unpackExponent (word x) ≠ -1#11 := by
    intro heq
    rw [heq] at hbiased
    rw [isFinite, ← hbiased] at h
    exact absurd h (by decide)
  have hunpack : x.toModel.unpack = UnpackedFloat.unpack Format.binary64 (word x) := rfl
  rw [hunpack, UnpackedFloat.unpack]
  simp only [if_neg hexponent, negative_ofFloat]
  by_cases hsmall : unpackExponent (word x) = 0#11
  · have hzero : (ofFloat x).biased = 0 := by
      rw [← hbiased, hsmall]
      rfl
    simp only [if_pos hsmall]
    by_cases hnone : unpackMantissa (word x) = 0#52
    · refine Or.inl ⟨_, ?_, dif_pos hnone⟩
      simp [isZero, hzero, ← hfraction, hnone]
    · have hne : (ofFloat x).fraction ≠ 0 := by
        intro heq
        exact hnone (BitVec.eq_of_toNat_eq (hfraction.trans heq))
      have hm : 0 < (unpackMantissa (word x)).toNat := hfraction ▸ Nat.pos_of_ne_zero hne
      exact Or.inr ⟨_, _, hm, by simp [isZero, hne], dif_neg hnone⟩
  · have hne : (ofFloat x).biased ≠ 0 := by
      intro heq
      exact hsmall (BitVec.eq_of_toNat_eq (hbiased.trans heq))
    -- The hidden leading bit makes the mantissa positive.
    have hm : 0 < (1#1 ++ unpackMantissa (word x)).toNat := by
      rw [BitVec.toNat_append]
      exact Nat.lt_of_lt_of_le (by decide) Nat.left_le_or
    simp only [if_neg hsmall]
    exact Or.inr ⟨_, _, hm, by simp [isZero, hne], rfl⟩

/-- The finite doubles above zero. -/
theorem zero_lt_iff {x : Float} (h : (ofFloat x).isFinite = true) :
    0 < x ↔ (ofFloat x).negative = false ∧ (ofFloat x).isZero = false := by
  have hcompare : (0 < x) ↔ (UnpackedFloat.zero .positive).lt x.toModel.unpack = true := by
    rw [← show (0 : Float).toModel.unpack = .zero .positive from rfl]
    exact decide_eq_true_iff
  rw [hcompare]
  rcases unpack_of_isFinite h with ⟨s, hzero, hunpack⟩ | ⟨m, e, hm, hzero, hunpack⟩
  · rw [hunpack, hzero]
    cases s <;> simp [UnpackedFloat.lt, UnpackedFloat.compare]
  · rw [hunpack, hzero]
    cases (ofFloat x).negative <;> simp [UnpackedFloat.lt, UnpackedFloat.compare]

theorem isZero_iff (b : Binary) : b.isZero = true ↔ b.mantissa = 0 := by
  rw [isZero, mantissa, Bool.and_eq_true, beq_iff_eq, beq_iff_eq]
  split
  · next hzero => simp [hzero]
  · next hzero => simp [hzero]

theorem toRat_pos_iff (b : Binary) : 0 < b.toRat ↔ b.negative = false ∧ b.isZero = false := by
  have hpower : (0 : ℚ) < 2 ^ ((b.place : ℤ) - 1075) := zpow_pos two_pos _
  rw [← Bool.not_eq_true b.isZero, isZero_iff, toRat]
  cases b.negative with
  | true =>
    have hsize := mul_nonneg (Nat.cast_nonneg b.mantissa) hpower.le
    simpa using hsize
  | false =>
    simp [mul_pos_iff_of_pos_right hpower, Nat.pos_iff_ne_zero]

end Binary

/-- The double is the integer `n`. -/
def IsInt (x : Float) (n : Int) : Prop :=
  (Binary.ofFloat x).isFinite = true ∧ (Binary.ofFloat x).toRat = n

theorem whole?_eq_some_iff {x : Float} {n : Int} : whole? x = some n ↔ IsInt x n :=
  Binary.whole?_eq_some_iff

/-- Of the whole doubles those above zero are the positive integers. -/
theorem IsInt.zero_lt_iff {x : Float} {n : Int} (h : IsInt x n) : 0 < x ↔ 0 < n := by
  obtain ⟨hfinite, hvalue⟩ := h
  rw [Binary.zero_lt_iff hfinite, ← Binary.toRat_pos_iff, hvalue, Int.cast_pos]

end Linewise.Number
