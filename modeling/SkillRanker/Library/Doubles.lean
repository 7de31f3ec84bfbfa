import Mathlib.Algebra.Order.Field.Basic
import Mathlib.Algebra.Order.Field.Power
import Mathlib.Algebra.Order.Field.Rat
import Mathlib.Data.Nat.Cast.Order.Ring
import Mathlib.Tactic.Linarith
import Mathlib.Tactic.Positivity
import Mathlib.Tactic.Ring

/-! Numbers in the binary64 format: the exact rationals that they stand for, and the bits of the ones
between zero and one.
-/

namespace SkillRanker.Library
open Float.Model

/-- The rational that a finite number stands for. -/
def exactValue (number : Float.Model) : ℚ :=
  match number.unpack with
  | .finite .positive mantissa exponent _ => mantissa * 2 ^ exponent
  | .finite .negative mantissa exponent _ => -(mantissa * 2 ^ exponent)
  | _ => 0

def exponentField (bits : BitVec 64) : Nat := ((bits >>> 52) &&& 0x7ff#64).toNat

def fractionField (bits : BitVec 64) : BitVec 64 := bits &&& ((1#64 <<< 52) - 1#64)

theorem exponentField_eq (bits : BitVec 64)
    : exponentField bits = bits.toNat / 2 ^ 52 % 2 ^ 11 := by
  have mask : (0x7ff#64).toNat = 2 ^ 11 - 1 := rfl
  rw [exponentField, BitVec.toNat_and, mask, Nat.and_two_pow_sub_one_eq_mod,
    BitVec.toNat_ushiftRight, Nat.shiftRight_eq_div_pow]

theorem fractionField_eq (bits : BitVec 64)
    : (fractionField bits).toNat = bits.toNat % 2 ^ 52 := by
  have mask : ((1#64 <<< 52) - 1#64).toNat = 2 ^ 52 - 1 := rfl
  rw [fractionField, BitVec.toNat_and, mask, Nat.and_two_pow_sub_one_eq_mod]

theorem toNat_unpackMantissa (bits : BitVec 64)
    : (@UnpackedFloat.unpackMantissa Format.binary64 bits).toNat = (fractionField bits).toNat := by
  rw [fractionField_eq]
  simp [UnpackedFloat.unpackMantissa, Format.numBits]

theorem toNat_unpackExponent (bits : BitVec 64)
    : (@UnpackedFloat.unpackExponent Format.binary64 bits).toNat = exponentField bits := by
  rw [exponentField_eq]
  simp [UnpackedFloat.unpackExponent, Format.numBits, Nat.shiftRight_eq_div_pow]

def signOf (bits : BitVec 64) : UnpackedFloat.Sign :=
  .ofBitVec (@UnpackedFloat.unpackSign Format.binary64 bits)

theorem unpack_highest {bits : BitVec 64} (highest : exponentField bits = 2 ^ 11 - 1)
    : (UnpackedFloat.unpack Format.binary64 bits).isFinite = false := by
  have all : @UnpackedFloat.unpackExponent Format.binary64 bits = -1#_ := by
    refine BitVec.eq_of_toNat_eq ?_
    rw [toNat_unpackExponent, highest]
    rfl
  unfold UnpackedFloat.unpack
  dsimp only
  rw [if_pos all]
  split <;> rfl

theorem finite_congr {sign : UnpackedFloat.Sign} {mantissa mantissa' : Nat} {exponent exponent' : Int}
    {positive : 0 < mantissa} (mantissas : mantissa = mantissa') (exponents : exponent = exponent')
    : ∃ positive', UnpackedFloat.finite sign mantissa exponent positive
      = .finite sign mantissa' exponent' positive' := by
  subst mantissas exponents
  exact ⟨positive, rfl⟩

/-- A number with the lowest exponent is a zero or subnormal. -/
theorem unpack_lowest {bits : BitVec 64} (lowest : exponentField bits = 0)
    : (fractionField bits).toNat = 0
        ∧ UnpackedFloat.unpack Format.binary64 bits = .zero (signOf bits)
      ∨ ∃ positive, UnpackedFloat.unpack Format.binary64 bits
          = .finite (signOf bits) (fractionField bits).toNat (-1074) positive := by
  have none : @UnpackedFloat.unpackExponent Format.binary64 bits = 0#_ := by
    refine BitVec.eq_of_toNat_eq ?_
    rw [toNat_unpackExponent, lowest]
    rfl
  have fraction := toNat_unpackMantissa bits
  unfold UnpackedFloat.unpack
  dsimp only
  rw [none, if_neg (by decide), if_pos rfl]
  by_cases zero : @UnpackedFloat.unpackMantissa Format.binary64 bits = 0#_
  · rw [zero] at fraction
    rw [dif_pos zero]
    exact Or.inl ⟨fraction.symm, rfl⟩
  · rw [dif_neg zero]
    exact Or.inr (finite_congr fraction rfl)

theorem unpack_normal {bits : BitVec 64} (notHighest : exponentField bits ≠ 2 ^ 11 - 1)
    (notLowest : exponentField bits ≠ 0)
    : ∃ positive, UnpackedFloat.unpack Format.binary64 bits
      = .finite (signOf bits) ((fractionField bits).toNat + 2 ^ 52)
          ((exponentField bits : Int) - 1075) positive := by
  have exponents := toNat_unpackExponent bits
  have fraction := toNat_unpackMantissa bits
  have notAll : @UnpackedFloat.unpackExponent Format.binary64 bits ≠ -1#_ := by
    intro all
    rw [all] at exponents
    exact notHighest exponents.symm
  have notNone : @UnpackedFloat.unpackExponent Format.binary64 bits ≠ 0#_ := by
    intro none
    rw [none] at exponents
    exact notLowest exponents.symm
  have hidden : (1#1 ++ @UnpackedFloat.unpackMantissa Format.binary64 bits).toNat
      = (fractionField bits).toNat + 2 ^ 52 := by
    have small := (@UnpackedFloat.unpackMantissa Format.binary64 bits).isLt
    rw [BitVec.toNat_append, ← Nat.shiftLeft_add_eq_or_of_lt small, fraction, Nat.add_comm]
    rfl
  have bias : ((Format.binary64.exponentBias : Int) + (52 : Nat)) = 1075 := rfl
  unfold UnpackedFloat.unpack
  dsimp only
  rw [if_neg notAll, if_neg notNone]
  exact finite_congr hidden (by rw [exponents, ← bias])

/-- A number is finite and above zero and below one, by its comparisons. -/
def IsFraction (number : Float.Model) : Prop :=
  number.isFinite ∧ ¬ number ≤ Float.Model.ofNat 0 ∧ ¬ Float.Model.ofNat 1 ≤ number

instance (number : Float.Model) : Decidable (IsFraction number) :=
  inferInstanceAs (Decidable (_ ∧ _ ∧ _))

/-- The units of the least number above zero that a number between zero and one has. -/
def fractionUnits (bits : BitVec 64) : Nat :=
  if exponentField bits = 0 then (fractionField bits).toNat
  else ((fractionField bits).toNat + 2 ^ 52) * 2 ^ (exponentField bits - 1)

theorem IsFraction.bits {number : Float.Model} (fraction : IsFraction number)
    : exponentField number.toBits.toBitVec ≤ 1022
      ∧ 0 < fractionUnits number.toBits.toBitVec
      ∧ exactValue number = fractionUnits number.toBits.toBitVec / 2 ^ 1074 := by
  obtain ⟨finite, positive, small⟩ := fraction
  have zero : (Float.Model.ofNat 0).unpack = .zero .positive := rfl
  have one : (Float.Model.ofNat 1).unpack = .finite .positive (2 ^ 52) (-52) (by decide) := rfl
  change ¬ (number.unpack.le (Float.Model.ofNat 0).unpack) = true at positive
  change ¬ ((Float.Model.ofNat 1).unpack.le number.unpack) = true at small
  rw [zero] at positive
  rw [one] at small
  have unpacked : number.unpack = UnpackedFloat.unpack Format.binary64 number.toBits.toBitVec := rfl
  change number.unpack.isFinite = true at finite
  unfold exactValue fractionUnits
  rw [unpacked] at finite positive small ⊢
  generalize number.toBits.toBitVec = bits at *
  have word : exponentField bits < 2 ^ 11 := by
    rw [exponentField_eq]
    exact Nat.mod_lt _ (by decide)
  by_cases highest : exponentField bits = 2 ^ 11 - 1
  · rw [unpack_highest highest] at finite
    cases finite
  by_cases lowest : exponentField bits = 0
  · rcases unpack_lowest lowest with ⟨_, none⟩ | ⟨some, subnormal⟩
    · rw [none] at positive
      exact absurd rfl positive
    · rw [subnormal] at positive ⊢
      cases sign : signOf bits with
      | negative =>
          rw [sign] at positive
          exact absurd rfl positive
      | positive =>
          rw [if_pos lowest]
          refine ⟨by omega, some, ?_⟩
          dsimp only
          rw [zpow_neg, div_eq_mul_inv]
          rfl
  · obtain ⟨some, normal⟩ := unpack_normal highest lowest
    rw [normal] at positive small ⊢
    cases sign : signOf bits with
    | negative =>
        rw [sign] at positive
        exact absurd rfl positive
    | positive =>
        rw [sign] at small
        have below : exponentField bits ≤ 1022 := by
          by_contra large
          refine small ?_
          change ((compare (-52 : Int) ((exponentField bits : Int) - 1075)).then
            (compare (2 ^ 52) ((fractionField bits).toNat + 2 ^ 52))).isLE = true
          by_cases equal : exponentField bits = 1023
          · have same : compare (-52 : Int) ((exponentField bits : Int) - 1075) = .eq :=
              Int.compare_eq_eq.mpr (by omega)
            rw [same, Ordering.eq_then]
            exact Nat.isLE_compare.mpr (Nat.le_add_left _ _)
          · have less : compare (-52 : Int) ((exponentField bits : Int) - 1075) = .lt :=
              Int.compare_eq_lt.mpr (by omega)
            rw [less]
            rfl
        rw [if_neg lowest]
        refine ⟨below, Nat.mul_pos some (by positivity), ?_⟩
        dsimp only
        push_cast
        rw [mul_div_assoc]
        congr 1
        rw [eq_div_iff (by positivity), ← zpow_natCast, ← zpow_natCast, ← zpow_add₀ (by norm_num)]
        congr 1
        omega

-- Finite numbers, told apart by the rationals that they stand for

theorem signOf_eq (bits : BitVec 64)
    : signOf bits = if bits.toNat < 2 ^ 63 then .positive else .negative := by
  have small := bits.isLt
  have top : (@UnpackedFloat.unpackSign Format.binary64 bits).toNat = bits.toNat / 2 ^ 63 % 2 := by
    change (bits.extractLsb 63 63).toNat = _
    simp [Nat.shiftRight_eq_div_pow]
  unfold signOf UnpackedFloat.Sign.ofBitVec
  by_cases low : bits.toNat < 2 ^ 63
  · rw [if_pos low, if_pos]
    refine BitVec.eq_of_toNat_eq ?_
    rw [top, Nat.div_eq_of_lt low]
    rfl
  · rw [if_neg low, if_neg]
    intro zero
    rw [zero] at top
    have high : bits.toNat / 2 ^ 63 = 1 := by omega
    rw [high] at top
    cases top

theorem bits_of_parts {left right : BitVec 64} (sign : signOf left = signOf right)
    (exponent : exponentField left = exponentField right)
    (fraction : fractionField left = fractionField right)
    : left = right := by
  have first := left.isLt
  have second := right.isLt
  have fractions := congrArg BitVec.toNat fraction
  rw [fractionField_eq, fractionField_eq] at fractions
  rw [exponentField_eq, exponentField_eq] at exponent
  rw [signOf_eq, signOf_eq] at sign
  refine BitVec.eq_of_toNat_eq ?_
  split at sign <;> split at sign
  · omega
  · cases sign
  · cases sign
  · omega

theorem fractionUnits_injective {left right : BitVec 64}
    (same : fractionUnits left = fractionUnits right)
    : exponentField left = exponentField right ∧ fractionField left = fractionField right := by
  have small (bits : BitVec 64) : (fractionField bits).toNat < 2 ^ 52 := by
    rw [fractionField_eq]
    exact Nat.mod_lt _ (by decide)
  have first := small left
  have second := small right
  have fractions (equal : (fractionField left).toNat = (fractionField right).toNat)
      : fractionField left = fractionField right := BitVec.eq_of_toNat_eq equal
  -- A normal number has at least as many units as the least normal one.
  have normal (fraction : Nat) {exponent : Nat} (some : exponent ≠ 0)
      : 2 ^ 52 ≤ (fraction + 2 ^ 52) * 2 ^ (exponent - 1) :=
    le_trans (Nat.le_add_left _ _) (Nat.le_mul_of_pos_right _ (Nat.two_pow_pos _))
  -- Of two normal numbers, the one of the higher exponent has more units.
  have above {fraction other exponent higher : Nat} (fits : fraction < 2 ^ 52) (some : exponent ≠ 0)
      (less : exponent < higher)
      : (fraction + 2 ^ 52) * 2 ^ (exponent - 1) < (other + 2 ^ 52) * 2 ^ (higher - 1) := by
    have double : 2 ^ (exponent - 1) * 2 ≤ 2 ^ (higher - 1) := by
      rw [← Nat.pow_succ]
      exact Nat.pow_le_pow_right (by decide) (by omega)
    have power := Nat.two_pow_pos (exponent - 1)
    calc (fraction + 2 ^ 52) * 2 ^ (exponent - 1)
        < 2 ^ 53 * 2 ^ (exponent - 1) := Nat.mul_lt_mul_of_pos_right (by omega) power
      _ = 2 ^ 52 * (2 ^ (exponent - 1) * 2) := by ring
      _ ≤ (other + 2 ^ 52) * 2 ^ (higher - 1) := Nat.mul_le_mul (Nat.le_add_left _ _) double
  unfold fractionUnits at same
  split at same <;> split at same
  next low low' => exact ⟨low.trans low'.symm, fractions same⟩
  next low high =>
    have more := normal (fractionField right).toNat high
    omega
  next high low =>
    have more := normal (fractionField left).toNat high
    omega
  next high high' =>
    rcases lt_trichotomy (exponentField left) (exponentField right) with less | equal | more
    · exact absurd same (above first high less).ne
    · rw [equal] at same
      have sums := Nat.eq_of_mul_eq_mul_right (Nat.two_pow_pos _) same
      exact ⟨equal, fractions (by omega)⟩
    · exact absurd same (above second high' more).ne'

def signFactor : UnpackedFloat.Sign → ℚ
  | .positive => 1
  | .negative => -1

variable {number : Float.Model}

/-- A finite number by its bits. -/
theorem exactValue_eq (finite : number.isFinite)
    : exactValue number
      = signFactor (signOf number.toBits.toBitVec)
        * (fractionUnits number.toBits.toBitVec / 2 ^ 1074) := by
  have unpacked : number.unpack = UnpackedFloat.unpack Format.binary64 number.toBits.toBitVec := rfl
  change number.unpack.isFinite = true at finite
  unfold exactValue fractionUnits
  rw [unpacked] at finite ⊢
  generalize number.toBits.toBitVec = bits at *
  by_cases highest : exponentField bits = 2 ^ 11 - 1
  · rw [unpack_highest highest] at finite
    cases finite
  by_cases lowest : exponentField bits = 0
  · rw [if_pos lowest]
    rcases unpack_lowest lowest with ⟨none, zero⟩ | ⟨some, subnormal⟩
    · rw [zero, none, Nat.cast_zero, zero_div, mul_zero]
    · rw [subnormal]
      cases signOf bits with
      | negative =>
          dsimp only [signFactor]
          rw [zpow_neg, div_eq_mul_inv, neg_one_mul]
          rfl
      | positive =>
          dsimp only [signFactor]
          rw [zpow_neg, div_eq_mul_inv, one_mul]
          rfl
  · rw [if_neg lowest]
    obtain ⟨some, normal⟩ := unpack_normal highest lowest
    have power
        : (2 : ℚ) ^ ((exponentField bits : Int) - 1075)
          = 2 ^ (exponentField bits - 1) / 2 ^ 1074 := by
      rw [eq_div_iff (by positivity), ← zpow_natCast, ← zpow_natCast, ← zpow_add₀ (by norm_num)]
      congr 1
      omega
    rw [normal]
    cases signOf bits with
    | negative =>
        dsimp only [signFactor]
        rw [power]
        push_cast
        ring
    | positive =>
        dsimp only [signFactor]
        rw [power]
        push_cast
        ring

theorem signFactor_ne_zero (sign : UnpackedFloat.Sign) : signFactor sign ≠ 0 := by
  cases sign <;> norm_num [signFactor]

theorem exactValue_eq_zero (finite : number.isFinite)
    : exactValue number = 0 ↔ fractionUnits number.toBits.toBitVec = 0 := by
  rw [exactValue_eq finite, mul_eq_zero, or_iff_right (signFactor_ne_zero _),
    div_eq_zero_iff, or_iff_left (by positivity), Nat.cast_eq_zero]

/-- Apart from the zeros, finite numbers that stand for one rational are the same. -/
theorem eq_of_exactValue {left right : Float.Model} (first : left.isFinite) (second : right.isFinite)
    (same : exactValue left = exactValue right) (some : exactValue left ≠ 0)
    : left = right := by
  have other : exactValue right ≠ 0 := same ▸ some
  have units := mt (exactValue_eq_zero first).mpr some
  have units' := mt (exactValue_eq_zero second).mpr other
  have positive {number : Float.Model} (units : fractionUnits number.toBits.toBitVec ≠ 0)
      : (0 : ℚ) < fractionUnits number.toBits.toBitVec / 2 ^ 1074 :=
    div_pos (Nat.cast_pos.mpr (Nat.pos_of_ne_zero units)) (by positivity)
  have above := positive units
  have above' := positive units'
  rw [exactValue_eq first, exactValue_eq second] at same
  have signs : signOf left.toBits.toBitVec = signOf right.toBits.toBitVec := by
    cases sign : signOf left.toBits.toBitVec <;> cases sign' : signOf right.toBits.toBitVec
    · rfl
    · rw [sign, sign'] at same
      simp only [signFactor] at same
      linarith
    · rw [sign, sign'] at same
      simp only [signFactor] at same
      linarith
    · rfl
  rw [signs] at same
  have quotients := mul_left_cancel₀ (signFactor_ne_zero _) same
  have numerators := (div_left_inj' (by positivity)).mp quotients
  obtain ⟨exponents, fractions⟩ := fractionUnits_injective (Nat.cast_injective numerators)
  have bits := bits_of_parts signs exponents fractions
  obtain ⟨bitsLeft, _⟩ := left
  obtain ⟨bitsRight, _⟩ := right
  cases UInt64.toBitVec_inj.mp bits
  rfl

/-- A finite number equals zero, in the comparison of the format, exactly if it stands for zero. -/
theorem beq_zero_iff (finite : number.isFinite)
    : (number == Float.Model.ofNat 0) = true ↔ exactValue number = 0 := by
  have zero : (Float.Model.ofNat 0).unpack = .zero .positive := rfl
  change (number.unpack.beq (Float.Model.ofNat 0).unpack) = true ↔ _
  change number.unpack.isFinite = true at finite
  rw [zero]
  unfold exactValue
  cases unpacked : number.unpack with
  | infinity sign =>
      rw [unpacked] at finite
      cases finite
  | notANumber =>
      rw [unpacked] at finite
      cases finite
  | zero sign => exact iff_of_true rfl rfl
  | finite sign mantissa exponent some =>
      have positive : (0 : ℚ) < mantissa * 2 ^ exponent :=
        mul_pos (Nat.cast_pos.mpr some) (by positivity)
      cases sign with
      | negative => exact iff_of_false Bool.false_ne_true (neg_ne_zero.mpr positive.ne')
      | positive => exact iff_of_false Bool.false_ne_true positive.ne'

end SkillRanker.Library
