import Mathlib.Algebra.Order.Group.Nat
import Mathlib.Data.List.Basic
import Mathlib.Tactic.Ring

/-! Numbers of several words, the highest first: their sums with carries, their order, and single words
in them.
-/

namespace SkillRanker.Library

variable {left right : List (BitVec 64)}

def wordsValue : List (BitVec 64) → Nat
  | [] => 0
  | word :: rest => word.toNat * 2 ^ (64 * rest.length) + wordsValue rest

theorem wordsValue_lt (words : List (BitVec 64)) : wordsValue words < 2 ^ (64 * words.length) := by
  induction words with
  | nil => exact Nat.one_pos
  | cons word rest ih =>
      have small := word.isLt
      have next : word.toNat * 2 ^ (64 * rest.length) + 2 ^ (64 * rest.length)
          ≤ 2 ^ 64 * 2 ^ (64 * rest.length) := by
        rw [← Nat.succ_mul]
        exact Nat.mul_le_mul_right _ small
      rw [wordsValue, List.length_cons, Nat.mul_succ, Nat.pow_add, Nat.mul_comm (2 ^ _) (2 ^ 64)]
      omega

-- Sums

/-- `u64::overflowing_add` -/
def overflowingAdd (left right : BitVec 64) : BitVec 64 × Bool :=
  (left + right, decide (2 ^ 64 ≤ left.toNat + right.toNat))

def addWords : List (BitVec 64) → List (BitVec 64) → List (BitVec 64) × Bool
  | left :: lefts, right :: rights =>
      let (lower, carry) := addWords lefts rights
      let (next, firstCarry) := overflowingAdd left right
      let (next, secondCarry) := overflowingAdd next (if carry then 1#64 else 0#64)
      (next :: lower, firstCarry || secondCarry)
  | _, _ => ([], false)

theorem overflowingAdd_value (left right : BitVec 64)
    : (overflowingAdd left right).1.toNat + (overflowingAdd left right).2.toNat * 2 ^ 64
      = left.toNat + right.toNat := by
  have leftSmall := left.isLt
  have rightSmall := right.isLt
  unfold overflowingAdd
  rw [BitVec.toNat_add]
  by_cases exceeds : 2 ^ 64 ≤ left.toNat + right.toNat
  · rw [decide_eq_true exceeds, Bool.toNat_true]
    omega
  · rw [decide_eq_false exceeds, Bool.toNat_false]
    omega

theorem addWord_value (left right : BitVec 64) (carry : Bool)
    : (overflowingAdd (overflowingAdd left right).1 (if carry then 1#64 else 0#64)).1.toNat
        + ((overflowingAdd left right).2
            || (overflowingAdd (overflowingAdd left right).1
              (if carry then 1#64 else 0#64)).2).toNat * 2 ^ 64
      = left.toNat + right.toNat + carry.toNat := by
  have first := overflowingAdd_value left right
  have second := overflowingAdd_value (overflowingAdd left right).1
    (if carry then 1#64 else 0#64)
  have leftSmall := left.isLt
  have rightSmall := right.isLt
  have one : (if carry then 1#64 else 0#64).toNat = carry.toNat := by cases carry <;> rfl
  have small : carry.toNat ≤ 1 := by cases carry <;> decide
  rw [one] at second
  generalize overflowingAdd (overflowingAdd left right).1 (if carry then 1#64 else 0#64) = sum
    at second ⊢
  generalize overflowingAdd left right = partialSum at first second ⊢
  obtain ⟨next, firstCarry⟩ := partialSum
  obtain ⟨word, secondCarry⟩ := sum
  have nextSmall := next.isLt
  have wordSmall := word.isLt
  dsimp only at first second ⊢
  cases firstCarry with
  | false =>
      rw [Bool.toNat_false, Nat.zero_mul] at first
      rw [Bool.false_or]
      omega
  | true =>
      rw [Bool.toNat_true, Nat.one_mul] at first
      have none : secondCarry = false := by
        cases secondCarry with
        | false => rfl
        | true =>
            rw [Bool.toNat_true, Nat.one_mul] at second
            omega
      subst none
      rw [Bool.toNat_false, Nat.zero_mul] at second
      rw [Bool.or_false, Bool.toNat_true, Nat.one_mul]
      omega

section

variable (same : left.length = right.length)
include same

theorem addWords_length
    : (addWords left right).1.length = left.length := by
  induction left generalizing right with
  | nil => rfl
  | cons word rest ih =>
      cases right with
      | nil => cases same
      | cons other others =>
          rw [addWords, List.length_cons, List.length_cons,
            ih (Nat.succ.inj same)]

/-- No carry is lost: the words of the sum and the last carry stand for the sum. The induction is on
the words.
-/
theorem addWords_value
    : wordsValue (addWords left right).1
        + (addWords left right).2.toNat * 2 ^ (64 * left.length)
      = wordsValue left + wordsValue right := by
  induction left generalizing right with
  | nil =>
      cases right with
      | nil => rfl
      | cons other others => cases same
  | cons word rest ih =>
      cases right with
      | nil => cases same
      | cons other others =>
          have lengths : rest.length = others.length := Nat.succ.inj same
          have lower := ih lengths
          have lowerLength := addWords_length lengths
          have step := addWord_value word other (addWords rest others).2
          simp only [addWords, wordsValue, List.length_cons, lowerLength, ← lengths]
          generalize overflowingAdd (overflowingAdd word other).1 _ = next at step ⊢
          generalize (overflowingAdd word other).2 = firstCarry at step ⊢
          rw [Nat.mul_succ, Nat.pow_add]
          generalize 2 ^ (64 * rest.length) = unit at lower ⊢
          calc next.1.toNat * unit + wordsValue (addWords rest others).1
                + (firstCarry || next.2).toNat * (unit * 2 ^ 64)
              = (next.1.toNat + (firstCarry || next.2).toNat * 2 ^ 64) * unit
                + wordsValue (addWords rest others).1 := by ring
            _ = (word.toNat + other.toNat) * unit
                + (wordsValue (addWords rest others).1
                  + (addWords rest others).2.toNat * unit) := by rw [step]; ring
            _ = word.toNat * unit + wordsValue rest + (other.toNat * unit + wordsValue others) := by
                rw [lower]; ring

/-- A sum that the words hold leaves no carry. -/
theorem addWords_fits (fits : wordsValue left + wordsValue right < 2 ^ (64 * left.length))
    : wordsValue (addWords left right).1 = wordsValue left + wordsValue right
      ∧ (addWords left right).2 = false := by
  have value := addWords_value same
  cases carry : (addWords left right).2 with
  | false =>
      rw [carry, Bool.toNat_false, Nat.zero_mul] at value
      exact ⟨value, rfl⟩
  | true =>
      rw [carry, Bool.toNat_true, Nat.one_mul] at value
      omega

-- Order

def ltWords : List (BitVec 64) → List (BitVec 64) → Bool
  | left :: lefts, right :: rights =>
      if left = right then ltWords lefts rights else left.toNat < right.toNat
  | _, _ => false

theorem ltWords_iff
    : ltWords left right = true ↔ wordsValue left < wordsValue right := by
  induction left generalizing right with
  | nil =>
      cases right with
      | nil => simp [ltWords]
      | cons other others => cases same
  | cons word rest ih =>
      cases right with
      | nil => cases same
      | cons other others =>
          have lengths : rest.length = others.length := Nat.succ.inj same
          have low := wordsValue_lt rest
          have otherLow := wordsValue_lt others
          rw [← lengths] at otherLow
          unfold ltWords wordsValue
          rw [← lengths]
          split
          · next equal =>
            subst equal
            rw [ih lengths]
            omega
          · next different =>
            rw [decide_eq_true_iff]
            have apart : word.toNat ≠ other.toNat := fun equal =>
              different (BitVec.eq_of_toNat_eq equal)
            refine ⟨fun less => ?_, fun less => ?_⟩
            · have unit : word.toNat * 2 ^ (64 * rest.length) + 2 ^ (64 * rest.length)
                  ≤ other.toNat * 2 ^ (64 * rest.length) := by
                rw [← Nat.succ_mul]
                exact Nat.mul_le_mul_right _ less
              omega
            · by_contra notLess
              have unit : other.toNat * 2 ^ (64 * rest.length) + 2 ^ (64 * rest.length)
                  ≤ word.toNat * 2 ^ (64 * rest.length) := by
                rw [← Nat.succ_mul]
                exact Nat.mul_le_mul_right _ (by omega)
              omega

end

-- Single words

def zeroWords (count : Nat) : List (BitVec 64) := List.replicate count 0#64

theorem wordsValue_zeroWords (count : Nat) : wordsValue (zeroWords count) = 0 := by
  induction count with
  | zero => rfl
  | succ count ih =>
      rw [zeroWords, List.replicate_succ, wordsValue]
      unfold zeroWords at ih
      rw [ih]
      simp

theorem wordsValue_set {words : List (BitVec 64)} {index : Nat} (word : BitVec 64)
    (zero : words[index]? = some 0#64)
    : wordsValue (words.set index word)
      = wordsValue words + word.toNat * 2 ^ (64 * (words.length - 1 - index)) := by
  induction words generalizing index with
  | nil => cases zero
  | cons first rest ih =>
      cases index with
      | zero =>
          obtain rfl := Option.some.inj zero
          simp only [List.set_cons_zero, wordsValue, List.length_cons, BitVec.toNat_zero,
            Nat.zero_mul, Nat.add_sub_cancel, Nat.sub_zero]
          omega
      | succ index =>
          have places : (first :: rest).length - 1 - (index + 1) = rest.length - 1 - index := by
            rw [List.length_cons]
            omega
          rw [List.set_cons_succ, wordsValue, wordsValue, List.length_set,
            ih (by simpa using zero), places]
          omega

end SkillRanker.Library
