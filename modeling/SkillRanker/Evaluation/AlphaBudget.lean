import Mathlib.Data.String.Basic
import SkillRanker.Identity
import SkillRanker.Library.Doubles
import SkillRanker.Library.Entries
import SkillRanker.Library.Panics
import SkillRanker.Library.Words

/-! The error budget of several endpoints, in binary64: its exact count in words, and the equal split. -/

namespace SkillRanker.Evaluation
open SkillRanker.Library

-- The budget

inductive DesignWeightedError
  | invalidEndpoints
  | invalidAlpha (alpha : Float.Model)
  | alphaBudgetExceeded (allocated budget : Float.Model)
deriving DecidableEq

structure MultiEndpointAlphaAllocation where
  totalAlpha : Float.Model
  allocations : List (String × Float.Model)
deriving DecidableEq

def validateAlpha (alpha : Float.Model) : Except DesignWeightedError Unit :=
  ensure (IsFraction alpha) (.invalidAlpha alpha)

def setWord (words : List (BitVec 64)) (index : Nat) (word : BitVec 64)
    : Option (List (BitVec 64)) :=
  if index < words.length then some (words.set index word) else none

def alphaUnits (alpha : Float.Model) : Option (List (BitVec 64)) :=
  let bits := alpha.toBits.toBitVec
  let exponent := exponentField bits
  let fraction := fractionField bits
  let (significand, shift) :=
    if exponent = 0 then (fraction, 0) else (fraction ||| (1#64 <<< 52), exponent - 1)
  let word := shift / 64
  let offset := shift % 64
  do
    let low ← checkedSub 16 word
    let units ← setWord (zeroWords 17) low (significand <<< offset)
    if offset ≠ 0 then do
      let high ← checkedSub 15 word
      setWord units high (significand >>> (64 - offset))
    else return units

def addAlpha (totalAlpha : Float.Model) (budgetUnits : List (BitVec 64))
    (state : List (BitVec 64) × Float.Model) (endpoint : String × Float.Model)
    : Panicking DesignWeightedError (List (BitVec 64) × Float.Model) := do
  returned (validateAlpha endpoint.2)
  let sum := state.2 + endpoint.2
  let units ← present (alphaUnits endpoint.2)
  let allocated := (addWords state.1 units).1
  returned (ensure (ltWords budgetUnits allocated = false) (.alphaBudgetExceeded sum totalAlpha))
  return (allocated, sum)

/-- `MultiEndpointAlphaAllocation::explicit` -/
def explicit (totalAlpha : Float.Model) (allocations : List (String × Float.Model))
    : Panicking DesignWeightedError MultiEndpointAlphaAllocation := do
  returned (validateAlpha totalAlpha)
  returned (ensure (allocations ≠ [] ∧ ∀ endpoint ∈ allocations, isBlank endpoint.1 = false)
    .invalidEndpoints)
  let budgetUnits ← present (alphaUnits totalAlpha)
  let _ ← allocations.foldlM (addAlpha totalAlpha budgetUnits) (zeroWords 17, .ofNat 0)
  return { totalAlpha, allocations }

/-- `f64::next_down` -/
def nextDown (number : Float.Model) : Float.Model :=
  let bits := number.toBits
  if number.isNaN ∨ bits = 0xfff0000000000000 then number
  else
    let abs := bits &&& 0x7fffffffffffffff
    .ofBits (if abs = 0 then 0x8000000000000001 else if bits = abs then bits - 1 else bits + 1)

/-- `MultiEndpointAlphaAllocation::equal_split` -/
def equalSplit (totalAlpha : Float.Model) (endpointNames : List String)
    : Panicking DesignWeightedError MultiEndpointAlphaAllocation := do
  returned (validateAlpha totalAlpha)
  returned (ensure (endpointNames ≠ []) .invalidEndpoints)
  let perEndpoint := totalAlpha / .ofNat endpointNames.length
  returned (validateAlpha perEndpoint)
  let allocations ← returned (endpointNames.foldlM
    (fun allocations name => do
      ensure (isBlank name = false ∧ allocations.lookup name = none)
        DesignWeightedError.invalidEndpoints
      return insertEntry name perEndpoint allocations)
    [])
  match explicit totalAlpha allocations with
  | some (.error (.alphaBudgetExceeded _ _)) =>
      explicit totalAlpha (allocations.map fun endpoint => (endpoint.1, nextDown endpoint.2))
  | result => result

-- Units

def unitsOf (alpha : Float.Model) : Nat := fractionUnits alpha.toBits.toBitVec

/-- A significand in words: the shifts across a border lose nothing. -/
theorem wordsValue_shifted {significand : BitVec 64} {shift : Nat}
    (within : shift ≤ 1021)
    : ∃ units, (do
          let low ← checkedSub 16 (shift / 64)
          let units ← setWord (zeroWords 17) low (significand <<< (shift % 64))
          if shift % 64 ≠ 0 then do
            let high ← checkedSub 15 (shift / 64)
            setWord units high (significand >>> (64 - shift % 64))
          else return units)
        = some units
      ∧ units.length = 17 ∧ wordsValue units = significand.toNat * 2 ^ shift := by
  have word : shift / 64 ≤ 15 := by omega
  have low : setWord (zeroWords 17) (16 - shift / 64) (significand <<< (shift % 64))
      = some ((zeroWords 17).set (16 - shift / 64) (significand <<< (shift % 64))) :=
    if_pos (by rw [zeroWords, List.length_replicate]; omega)
  have lowZero : (zeroWords 17)[16 - shift / 64]? = some 0#64 := by
    rw [zeroWords, List.getElem?_replicate, if_pos (by omega)]
  have lowValue := wordsValue_set (significand <<< (shift % 64)) lowZero
  have lowPlace : (zeroWords 17).length - 1 - (16 - shift / 64) = shift / 64 := by
    rw [zeroWords, List.length_replicate]
    omega
  rw [wordsValue_zeroWords, lowPlace, Nat.zero_add, BitVec.toNat_shiftLeft,
    Nat.shiftLeft_eq] at lowValue
  have whole : 2 ^ shift = 2 ^ (shift % 64) * 2 ^ (64 * (shift / 64)) := by
    rw [← Nat.pow_add]
    congr 1
    omega
  rw [checkedSub_eq (by omega), checkedSub_eq word]
  change ∃ units, (setWord _ _ _).bind _ = some units ∧ _
  rw [low]
  by_cases offset : shift % 64 = 0
  · refine ⟨_, if_neg (not_not.mpr offset), ?_, ?_⟩
    · rw [List.length_set, zeroWords, List.length_replicate]
    · rw [offset, Nat.pow_zero, Nat.mul_one, Nat.mod_eq_of_lt significand.isLt] at lowValue
      rw [whole, offset, Nat.pow_zero, Nat.one_mul]
      rw [offset] at *
      exact lowValue
  · have small := Nat.mod_lt shift (show 0 < 64 by decide)
    have lowLength : ((zeroWords 17).set (16 - shift / 64)
        (significand <<< (shift % 64))).length = 17 := by
      rw [List.length_set, zeroWords, List.length_replicate]
    have highZero : ((zeroWords 17).set (16 - shift / 64)
        (significand <<< (shift % 64)))[15 - shift / 64]? = some 0#64 := by
      rw [List.getElem?_set_ne (by omega), zeroWords, List.getElem?_replicate, if_pos (by omega)]
    have highValue := wordsValue_set (significand >>> (64 - shift % 64)) highZero
    have highPlace : 17 - 1 - (15 - shift / 64) = shift / 64 + 1 := by omega
    rw [lowLength, highPlace, lowValue, BitVec.toNat_ushiftRight, Nat.shiftRight_eq_div_pow,
      Nat.mul_succ, Nat.pow_add] at highValue
    have base : 2 ^ 64 = 2 ^ (64 - shift % 64) * 2 ^ (shift % 64) := by
      rw [← Nat.pow_add]
      congr 1
      omega
    have upper : significand.toNat / 2 ^ (64 - shift % 64)
        = significand.toNat * 2 ^ (shift % 64) / 2 ^ 64 := by
      rw [base, Nat.mul_div_mul_right _ _ (Nat.two_pow_pos _)]
    refine ⟨((zeroWords 17).set (16 - shift / 64) (significand <<< (shift % 64))).set
      (15 - shift / 64) (significand >>> (64 - shift % 64)), ?_, ?_, ?_⟩
    · refine (if_pos offset).trans ?_
      exact if_pos (by rw [lowLength]; omega)
    · rw [List.length_set, lowLength]
    · rw [highValue, upper, whole, ← Nat.mul_assoc significand.toNat]
      generalize significand.toNat * 2 ^ (shift % 64) = number
      generalize 2 ^ (64 * (shift / 64)) = unit
      have divided := Nat.div_add_mod number (2 ^ 64)
      calc number % 2 ^ 64 * unit + number / 2 ^ 64 * (unit * 2 ^ 64)
          = (2 ^ 64 * (number / 2 ^ 64) + number % 2 ^ 64) * unit := by ring
        _ = number * unit := by rw [divided]

theorem fractionField_lt (bits : BitVec 64) : (fractionField bits).toNat < 2 ^ 52 := by
  rw [fractionField_eq]
  exact Nat.mod_lt _ (by decide)

variable {alpha : Float.Model}

theorem alphaUnits_spec (fraction : IsFraction alpha)
    : ∃ units, alphaUnits alpha = some units ∧ units.length = 17
      ∧ wordsValue units = unitsOf alpha := by
  have small := fraction.bits.1
  have low := fractionField_lt alpha.toBits.toBitVec
  unfold alphaUnits unitsOf fractionUnits
  generalize alpha.toBits.toBitVec = bits at *
  dsimp only
  by_cases lowest : exponentField bits = 0
  · rw [if_pos lowest, if_pos lowest]
    obtain ⟨units, made, length, value⟩ := wordsValue_shifted (Nat.zero_le 1021)
    exact ⟨units, made, length, by rw [value, Nat.pow_zero, Nat.mul_one]⟩
  · rw [if_neg lowest, if_neg lowest]
    have hidden : (fractionField bits ||| (1#64 <<< 52)).toNat
        = (fractionField bits).toNat + 2 ^ 52 := by
      have disjoint := Nat.two_pow_add_eq_or_of_lt low 1
      rw [BitVec.toNat_or, Nat.or_comm, Nat.add_comm]
      exact disjoint.symm
    obtain ⟨units, made, length, value⟩ := wordsValue_shifted
      (show exponentField bits - 1 ≤ 1021 by omega)
    exact ⟨units, made, length, by rw [value, hidden]⟩

theorem unitsOf_lt (fraction : IsFraction alpha)
    : unitsOf alpha < 2 ^ 1074 := by
  have small := fraction.bits.1
  have low := fractionField_lt alpha.toBits.toBitVec
  unfold unitsOf fractionUnits
  generalize alpha.toBits.toBitVec = bits at *
  split
  · exact Nat.lt_of_lt_of_le low (Nat.pow_le_pow_right Nat.two_pos (show 52 ≤ 1074 by decide))
  · have normal : (fractionField bits).toNat + 2 ^ 52 < 2 ^ 53 := by omega
    refine Nat.lt_of_lt_of_le (Nat.mul_lt_mul_of_pos_right normal (Nat.two_pow_pos _)) ?_
    rw [← Nat.pow_add]
    exact Nat.pow_le_pow_right (by decide) (by omega)

/-- Two numbers below a power of two are together below the next. -/
theorem add_lt_two_pow {left right lower higher : Nat} (leftSmall : left < 2 ^ lower)
    (rightSmall : right < 2 ^ lower) (above : lower < higher)
    : left + right < 2 ^ higher := by
  have double : 2 ^ lower + 2 ^ lower ≤ 2 ^ higher := by
    rw [← Nat.two_mul, ← Nat.pow_succ']
    exact Nat.pow_le_pow_right (by decide) above
  omega

-- Sums of alphas

def unitsSum (endpoints : List (String × Float.Model)) : Nat :=
  (endpoints.map fun endpoint => unitsOf endpoint.2).sum

def Exact (endpoints : List (String × Float.Model)) (state : List (BitVec 64) × Float.Model)
    : Prop :=
  state.1.length = 17 ∧ wordsValue state.1 = unitsSum endpoints

variable {totalAlpha : Float.Model} {budgetUnits : List (BitVec 64)}

/-- A sum within the budget and one more alpha leave no carry. -/
theorem addWords_alpha {words units : List (BitVec 64)} (length : words.length = 17)
    (within : wordsValue words < 2 ^ 1074) (unitsLength : units.length = 17)
    (small : wordsValue units < 2 ^ 1074)
    : wordsValue (addWords words units).1 = wordsValue words + wordsValue units
      ∧ (addWords words units).2 = false ∧ (addWords words units).1.length = 17 := by
  have same : words.length = units.length := length.trans unitsLength.symm
  obtain ⟨value, carry⟩ := addWords_fits same (by
    rw [length]
    exact add_lt_two_pow within small (by decide))
  exact ⟨value, carry, (addWords_length same).trans length⟩

variable {state : List (BitVec 64) × Float.Model} {before : List (String × Float.Model)}

/-- One endpoint is added exactly, and refused exactly where the sum is above the budget. -/
theorem addAlpha_spec {endpoint : String × Float.Model} (exact : Exact before state)
    (within : unitsSum before < 2 ^ 1074) (budgetLength : budgetUnits.length = 17)
    (fraction : IsFraction endpoint.2)
    : (unitsSum (before ++ [endpoint]) ≤ wordsValue budgetUnits
        ∧ ∃ next, addAlpha totalAlpha budgetUnits state endpoint = returned (.ok next)
          ∧ Exact (before ++ [endpoint]) next)
      ∨ (wordsValue budgetUnits < unitsSum (before ++ [endpoint])
        ∧ ∃ error, addAlpha totalAlpha budgetUnits state endpoint = returned (.error error)) := by
  obtain ⟨units, made, length, value⟩ := alphaUnits_spec fraction
  have small := unitsOf_lt fraction
  obtain ⟨sum, _, sumLength⟩ := addWords_alpha exact.1 (by rw [exact.2]; exact within) length
    (by rw [value]; exact small)
  have total : wordsValue (addWords state.1 units).1 = unitsSum (before ++ [endpoint]) := by
    rw [sum, exact.2, value, unitsSum, unitsSum, List.map_append, List.sum_append]
    rfl
  have valid : validateAlpha endpoint.2 = .ok () := ensure_eq_ok.mpr fraction
  have compared := ltWords_iff (budgetLength.trans sumLength.symm)
  rw [total] at compared
  unfold addAlpha
  rw [valid, made, returned_ok_bind]
  dsimp only
  rw [present_bind]
  cases exceeds : ltWords budgetUnits (addWords state.1 units).1 with
  | true =>
      exact Or.inr ⟨compared.mp exceeds, .alphaBudgetExceeded _ _, rfl⟩
  | false =>
      have fits : unitsSum (before ++ [endpoint]) ≤ wordsValue budgetUnits := by
        rw [← not_lt, ← compared, exceeds]
        exact Bool.false_ne_true
      exact Or.inl ⟨fits, ((addWords state.1 units).1, _), rfl, sumLength, total⟩

/-- The endpoints are added exactly until the sum is above the budget, by induction on them. -/
theorem foldlM_addAlpha {endpoints : List (String × Float.Model)} (exact : Exact before state)
    (within : unitsSum before ≤ wordsValue budgetUnits) (small : wordsValue budgetUnits < 2 ^ 1074)
    (budgetLength : budgetUnits.length = 17)
    (fractions : ∀ endpoint ∈ endpoints, IsFraction endpoint.2)
    : (unitsSum (before ++ endpoints) ≤ wordsValue budgetUnits
        ∧ ∃ last, endpoints.foldlM (addAlpha totalAlpha budgetUnits) state = returned (.ok last)
          ∧ Exact (before ++ endpoints) last)
      ∨ (wordsValue budgetUnits < unitsSum (before ++ endpoints)
        ∧ ∃ error, endpoints.foldlM (addAlpha totalAlpha budgetUnits) state
          = returned (.error error)) := by
  induction endpoints generalizing before state with
  | nil =>
      rw [List.append_nil]
      exact Or.inl ⟨within, state, rfl, exact⟩
  | cons endpoint rest ih =>
      rw [List.foldlM_cons, List.append_cons]
      rcases addAlpha_spec exact (Nat.lt_of_le_of_lt within small) budgetLength
        (fractions endpoint List.mem_cons_self) with ⟨fits, next, added, kept⟩ | ⟨exceeds, error, failed⟩
      · rw [added, returned_ok_bind]
        exact ih kept fits fun other mem => fractions other (List.mem_cons_of_mem _ mem)
      · rw [failed, returned_error_bind]
        refine Or.inr ⟨Nat.lt_of_lt_of_le exceeds ?_, error, rfl⟩
        have more : unitsSum (before ++ [endpoint] ++ rest)
            = unitsSum (before ++ [endpoint]) + unitsSum rest := by
          simp only [unitsSum, List.map_append, List.sum_append]
        rw [more]
        exact Nat.le_add_right _ _

variable {allocations : List (String × Float.Model)}

theorem fractions_of_explicit {result : MultiEndpointAlphaAllocation}
    (accepted : explicit totalAlpha allocations = returned (.ok result))
    : IsFraction totalAlpha ∧ (∀ endpoint ∈ allocations, IsFraction endpoint.2)
      ∧ result = { totalAlpha, allocations } := by
  unfold explicit at accepted
  obtain ⟨_, total, accepted⟩ := bind_eq_returned.mp accepted
  obtain ⟨_, _, accepted⟩ := bind_eq_returned.mp accepted
  obtain ⟨budgetUnits, _, accepted⟩ := bind_eq_returned.mp accepted
  obtain ⟨_, added, accepted⟩ := bind_eq_returned.mp accepted
  refine ⟨ensure_eq_ok.mp (returned_inj.mp total), fun endpoint mem => ?_, ?_⟩
  · obtain ⟨_, _, stepped⟩ := of_mem_returned_foldlM added mem
    obtain ⟨_, valid, _⟩ := bind_eq_returned.mp stepped
    exact ensure_eq_ok.mp (returned_inj.mp valid)
  · cases accepted
    rfl

/-- `explicit` on fractions: it accepts exactly the endpoints with names whose sum is within the
total, and never panics.
-/
theorem explicit_iff (total : IsFraction totalAlpha)
    (fractions : ∀ endpoint ∈ allocations, IsFraction endpoint.2)
    : (∃ result, explicit totalAlpha allocations = returned result)
      ∧ ((∃ result, explicit totalAlpha allocations = returned (.ok result))
        ↔ allocations ≠ [] ∧ (∀ endpoint ∈ allocations, isBlank endpoint.1 = false)
          ∧ unitsSum allocations ≤ unitsOf totalAlpha) := by
  obtain ⟨units, made, length, value⟩ := alphaUnits_spec total
  have valid : validateAlpha totalAlpha = .ok () := ensure_eq_ok.mpr total
  have start : Exact [] (zeroWords 17, Float.Model.ofNat 0) :=
    ⟨by rw [zeroWords, List.length_replicate], wordsValue_zeroWords 17⟩
  unfold explicit
  rw [valid, made, returned_ok_bind]
  by_cases named : allocations ≠ [] ∧ ∀ endpoint ∈ allocations, isBlank endpoint.1 = false
  · have passed : ensure (allocations ≠ [] ∧ ∀ endpoint ∈ allocations, isBlank endpoint.1 = false)
        DesignWeightedError.invalidEndpoints = .ok () :=
      ensure_eq_ok.mpr named
    rw [passed, returned_ok_bind, present_bind]
    rcases foldlM_addAlpha start (Nat.zero_le _) (value ▸ unitsOf_lt total) length fractions with
      ⟨fits, last, added, _⟩ | ⟨exceeds, error, failed⟩
    · rw [added, returned_ok_bind]
      exact ⟨⟨_, rfl⟩, ⟨fun _ => ⟨named.1, named.2, value ▸ fits⟩, fun _ => ⟨_, rfl⟩⟩⟩
    · rw [failed, returned_error_bind]
      refine ⟨⟨_, rfl⟩, ?_, ?_⟩
      · rintro ⟨_, accepted⟩
        cases accepted
      · intro within
        rw [value] at exceeds
        exact absurd within.2.2 (Nat.not_le.mpr exceeds)
  · rw [ensure_eq_error.mpr ⟨named, rfl⟩, returned_error_bind]
    refine ⟨⟨_, rfl⟩, ?_, fun within => absurd ⟨within.1, within.2.1⟩ named⟩
    rintro ⟨_, accepted⟩
    cases accepted

end SkillRanker.Evaluation
