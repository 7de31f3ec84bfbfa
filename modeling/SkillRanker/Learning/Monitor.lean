import Mathlib.Algebra.BigOperators.Fin
import Mathlib.Analysis.SpecialFunctions.Log.Basic
import Mathlib.Data.Fin.VecNotation
import Mathlib.Tactic.FieldSimp
import Std.Data.TreeMap.Basic
import SkillRanker.Learning.Foundations
import SkillRanker.Library.Machine

/-! The composite-risk monitor: an accumulator of evidence and the ledger of its epochs. Numbers
are exact here, where the program has floats.
-/

namespace SkillRanker.Learning

open SkillRanker.Library
open Std

section Accumulator

variable {R : Type} [Field R] [LinearOrder R] (functions : LogExp R)

def defaultMonitorTau : R := 2 / 100

def monitorAlternatives : Fin 3 → R := ![5 / 100, 10 / 100, 20 / 100]

def maxValue (values : Fin 3 → R) : R := max (max (values 0) (values 1)) (values 2)

def logsumexp (values : Fin 3 → R) : R :=
  let largest := maxValue values
  largest
    + functions.ln
      (functions.exp (values 0 - largest) + functions.exp (values 1 - largest)
        + functions.exp (values 2 - largest))

structure CompositeRiskAccumulator (R : Type) where
  tau : R
  alphaMonitor : R
  logE : Fin 3 → R
  judgedHarmUnits : Nat
  unresolvedUnits : Nat
  unflaggedUnits : Nat
  alarmTriggered : Bool

namespace CompositeRiskAccumulator

def withTau (tau alphaMonitor : R) : Except (LearningError R) (CompositeRiskAccumulator R) := do
  ensure (0 ≤ tau ∧ tau < monitorAlternatives 0)
    (.monitorInvalid
      "tau must be finite and strictly between 0 and the smallest alternative (0.05)")
  ensure ((0 ≤ alphaMonitor ∧ alphaMonitor < 1) ∧ alphaMonitor ≠ 0)
    (.monitorInvalid "alpha_monitor must be finite in (0, 1)")
  return {
    tau := tau
    alphaMonitor := alphaMonitor
    logE := fun _ => 0
    judgedHarmUnits := 0
    unresolvedUnits := 0
    unflaggedUnits := 0
    alarmTriggered := false
  }

variable (accumulator : CompositeRiskAccumulator R)

def threshold : R := 1 / accumulator.alphaMonitor

def mixtureEValue : R := functions.exp (logsumexp functions accumulator.logE - functions.ln 3)

/-- What a unit adds to the logarithm of an alternative's e-value. -/
def evidence (flagged : Bool) (q : R) : R :=
  if flagged then functions.ln (q / accumulator.tau)
  else functions.ln ((1 - q) / (1 - accumulator.tau))

def count (judgedHarm unresolved : Bool) : CompositeRiskAccumulator R :=
  { accumulator with
    judgedHarmUnits := accumulator.judgedHarmUnits + if judgedHarm then 1 else 0
    unresolvedUnits := accumulator.unresolvedUnits + if !judgedHarm && unresolved then 1 else 0
    unflaggedUnits := accumulator.unflaggedUnits + if !judgedHarm && !unresolved then 1 else 0
    logE := fun index =>
      accumulator.logE index
        + accumulator.evidence functions (judgedHarm || unresolved) (monitorAlternatives index)
  }

/-- Observes one unit, flagged where harm was judged or nothing was resolved. -/
def observeUnit (judgedHarm unresolved : Bool) : CompositeRiskAccumulator R × R :=
  let counted := accumulator.count functions judgedHarm unresolved
  let eValue := counted.mixtureEValue functions
  ({ counted with
      alarmTriggered := counted.alarmTriggered || decide (counted.threshold ≤ eValue) },
    eValue)

end CompositeRiskAccumulator

end Accumulator

structure FinalizedMonitorUnit where
  unitId : String
  labelRevision : Nat
  judgedHarm : Bool
  unresolved : Bool
deriving DecidableEq, Repr

inductive MonitorStatus
  | active
  | alarmed
  | invalidated
deriving DecidableEq, Repr

inductive RecommendedAction
  | none
  | blockPromotion
  | allocateNewEpoch
deriving DecidableEq, Repr

structure HistoricalEpochTrace (R : Type) where
  epochId : Nat
  allocatedAlpha : R
  status : MonitorStatus
  finalEValue : R
  alarmTriggered : Bool
  judgedHarmUnits : Nat
  unresolvedUnits : Nat
  unflaggedUnits : Nat

structure MonitorLedgerState (R : Type) where
  status : MonitorStatus
  currentEpoch : Nat
  alphaTotal : R
  alphaSpent : R
  currentEpochAlpha : R
  tau : R
  logE : Fin 3 → R
  eValue : R
  threshold : R
  alarmTriggered : Bool
  judgedHarmUnits : Nat
  unresolvedUnits : Nat
  unflaggedUnits : Nat
  prespecifiedOrder : List String
  nextOrderIndex : Nat
  finalizedUnits : TreeMap String FinalizedMonitorUnit compare
  historicalEpochs : List (HistoricalEpochTrace R)
  recommendedAction : RecommendedAction

def checkOrder {Error : Type} (error : Error) (seen : List String)
    : List String → Except Error Unit
  | [] => .ok ()
  | unit :: rest => do
      ensure (isBlank unit = false ∧ unit ∉ seen) error
      checkOrder error (unit :: seen) rest

section Ledger

variable {R : Type} [Field R] [LinearOrder R] (functions : LogExp R)

namespace MonitorLedgerState

def initializeLedger (alphaTotal firstEpochAlpha : R) (prespecifiedOrder : List String)
    : Except (LearningError R) (MonitorLedgerState R) := do
  ensure ((0 ≤ alphaTotal ∧ alphaTotal < 1) ∧ alphaTotal ≠ 0)
    (.monitorInvalid "alpha_total must be finite in (0, 1)")
  ensure (0 < firstEpochAlpha ∧ firstEpochAlpha ≤ alphaTotal)
    (.alphaBudgetExhausted firstEpochAlpha alphaTotal)
  ensure (prespecifiedOrder ≠ []) (.monitorInvalid "prespecified_order must be non-empty")
  checkOrder
    (.monitorInvalid "prespecified_order must contain unique non-empty unit IDs")
    [] prespecifiedOrder
  return {
    status := .active
    currentEpoch := 1
    alphaTotal := alphaTotal
    alphaSpent := firstEpochAlpha
    currentEpochAlpha := firstEpochAlpha
    tau := defaultMonitorTau
    logE := fun _ => 0
    eValue := 1
    threshold := 1 / firstEpochAlpha
    alarmTriggered := false
    judgedHarmUnits := 0
    unresolvedUnits := 0
    unflaggedUnits := 0
    prespecifiedOrder := prespecifiedOrder
    nextOrderIndex := 0
    finalizedUnits := ∅
    historicalEpochs := []
    recommendedAction := .none
  }

variable (ledger : MonitorLedgerState R)

def remainingAlpha : R := max (ledger.alphaTotal - ledger.alphaSpent) 0

def trace (status : MonitorStatus) : HistoricalEpochTrace R :=
  {
    epochId := ledger.currentEpoch
    allocatedAlpha := ledger.currentEpochAlpha
    status := status
    finalEValue := ledger.eValue
    alarmTriggered := ledger.alarmTriggered
    judgedHarmUnits := ledger.judgedHarmUnits
    unresolvedUnits := ledger.unresolvedUnits
    unflaggedUnits := ledger.unflaggedUnits
  }

/-- Keeps the trace of the current epoch. -/
def archive (status : MonitorStatus) : MonitorLedgerState R :=
  { ledger with historicalEpochs := ledger.historicalEpochs ++ [ledger.trace status] }

def keep (unit : FinalizedMonitorUnit) : MonitorLedgerState R :=
  { ledger with finalizedUnits := ledger.finalizedUnits.insert unit.unitId unit }

def accumulator : CompositeRiskAccumulator R :=
  {
    tau := ledger.tau
    alphaMonitor := ledger.currentEpochAlpha
    logE := ledger.logE
    judgedHarmUnits := ledger.judgedHarmUnits
    unresolvedUnits := ledger.unresolvedUnits
    unflaggedUnits := ledger.unflaggedUnits
    alarmTriggered := ledger.alarmTriggered
  }

def accumulate (observed : CompositeRiskAccumulator R × R) : MonitorLedgerState R :=
  { ledger with
    eValue := observed.2
    logE := observed.1.logE
    judgedHarmUnits := observed.1.judgedHarmUnits
    unresolvedUnits := observed.1.unresolvedUnits
    unflaggedUnits := observed.1.unflaggedUnits
  }

def alarm : MonitorLedgerState R :=
  { ledger with
    alarmTriggered := true
    status := .alarmed
    recommendedAction := .blockPromotion
  }

end MonitorLedgerState

/-- A computation on the ledger. What it has written stays written when it fails. -/
abbrev LedgerUpdate (R : Type) : Type → Type :=
  EStateM (LearningError R) (MonitorLedgerState R)

def correctUnit (existing unit : FinalizedMonitorUnit) : LedgerUpdate R Unit := do
  if unit.labelRevision < existing.labelRevision then
    throw (.monitorInvalid
      ("stale label_revision " ++ toString unit.labelRevision ++ " < "
        ++ toString existing.labelRevision ++ " for unit " ++ unit.unitId))
  else if unit.labelRevision = existing.labelRevision ∧ unit.judgedHarm = existing.judgedHarm
      ∧ unit.unresolved = existing.unresolved then
    pure ()
  else
    modify (fun ledger => ledger.archive .invalidated)
    modify (fun ledger => ledger.keep unit)
    modify (fun ledger =>
      { ledger with status := .invalidated, recommendedAction := .allocateNewEpoch })

def observeInTurn (unit : FinalizedMonitorUnit) : LedgerUpdate R Unit := do
  let ledger ← get
  let observed := ledger.accumulator.observeUnit functions unit.judgedHarm unit.unresolved
  modify (fun ledger => ledger.accumulate observed)
  if observed.1.alarmTriggered then
    modify MonitorLedgerState.alarm
  modify (fun ledger => ledger.keep unit)
  modify (fun ledger => { ledger with nextOrderIndex := ledger.nextOrderIndex + 1 })

def finalizeUnit (unit : FinalizedMonitorUnit) : LedgerUpdate R Unit := do
  let ledger ← get
  if ledger.status ≠ .active ∧ ledger.status ≠ .alarmed then
    throw (.monitorInvalid
      "cannot record prospective unit while monitor status is 'invalidated'")
  else
    match ledger.prespecifiedOrder[ledger.nextOrderIndex]? with
    | none =>
        throw (.monitorInvalid
          "all prespecified units in this epoch have already been finalized")
    | some expected =>
        if unit.unitId ≠ expected then
          throw (.monitorInvalid
            ("out-of-order unit finalization: expected " ++ expected ++ ", got "
              ++ unit.unitId))
        else
          observeInTurn functions unit

def recordUnit (unit : FinalizedMonitorUnit) : LedgerUpdate R Unit := do
  let ledger ← get
  match ledger.finalizedUnits[unit.unitId]? with
  | some existing => correctUnit existing unit
  | none => finalizeUnit functions unit

def alphaSlack : R := 1 / 10 ^ 15

def beginEpoch (newAlpha : R) (prespecifiedOrder : List String) (ledger : MonitorLedgerState R)
    : MonitorLedgerState R :=
  { ledger with
    currentEpoch := ledger.currentEpoch + 1
    alphaSpent := ledger.alphaSpent + newAlpha
    currentEpochAlpha := newAlpha
    status := .active
    logE := fun _ => 0
    eValue := 1
    threshold := 1 / newAlpha
    alarmTriggered := false
    judgedHarmUnits := 0
    unresolvedUnits := 0
    unflaggedUnits := 0
    prespecifiedOrder := prespecifiedOrder
    nextOrderIndex := 0
    finalizedUnits := ∅
    recommendedAction := .none
  }

def startNewEpoch (newAlpha : R) (prespecifiedOrder : List String) : LedgerUpdate R Unit := do
  let ledger ← get
  if newAlpha ≤ 0 then
    throw (.monitorInvalid "new_alpha must be positive and finite")
  else if ledger.alphaTotal + alphaSlack < ledger.alphaSpent + newAlpha then
    throw (.alphaBudgetExhausted newAlpha ledger.remainingAlpha)
  else if prespecifiedOrder = [] then
    throw (.monitorInvalid "new epoch prespecified_order must be non-empty")
  else
    match
      checkOrder
        (.monitorInvalid "new epoch prespecified_order must contain unique non-empty unit IDs")
        [] prespecifiedOrder
    with
    | .error error => throw error
    | .ok () =>
        if ledger.status ≠ .invalidated then
          modify (fun ledger => ledger.archive ledger.status)
        modify (beginEpoch newAlpha prespecifiedOrder)

/-- What the owner of a ledger asks of it. -/
inductive MonitorOperation (R : Type)
  | recordUnit (unit : FinalizedMonitorUnit)
  | startNewEpoch (newAlpha : R) (prespecifiedOrder : List String)

def MonitorOperation.update : MonitorOperation R → LedgerUpdate R Unit
  | .recordUnit unit => Learning.recordUnit functions unit
  | .startNewEpoch newAlpha prespecifiedOrder =>
      Learning.startNewEpoch newAlpha prespecifiedOrder

/-- The ledger as a machine: it goes on after a refusal from what that left written. -/
def monitor
    : Machine (MonitorLedgerState R) (MonitorOperation R) (Except (LearningError R) Unit) where
  next ledger operation :=
    match (operation.update functions).run ledger with
    | .ok _ after => (after, .ok ())
    | .error error after => (after, .error error)

end Ledger

-- The evidence over the real numbers: each unit is a bet against the ceiling on the risk

noncomputable def LogExp.real : LogExp ℝ := { ln := Real.log, exp := Real.exp }

noncomputable def mixture (logE : Fin 3 → ℝ) : ℝ := (∑ index, Real.exp (logE index)) / 3

theorem logsumexp_real (values : Fin 3 → ℝ)
    : logsumexp .real values = Real.log (∑ index, Real.exp (values index)) := by
  have positive : 0 < ∑ index, Real.exp (values index) :=
    Finset.sum_pos (fun index _ => Real.exp_pos (values index)) Finset.univ_nonempty
  have factored
      : ∑ index, Real.exp (values index - maxValue values)
        = (∑ index, Real.exp (values index)) * Real.exp (-maxValue values) := by
    rw [Finset.sum_mul]
    refine Finset.sum_congr rfl ?_
    intro index _
    rw [sub_eq_add_neg, Real.exp_add]
  rw [Fin.sum_univ_three] at factored
  change maxValue values + Real.log _ = _
  rw [show LogExp.real.exp = Real.exp from rfl, factored,
    Real.log_mul positive.ne' (Real.exp_pos _).ne', Real.log_exp]
  ring

theorem mixtureEValue_real (accumulator : CompositeRiskAccumulator ℝ)
    : accumulator.mixtureEValue .real = mixture accumulator.logE := by
  have positive : 0 < ∑ index, Real.exp (accumulator.logE index) :=
    Finset.sum_pos (fun index _ => Real.exp_pos _) Finset.univ_nonempty
  rw [CompositeRiskAccumulator.mixtureEValue, logsumexp_real]
  change Real.exp (Real.log _ - Real.log 3) = _
  rw [← Real.log_div positive.ne' (by norm_num), Real.exp_log (by positivity), mixture]

theorem mixture_nonneg (logE : Fin 3 → ℝ) : 0 ≤ mixture logE :=
  div_nonneg (Finset.sum_nonneg (fun _ _ => (Real.exp_pos _).le)) (by norm_num)

theorem mixture_zero : mixture (fun _ => 0) = 1 := by
  rw [mixture, Fin.sum_univ_three, Real.exp_zero]
  norm_num

theorem monitorAlternatives_bounds (index : Fin 3)
    : monitorAlternatives (R := ℝ) 0 ≤ monitorAlternatives index
      ∧ monitorAlternatives (R := ℝ) index < 1 := by
  fin_cases index <;> simp [monitorAlternatives] <;> norm_num

/-- What a unit multiplies the e-value of an alternative by. -/
noncomputable def odds (tau : ℝ) (flagged : Bool) (q : ℝ) : ℝ :=
  Real.exp (if flagged then Real.log (q / tau) else Real.log ((1 - q) / (1 - tau)))

theorem exp_evidence (accumulator : CompositeRiskAccumulator ℝ) (flagged : Bool) (q : ℝ)
    : Real.exp (accumulator.evidence .real flagged q) = odds accumulator.tau flagged q := by
  cases flagged <;> rfl

/-- One where a unit is flagged, and zero elsewhere. -/
def indicator (flagged : Bool) : ℝ := if flagged then 1 else 0

/-- A unit wins at most what its alternative puts on the excess over the ceiling. Without a
ceiling above zero a flagged unit has no odds, and none is expected.
-/
theorem odds_le {tau q : ℝ} (nonneg : 0 ≤ tau) (above : tau < q) (below : q < 1) (flagged : Bool)
    : odds tau flagged q ≤ 1 + (q - tau) / (tau * (1 - tau)) * (indicator flagged - tau) := by
  have rest : 0 < 1 - tau := by linarith
  have left : 0 < 1 - q := by linarith
  rcases nonneg.eq_or_lt with rfl | positive
  · cases flagged with
    | true => simp [odds]
    | false =>
        simp only [odds, Bool.false_eq_true, if_false, sub_zero, div_one, zero_mul, div_zero,
          zero_mul, add_zero, Real.exp_log left]
        linarith
  · cases flagged with
    | true =>
        have won : 0 < q / tau := div_pos (by linarith) positive
        simp only [odds, if_true, Real.exp_log won, indicator]
        field_simp
        linarith
    | false =>
        have lost : 0 < (1 - q) / (1 - tau) := div_pos left rest
        simp only [odds, Bool.false_eq_true, if_false, Real.exp_log lost, indicator]
        field_simp
        linarith

/-- What the mixture has put on the excess over the ceiling. -/
noncomputable def gain (tau : ℝ) (logE : Fin 3 → ℝ) : ℝ :=
  (∑ index, Real.exp (logE index) * ((monitorAlternatives index - tau) / (tau * (1 - tau)))) / 3

section Gain

variable {tau : ℝ}

theorem gain_nonneg (nonneg : 0 ≤ tau) (below : tau < monitorAlternatives 0)
    (logE : Fin 3 → ℝ)
    : 0 ≤ gain tau logE := by
  refine div_nonneg (Finset.sum_nonneg ?_) (by norm_num)
  intro index _
  obtain ⟨above, small⟩ := monitorAlternatives_bounds index
  refine mul_nonneg (Real.exp_pos _).le (div_nonneg (by linarith) ?_)
  exact mul_nonneg nonneg (by linarith)

theorem count_mixture_le (accumulator : CompositeRiskAccumulator ℝ) (nonneg : 0 ≤ accumulator.tau)
    (below : accumulator.tau < monitorAlternatives 0) (judgedHarm unresolved : Bool)
    : mixture (accumulator.count .real judgedHarm unresolved).logE
      ≤ mixture accumulator.logE
        + gain accumulator.tau accumulator.logE
          * (indicator (judgedHarm || unresolved) - accumulator.tau) := by
  have each (index : Fin 3)
      : Real.exp ((accumulator.count .real judgedHarm unresolved).logE index)
        ≤ Real.exp (accumulator.logE index)
          + Real.exp (accumulator.logE index)
            * ((monitorAlternatives index - accumulator.tau)
              / (accumulator.tau * (1 - accumulator.tau)))
            * (indicator (judgedHarm || unresolved) - accumulator.tau) := by
    obtain ⟨above, small⟩ := monitorAlternatives_bounds index
    have bet := odds_le nonneg (below.trans_le above) small (judgedHarm || unresolved)
    have positive := Real.exp_pos (accumulator.logE index)
    change Real.exp (accumulator.logE index + accumulator.evidence .real _ _) ≤ _
    rw [Real.exp_add, exp_evidence]
    nlinarith
  have sum := Finset.sum_le_sum (fun index (_ : index ∈ Finset.univ) => each index)
  rw [Finset.sum_add_distrib, ← Finset.sum_mul] at sum
  rw [mixture, mixture, gain]
  linarith

end Gain

end SkillRanker.Learning
