import Mathlib.Data.List.Induction
import SkillRanker.Identity
import SkillRanker.Jev.Deadline

/-! The coordinator of provider attempts of one invocation: permits, the state of each
attempt with its provenance, and the receipt of their cost.
-/

namespace SkillRanker.Jev

open SkillRanker.Library
open Std

-- Budgets, receipts and provenance

def defaultMinAttemptReserveMs : UInt64 := 50

def defaultGuardGeneration : Nat := 1

abbrev CanonicalOrigin := String

structure AttemptBudget where
  maxLogicalRequests : UInt32
  maxHttpAttempts : UInt32
  minAttemptReserveMs : UInt64
deriving DecidableEq

def AttemptBudget.defaultInvocation : AttemptBudget :=
  {
    maxLogicalRequests := 2
    maxHttpAttempts := 4
    minAttemptReserveMs := defaultMinAttemptReserveMs
  }

inductive AdmissionRefusal
  | attemptsExhausted (attemptsUsed limit : Nat)
  | logicalRequestsExhausted (logicalUsed limit : Nat)
  | insufficientDeadline (remainingMs requiredMs : Nat)
  | stageOrderingViolation (stage : RankingStage) (reason : String)
  | duplicateAttemptId (attemptId : String)
deriving DecidableEq, Repr

inductive AdmissionError
  | permitAlreadyConsumed
  | attemptNotActive
  | usageOverflow
  | invalidAttemptId (reason : String)
deriving DecidableEq, Repr

/-- `AttemptId::new_sequential`. -/
def newSequential (invocationId : String) (sequence : Nat) : String :=
  invocationId ++ "-att-" ++ toString sequence

/-- Provider tokens, as `u64`. -/
@[ext]
structure Usage where
  inputTokens : Nat
  outputTokens : Nat
deriving DecidableEq, Repr

@[ext]
structure CostReceipt where
  admittedAttempts : Nat
  sentAttempts : Nat
  completedAttempts : Nat
  knownUsage : Usage
  unknownUsageAttempts : Nat
  hasUnknownUsage : Bool
  cacheServed : Bool
deriving DecidableEq, Repr

def CostReceipt.new : CostReceipt :=
  {
    admittedAttempts := 0
    sentAttempts := 0
    completedAttempts := 0
    knownUsage := { inputTokens := 0, outputTokens := 0 }
    unknownUsageAttempts := 0
    hasUnknownUsage := false
    cacheServed := false
  }

def CostReceipt.recordSuccess (receipt : CostReceipt) (usage : Usage) : CostReceipt :=
  {
    receipt with
    completedAttempts := saturatingAddU32 receipt.completedAttempts 1
    knownUsage :=
      {
        inputTokens := saturatingAdd receipt.knownUsage.inputTokens usage.inputTokens
        outputTokens := saturatingAdd receipt.knownUsage.outputTokens usage.outputTokens
      }
  }

def CostReceipt.recordTerminalError (receipt : CostReceipt) : CostReceipt :=
  {
    receipt with
    unknownUsageAttempts := saturatingAddU32 receipt.unknownUsageAttempts 1
    hasUnknownUsage := true
  }

inductive AttemptState
  | admitted
  | sent
  | finished
deriving DecidableEq, Repr

inductive AttemptOutcome
  | admitted
  | sent
  | completed
  | failed
  | discarded
deriving DecidableEq, Repr

/-- Why an attempt ended without a validated response. -/
inductive AttemptFailure
  | http (status : UInt16)
  | «local» (kind : String)
  | indeterminate (kind : String)
deriving DecidableEq

structure AttemptProvenance where
  attemptId : String
  stage : RankingStage
  admittedAt : Nat
  sentAt : Option Nat
  settledAt : Option Nat
  outcome : AttemptOutcome
  usage : Option Usage
  failure : Option AttemptFailure
deriving DecidableEq

structure AttemptTrace where
  state : AttemptState
  provenance : AttemptProvenance
deriving DecidableEq

-- Permits

/-- A single-use permit. `owner` is the identity of the coordinator that issued it. -/
structure AttemptPermit where
  owner : Nat
  attemptId : String
  stage : RankingStage
  endpoint : CanonicalOrigin
  guardGeneration : Nat
  admittedAt : Nat
  deadlineRemainingMs : Nat
  consumed : Bool
deriving DecidableEq

structure SentAttempt where
  owner : Nat
  attemptId : String
  stage : RankingStage
  sentAt : Nat
deriving DecidableEq

structure DiscardedAttempt where
  owner : Nat
  attemptId : String
  stage : RankingStage
  reason : String
deriving DecidableEq

def AttemptPermit.markSent (permit : AttemptPermit) : Except AdmissionError SentAttempt :=
  if permit.consumed then .error .permitAlreadyConsumed
  else
    .ok
      {
        owner := permit.owner
        attemptId := permit.attemptId
        stage := permit.stage
        sentAt := permit.admittedAt
      }

def AttemptPermit.discardBeforeSend (permit : AttemptPermit) (reason : String)
    : DiscardedAttempt :=
  {
    owner := permit.owner
    attemptId := permit.attemptId
    stage := permit.stage
    reason := reason
  }

-- The coordinator

structure AttemptAdmission where
  budget : AttemptBudget
  clock : InvocationDeadline
  invocationId : String
  guardGeneration : Nat
  receipt : CostReceipt
  logicalRequestsStarted : Nat
  currentStage : Option RankingStage
  wideCompleted : Bool
  issuedAttemptIds : TreeMap String AttemptTrace compare
  owner : Nat
  currentStageCompleted : Bool

def AttemptAdmission.new (budget : AttemptBudget) (clock : InvocationDeadline)
    (invocationId : String) (owner : Nat)
    : Except AdmissionError AttemptAdmission :=
  if invocationId.toList.all isWhitespace then
    .error (.invalidAttemptId "invocation ID cannot be empty")
  else
    .ok
      {
        budget := budget
        clock := clock
        invocationId := invocationId
        guardGeneration := defaultGuardGeneration
        receipt := .new
        logicalRequestsStarted := 0
        currentStage := none
        wideCompleted := false
        issuedAttemptIds := ∅
        owner := owner
        currentStageCompleted := false
      }

namespace AttemptAdmission

variable (admission : AttemptAdmission)

def attemptState (attemptId : String) : Option AttemptState :=
  admission.issuedAttemptIds[attemptId]?.map AttemptTrace.state

/-- Moves one attempt to `state`; a missing attempt is left missing. -/
def settle (attemptId : String) (state : AttemptState)
    (update : AttemptProvenance → AttemptProvenance)
    : AttemptAdmission :=
  match admission.issuedAttemptIds[attemptId]? with
  | some trace =>
      {
        admission with
        issuedAttemptIds :=
          admission.issuedAttemptIds.insert attemptId
            { state, provenance := update trace.provenance }
      }
  | none => admission

def remainingHttpAttempts : Nat :=
  admission.budget.maxHttpAttempts.toNat - admission.receipt.admittedAttempts

def remainingLogicalRequests : Nat :=
  admission.budget.maxLogicalRequests.toNat - admission.logicalRequestsStarted

def canAttemptRerank : Bool :=
  admission.wideCompleted
    && admission.remainingHttpAttempts > 0
    && (admission.remainingLogicalRequests > 0
      || (admission.currentStage = some .rerank && !admission.currentStageCompleted))

def isNewLogicalStage (stage : RankingStage) : Bool :=
  match admission.currentStage with
  | some current => current ≠ stage || admission.currentStageCompleted
  | none => true

def hasActiveAttempt : Bool :=
  admission.issuedAttemptIds.toList.any (fun entry => entry.2.state ≠ .finished)

/-- What the checks of `admit` establish. -/
structure Slot where
  now : Nat
  remainingBeforeCleanup : Nat
  sequence : Nat
  attemptId : String

/-- The checks of `admit`, with the two clock readings it takes. -/
def slot (stage : RankingStage) (now later : Nat) : Except AdmissionRefusal Slot := do
  ensure (¬ admission.hasActiveAttempt)
    (.stageOrderingViolation stage "a previous attempt is still active")
  let required := admission.budget.minAttemptReserveMs.toNat
  let now ← (admission.clock.admitNewWork now).mapError
    (fun _ => .insufficientDeadline 0 required)
  let remaining := admission.clock.remainingBeforeCleanup later
  ensure (required ≤ remaining) (.insufficientDeadline remaining required)
  ensure (¬ (stage = .rerank ∧ ¬ admission.wideCompleted))
    (.stageOrderingViolation stage
      "rerank stage requires successful wide stage completion first")
  let logicalLimit := admission.budget.maxLogicalRequests.toNat
  ensure
    (¬ (admission.isNewLogicalStage stage ∧ admission.logicalRequestsStarted ≥ logicalLimit))
    (.logicalRequestsExhausted admission.logicalRequestsStarted logicalLimit)
  let attemptLimit := admission.budget.maxHttpAttempts.toNat
  ensure (¬ admission.receipt.admittedAttempts ≥ attemptLimit)
    (.attemptsExhausted admission.receipt.admittedAttempts attemptLimit)
  let sequence := saturatingAddU32 admission.receipt.admittedAttempts 1
  let attemptId := newSequential admission.invocationId sequence
  ensure (admission.issuedAttemptIds[attemptId]? = none) (.duplicateAttemptId attemptId)
  return { now, remainingBeforeCleanup := remaining, sequence, attemptId }

def register (stage : RankingStage) (slot : Slot) : AttemptAdmission :=
  let started := admission.isNewLogicalStage stage
  {
    admission with
    issuedAttemptIds :=
      admission.issuedAttemptIds.insert slot.attemptId
        {
          state := .admitted
          provenance :=
            {
              attemptId := slot.attemptId
              stage := stage
              admittedAt := slot.now
              sentAt := none
              settledAt := none
              outcome := .admitted
              usage := none
              failure := none
            }
        }
    receipt := { admission.receipt with admittedAttempts := slot.sequence }
    logicalRequestsStarted :=
      if started then admission.logicalRequestsStarted + 1
      else admission.logicalRequestsStarted
    currentStage := if started then some stage else admission.currentStage
    currentStageCompleted := if started then false else admission.currentStageCompleted
  }

def admitAttempt (stage : RankingStage) (endpoint : CanonicalOrigin) (now later : Nat)
    : AttemptAdmission × Except AdmissionRefusal AttemptPermit :=
  match admission.slot stage now later with
  | .error refusal => (admission, .error refusal)
  | .ok slot =>
      (
        admission.register stage slot,
        .ok
          {
            owner := admission.owner
            attemptId := slot.attemptId
            stage := stage
            endpoint := endpoint
            guardGeneration := admission.guardGeneration
            admittedAt := slot.now
            deadlineRemainingMs := slot.remainingBeforeCleanup
            consumed := false
          }
      )

/-- The attempt is this coordinator's and in `state`. -/
def isActive (owner : Nat) (attemptId : String) (state : AttemptState) : Bool :=
  admission.owner = owner && admission.attemptState attemptId = some state

def recordSent (sent : SentAttempt) (now : Nat)
    : AttemptAdmission × Except AdmissionError Unit :=
  if admission.isActive sent.owner sent.attemptId .admitted then
    let counted : AttemptAdmission :=
      {
        admission with
        receipt :=
          {
            admission.receipt with
            sentAttempts := saturatingAddU32 admission.receipt.sentAttempts 1
          }
      }
    (
      counted.settle sent.attemptId .sent
        (fun provenance => { provenance with sentAt := some now, outcome := .sent }),
      .ok ()
    )
  else (admission, .error .attemptNotActive)

def recordTerminalFailure (sent : SentAttempt) (failure : AttemptFailure) (now : Nat)
    : AttemptAdmission × Except AdmissionError Unit :=
  if admission.isActive sent.owner sent.attemptId .sent then
    let counted : AttemptAdmission :=
      { admission with receipt := admission.receipt.recordTerminalError }
    (
      counted.settle sent.attemptId .finished
        (fun provenance =>
          {
            provenance with
            settledAt := some now
            outcome := .failed
            failure := some failure
          }),
      .ok ()
    )
  else (admission, .error .attemptNotActive)

def usageTotal (usage : Usage) : Option Nat := do
  let input ← checkedAdd admission.receipt.knownUsage.inputTokens usage.inputTokens
  let output ← checkedAdd admission.receipt.knownUsage.outputTokens usage.outputTokens
  checkedAdd input output

/-- Records a response. Usage beyond the counters ends the attempt as a failure, so that
its cost stays unknown.
-/
def recordResponse (sent : SentAttempt) (usage : Usage) (now : Nat)
    : AttemptAdmission × Except AdmissionError Unit :=
  if admission.isActive sent.owner sent.attemptId .sent then
    if (admission.usageTotal usage).isNone then
      match admission.recordTerminalFailure sent (.local "usage-counter-overflow") now with
      | (failed, .error error) => (failed, .error error)
      | (failed, .ok ()) => (failed, .error .usageOverflow)
    else
      let counted : AttemptAdmission :=
        {
          admission with
          receipt := admission.receipt.recordSuccess usage
          wideCompleted := admission.wideCompleted || decide (sent.stage = .wide)
          currentStageCompleted := true
        }
      (
        counted.settle sent.attemptId .finished
          (fun provenance =>
            {
              provenance with
              settledAt := some now
              outcome := .completed
              usage := some usage
            }),
        .ok ()
      )
  else (admission, .error .attemptNotActive)

def recordDiscard (discarded : DiscardedAttempt) (now : Nat)
    : AttemptAdmission × Except AdmissionError Unit :=
  if admission.isActive discarded.owner discarded.attemptId .admitted then
    (
      admission.settle discarded.attemptId .finished
        (fun provenance =>
          {
            provenance with
            settledAt := some now
            outcome := .discarded
            failure := some (.local "discarded-before-send")
          }),
      .ok ()
    )
  else (admission, .error .attemptNotActive)

end AttemptAdmission

end SkillRanker.Jev
