import SkillRanker.Jev.Admission

/-! What each operation of the attempt coordinator can do: nothing, or one change of one
attempt together with the counters it moves.
-/

namespace SkillRanker.Jev

open SkillRanker.Library
open Std

def AttemptTrace.fresh (attemptId : String) (stage : RankingStage) (now : Nat) : AttemptTrace :=
  {
    state := .admitted
    provenance :=
      {
        attemptId := attemptId
        stage := stage
        admittedAt := now
        sentAt := none
        settledAt := none
        outcome := .admitted
        usage := none
        failure := none
      }
  }

namespace AttemptTrace

variable (trace : AttemptTrace) (now : Nat)

def send : AttemptTrace :=
  {
    state := .sent
    provenance := { trace.provenance with sentAt := some now, outcome := .sent }
  }

def complete (usage : Usage) : AttemptTrace :=
  {
    state := .finished
    provenance :=
      {
        trace.provenance with
        settledAt := some now
        outcome := .completed
        usage := some usage
      }
  }

def fail (failure : AttemptFailure) : AttemptTrace :=
  {
    state := .finished
    provenance :=
      {
        trace.provenance with
        settledAt := some now
        outcome := .failed
        failure := some failure
      }
  }

def discard : AttemptTrace :=
  {
    state := .finished
    provenance :=
      {
        trace.provenance with
        settledAt := some now
        outcome := .discarded
        failure := some (.local "discarded-before-send")
      }
  }

end AttemptTrace

namespace AttemptAdmission

def write (admission : AttemptAdmission) (attemptId : String) (trace : AttemptTrace)
    : AttemptAdmission :=
  { admission with issuedAttemptIds := admission.issuedAttemptIds.insert attemptId trace }

/-- Everything one call of the coordinator can do. -/
inductive Effect (before : AttemptAdmission) : AttemptAdmission → Prop
  | kept : Effect before before
  | admitted {stage now later slot} (found : before.slot stage now later = .ok slot)
    : Effect before (before.register stage slot)
  | sent {attemptId trace now} (known : before.issuedAttemptIds[attemptId]? = some trace)
    (state : trace.state = .admitted)
    : Effect before
        {
          before.write attemptId (trace.send now) with
          receipt :=
            {
              before.receipt with
              sentAttempts := saturatingAddU32 before.receipt.sentAttempts 1
            }
        }
  | completed {attemptId trace now usage}
    (known : before.issuedAttemptIds[attemptId]? = some trace) (state : trace.state = .sent)
    (fits : (before.usageTotal usage).isSome)
    : Effect before
        {
          before.write attemptId (trace.complete now usage) with
          receipt := before.receipt.recordSuccess usage
          wideCompleted := before.wideCompleted || decide (trace.provenance.stage = .wide)
          currentStageCompleted := true
        }
  | failed {attemptId trace now failure}
    (known : before.issuedAttemptIds[attemptId]? = some trace) (state : trace.state = .sent)
    : Effect before
        {
          before.write attemptId (trace.fail now failure) with
          receipt := before.receipt.recordTerminalError
        }
  | discarded {attemptId trace now}
    (known : before.issuedAttemptIds[attemptId]? = some trace)
    (state : trace.state = .admitted)
    : Effect before (before.write attemptId (trace.discard now))

variable (admission : AttemptAdmission)

/-- An active attempt has a trace in the state asked for. -/
theorem isActive_eq_true {owner : Nat} {attemptId : String} {state : AttemptState}
    (active : admission.isActive owner attemptId state = true)
    : ∃ trace, admission.issuedAttemptIds[attemptId]? = some trace ∧ trace.state = state := by
  simp only [isActive, attemptState, Bool.and_eq_true, decide_eq_true_eq,
    Option.map_eq_some_iff] at active
  exact active.2

theorem admit_effect (stage : RankingStage) (endpoint : CanonicalOrigin) (now later : Nat)
    : Effect admission (admission.admitAttempt stage endpoint now later).1 := by
  unfold admitAttempt
  cases found : admission.slot stage now later with
  | error refusal => exact .kept
  | ok slot => exact .admitted found

variable (sent : SentAttempt)

theorem recordSent_effect (now : Nat)
    : Effect admission (admission.recordSent sent now).1 := by
  unfold recordSent
  split
  case isTrue active =>
    obtain ⟨trace, known, state⟩ := admission.isActive_eq_true active
    simp only [settle, known]
    exact .sent known state
  case isFalse => exact .kept

theorem recordTerminalFailure_effect (failure : AttemptFailure) (now : Nat)
    : Effect admission (admission.recordTerminalFailure sent failure now).1 := by
  unfold recordTerminalFailure
  split
  case isTrue active =>
    obtain ⟨trace, known, state⟩ := admission.isActive_eq_true active
    simp only [settle, known]
    exact .failed known state
  case isFalse => exact .kept

/-- A response is the one of its own stage, as permits carry the stage they were issued for.
-/
theorem recordResponse_effect (usage : Usage) (now : Nat)
    (matching
      : sent.owner = admission.owner
        → ∀ trace,
            admission.issuedAttemptIds[sent.attemptId]? = some trace
            → trace.provenance.stage = sent.stage)
    : Effect admission (admission.recordResponse sent usage now).1 := by
  unfold recordResponse
  split
  case isTrue active =>
    split
    case isTrue =>
      have effect := admission.recordTerminalFailure_effect sent
        (.local "usage-counter-overflow") now
      generalize admission.recordTerminalFailure sent (.local "usage-counter-overflow") now
        = outcome at effect ⊢
      rcases outcome with ⟨failed, error | _⟩ <;> exact effect
    case isFalse fits =>
      obtain ⟨trace, known, state⟩ := admission.isActive_eq_true active
      have owner : sent.owner = admission.owner := by
        simp only [isActive, Bool.and_eq_true, decide_eq_true_eq] at active
        exact active.1.symm
      simp only [settle, known, ← matching owner trace known]
      exact .completed known state (by simpa [Option.isSome_iff_ne_none] using fits)
  case isFalse => exact .kept

theorem recordDiscard_effect (discarded : DiscardedAttempt) (now : Nat)
    : Effect admission (admission.recordDiscard discarded now).1 := by
  unfold recordDiscard
  split
  case isTrue active =>
    obtain ⟨trace, known, state⟩ := admission.isActive_eq_true active
    simp only [settle, known]
    exact .discarded known state
  case isFalse => exact .kept

structure Admitted (stage : RankingStage) (now later : Nat) (slot : Slot) : Prop where
  idle : admission.hasActiveAttempt = false
  clock : admission.clock.admitNewWork now = .ok slot.now
  reserve : admission.budget.minAttemptReserveMs.toNat ≤ slot.remainingBeforeCleanup
  remaining : slot.remainingBeforeCleanup = admission.clock.remainingBeforeCleanup later
  ordered : stage = .rerank → admission.wideCompleted = true
  logical
    : admission.isNewLogicalStage stage = true
      → admission.logicalRequestsStarted < admission.budget.maxLogicalRequests.toNat
  attempts : admission.receipt.admittedAttempts < admission.budget.maxHttpAttempts.toNat
  sequence : slot.sequence = saturatingAddU32 admission.receipt.admittedAttempts 1
  attemptId : slot.attemptId = newSequential admission.invocationId slot.sequence
  absent : admission.issuedAttemptIds[slot.attemptId]? = none

/-- An admitted attempt has passed every check in turn. -/
theorem slot_admitted {stage : RankingStage} {now later : Nat} {slot : Slot}
    (found : admission.slot stage now later = .ok slot)
    : admission.Admitted stage now later slot := by
  simp only [AttemptAdmission.slot, bind_eq_ok, ensure_eq_ok, mapError_eq_ok, pure_eq_ok] at found
  obtain ⟨_, idle, admitted, clock, _, reserve, _, ordered, _, logical, _, attempts, _, absent,
    rfl⟩ := found
  refine ⟨by simpa using idle, clock, reserve, rfl, ?_, ?_, Nat.not_le.mp attempts, rfl, rfl,
    absent⟩
  · intro rerank
    simpa [rerank] using ordered
  · intro started
    simpa [started] using logical

end AttemptAdmission

end SkillRanker.Jev
