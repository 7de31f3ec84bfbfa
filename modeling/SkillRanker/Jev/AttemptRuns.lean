import SkillRanker.Jev.AttemptAccounts
import SkillRanker.Library.Machine

/-! Runs of the attempt coordinator. Its caller holds the permits it was given, and can
report an attempt only through one of them or through an attempt of another coordinator.
-/

namespace SkillRanker.Jev

open SkillRanker.Library
open Std

/-- A coordinator and every permit it has issued. -/
structure Holder where
  admission : AttemptAdmission
  permits : List AttemptPermit

/-- An attempt a caller can name: one of its permits, or one of another coordinator. -/
inductive AttemptRef
  | issued (index : Nat)
  | foreign (permit : AttemptPermit)

def Holder.permit (holder : Holder) : AttemptRef → Option AttemptPermit
  | .issued index => holder.permits[index]?
  | .foreign permit => if permit.owner = holder.admission.owner then none else some permit

inductive AttemptCall
  | admitAttempt (stage : RankingStage) (endpoint : CanonicalOrigin) (now later : Nat)
  | recordSent (attempt : AttemptRef) (now : Nat)
  | recordResponse (attempt : AttemptRef) (usage : Usage) (now : Nat)
  | recordTerminalFailure (attempt : AttemptRef) (failure : AttemptFailure) (now : Nat)
  | recordDiscard (attempt : AttemptRef) (reason : String) (now : Nat)

inductive AttemptAnswer
  | permitted (result : Except AdmissionRefusal AttemptPermit)
  | recorded (result : Except AdmissionError Unit)
  /-- The caller has no such attempt. -/
  | unavailable

def Holder.report (holder : Holder) (attempt : AttemptRef)
    (record : SentAttempt → AttemptAdmission × Except AdmissionError Unit)
    : Holder × AttemptAnswer :=
  match holder.permit attempt with
  | none => (holder, .unavailable)
  | some permit =>
      match permit.markSent with
      | .error error => (holder, .recorded (.error error))
      | .ok sent =>
          let (admission, result) := record sent
          ({ holder with admission }, .recorded result)

/-- One invocation's coordinator under its caller. -/
def attempts : Machine Holder AttemptCall AttemptAnswer where
  next holder
    | .admitAttempt stage endpoint now later =>
        match holder.admission.admitAttempt stage endpoint now later with
        | (admission, .error refusal) =>
            ({ holder with admission }, .permitted (.error refusal))
        | (admission, .ok permit) =>
            ({ admission, permits := holder.permits ++ [permit] }, .permitted (.ok permit))
    | .recordSent attempt now =>
        holder.report attempt (fun sent => holder.admission.recordSent sent now)
    | .recordResponse attempt usage now =>
        holder.report attempt (fun sent => holder.admission.recordResponse sent usage now)
    | .recordTerminalFailure attempt failure now =>
        holder.report attempt
          (fun sent => holder.admission.recordTerminalFailure sent failure now)
    | .recordDiscard attempt reason now =>
        match holder.permit attempt with
        | none => (holder, .unavailable)
        | some permit =>
            let (admission, result) :=
              holder.admission.recordDiscard (permit.discardBeforeSend reason) now
            ({ holder with admission }, .recorded result)

-- Permits and traces

namespace AttemptAdmission

variable {before : AttemptAdmission}

/-- An operation keeps the owner, and each known attempt with its stage. -/
theorem Effect.keeps {after : AttemptAdmission} (effect : Effect before after)
    : after.owner = before.owner
      ∧ ∀ (attemptId : String) (trace : AttemptTrace),
          before.issuedAttemptIds[attemptId]? = some trace
          → ∃ kept,
              after.issuedAttemptIds[attemptId]? = some kept
              ∧ kept.provenance.stage = trace.provenance.stage := by
  have write {target : String} {old new : AttemptTrace}
      (known : before.issuedAttemptIds[target]? = some old)
      (stage : new.provenance.stage = old.provenance.stage)
      (attemptId : String) (trace : AttemptTrace)
      (found : before.issuedAttemptIds[attemptId]? = some trace)
      : ∃ kept,
          (before.issuedAttemptIds.insert target new)[attemptId]? = some kept
          ∧ kept.provenance.stage = trace.provenance.stage := by
    by_cases same : attemptId = target
    · subst same
      cases known.symm.trans found
      exact ⟨new, TreeMap.getElem?_insert_self, stage⟩
    · exact ⟨trace, (getElem_insert_ne same).trans found, rfl⟩
  cases effect with
  | kept => exact ⟨rfl, fun _ trace found => ⟨trace, found, rfl⟩⟩
  | @admitted stage now later slot found =>
      refine ⟨rfl, fun attemptId trace known => ⟨trace, ?_, rfl⟩⟩
      have absent := (before.slot_admitted found).absent
      refine (getElem_insert_ne ?_).trans known
      rintro rfl
      cases absent.symm.trans known
  | sent known state => exact ⟨rfl, write known rfl⟩
  | completed known state fits => exact ⟨rfl, write known rfl⟩
  | failed known state => exact ⟨rfl, write known rfl⟩
  | discarded known state => exact ⟨rfl, write known rfl⟩

/-- A finished attempt never changes again. -/
theorem Effect.finished {after : AttemptAdmission} (effect : Effect before after)
    {attemptId : String} {trace : AttemptTrace}
    (found : before.issuedAttemptIds[attemptId]? = some trace) (done : trace.state = .finished)
    : after.issuedAttemptIds[attemptId]? = some trace := by
  have write {target : String} {old new : AttemptTrace}
      (known : before.issuedAttemptIds[target]? = some old) (unfinished : old.state ≠ .finished)
      : (before.issuedAttemptIds.insert target new)[attemptId]? = some trace := by
    refine (getElem_insert_ne ?_).trans found
    rintro rfl
    cases known.symm.trans found
    exact unfinished done
  cases effect with
  | kept => exact found
  | @admitted stage now later slot slotFound =>
      refine (getElem_insert_ne ?_).trans found
      rintro rfl
      cases (before.slot_admitted slotFound).absent.symm.trans found
  | sent known state => exact write known (by simp [state])
  | completed known state fits => exact write known (by simp [state])
  | failed known state => exact write known (by simp [state])
  | discarded known state => exact write known (by simp [state])

end AttemptAdmission

/-- Every issued permit is unconsumed and names an attempt of its stage. -/
def Holder.Holds (holder : Holder) : Prop :=
  ∀ permit ∈ holder.permits,
    permit.consumed = false
    ∧ ∃ trace,
        holder.admission.issuedAttemptIds[permit.attemptId]? = some trace
        ∧ trace.provenance.stage = permit.stage

variable {holder : Holder}
variable {admission : AttemptAdmission}

section

variable (holds : holder.Holds)
include holds

/-- An operation on the coordinator keeps what its permits name. -/
theorem Holder.Holds.after (effect : holder.admission.Effect admission)
    : Holder.Holds { holder with admission } := by
  intro permit member
  obtain ⟨unconsumed, trace, known, stage⟩ := holds permit member
  obtain ⟨kept, found, same⟩ := effect.keeps.2 permit.attemptId trace known
  exact ⟨unconsumed, kept, found, same.trans stage⟩

/-- A permit of the caller names an attempt of its stage, or is foreign. -/
theorem Holder.Holds.matching {attempt : AttemptRef} {permit : AttemptPermit}
    (named : holder.permit attempt = some permit) (owner : permit.owner = holder.admission.owner)
    (trace : AttemptTrace)
    (known : holder.admission.issuedAttemptIds[permit.attemptId]? = some trace)
    : trace.provenance.stage = permit.stage := by
  cases attempt with
  | issued index =>
      obtain ⟨_, found, same, stage⟩ := holds permit (List.mem_of_getElem? named)
      cases same.symm.trans known
      exact stage
  | foreign other =>
      simp only [Holder.permit] at named
      split at named
      · cases named
      · cases named
        contradiction

/-- One call is one operation of the coordinator, and permits stay held. -/
structure Called (before after : Holder) (answer : AttemptAnswer) : Prop where
  effect : before.admission.Effect after.admission
  holds : after.Holds
  permitted
    : ∀ permit,
        answer = .permitted (.ok permit)
        → permit.stage = .rerank
        → before.admission.wideCompleted = true

theorem called_report (attempt : AttemptRef)
    (record : SentAttempt → AttemptAdmission × Except AdmissionError Unit)
    (effect
      : ∀ permit sent,
          holder.permit attempt = some permit
          → permit.markSent = .ok sent
          → holder.admission.Effect (record sent).1)
    : Called holder (holder.report attempt record).1 (holder.report attempt record).2 := by
  unfold Holder.report
  cases named : holder.permit attempt with
  | none => exact ⟨.kept, holds, by simp⟩
  | some permit =>
      dsimp only
      cases marked : permit.markSent with
      | error error => exact ⟨.kept, holds, by simp⟩
      | ok sent =>
          have taken := effect permit sent named marked
          exact ⟨taken, holds.after taken, by simp⟩

theorem called_next (call : AttemptCall)
    : Called holder (attempts.next holder call).1 (attempts.next holder call).2 := by
  cases call with
  | recordSent attempt now =>
      exact called_report holds attempt _
        (fun _ sent _ _ => holder.admission.recordSent_effect sent now)
  | recordTerminalFailure attempt failure now =>
      exact called_report holds attempt _
        (fun _ sent _ _ => holder.admission.recordTerminalFailure_effect sent failure now)
  | recordResponse attempt usage now =>
      refine called_report holds attempt _ ?_
      intro permit sent named marked
      refine holder.admission.recordResponse_effect sent usage now ?_
      unfold AttemptPermit.markSent at marked
      split at marked
      · cases marked
      · cases marked
        exact holds.matching named
  | recordDiscard attempt reason now =>
      simp only [attempts]
      cases named : holder.permit attempt with
      | none => exact ⟨.kept, holds, by simp⟩
      | some permit =>
          have taken := holder.admission.recordDiscard_effect (permit.discardBeforeSend reason) now
          exact ⟨taken, holds.after taken, by simp⟩
  | admitAttempt stage endpoint now later =>
      have effect := holder.admission.admit_effect stage endpoint now later
      simp only [attempts]
      unfold AttemptAdmission.admitAttempt at effect ⊢
      cases found : holder.admission.slot stage now later with
      | error refusal => exact ⟨.kept, holds, by simp⟩
      | ok slot =>
          rw [found] at effect
          have admitted := holder.admission.slot_admitted found
          refine ⟨effect, ?_, ?_⟩
          · intro permit member
            rcases List.mem_append.mp member with old | new
            · exact holds.after effect permit old
            · cases List.mem_singleton.mp new
              exact ⟨rfl, _, TreeMap.getElem?_insert_self, rfl⟩
          · intro permit answered rerank
            cases answered
            exact admitted.ordered rerank

end

-- Whole runs

def AdmissionRefusal.IsOrderOrBudget : AdmissionRefusal → Prop
  | .stageOrderingViolation _ _ => True
  | .logicalRequestsExhausted _ _ => True
  | .attemptsExhausted _ _ => True
  | .insufficientDeadline _ _ => False
  | .duplicateAttemptId _ => False

namespace AttemptAdmission

variable (admission : AttemptAdmission)

def RefusesByOrderOrBudget (stage : RankingStage) (endpoint : CanonicalOrigin)
    (now later : Nat)
    : Prop :=
  ∃ refusal,
    (admission.admitAttempt stage endpoint now later).2 = .error refusal
    ∧ refusal.IsOrderOrBudget

variable {endpoint : CanonicalOrigin} {later now : Nat}

theorem refusesByOrderOrBudget_slot {stage : RankingStage}
    : admission.RefusesByOrderOrBudget stage endpoint now later
      ↔ ∃ refusal, admission.slot stage now later = .error refusal ∧ refusal.IsOrderOrBudget := by
  unfold RefusesByOrderOrBudget admitAttempt
  cases admission.slot stage now later <;> simp

/-- Both readings of an admission leave it enough time. -/
def ClockAdmits (now later : Nat) : Prop :=
  (∃ started, admission.clock.admitNewWork now = .ok started)
    ∧ admission.budget.minAttemptReserveMs.toNat
      ≤ admission.clock.remainingBeforeCleanup later

theorem canAttemptRerank_iff
    : admission.canAttemptRerank = true
      ↔ admission.wideCompleted = true
        ∧ ¬ (admission.isNewLogicalStage .rerank = true
          ∧ admission.logicalRequestsStarted ≥ admission.budget.maxLogicalRequests.toNat)
        ∧ ¬ admission.receipt.admittedAttempts ≥ admission.budget.maxHttpAttempts.toNat := by
  have started : admission.isNewLogicalStage .rerank = false
      ↔ admission.currentStage = some .rerank ∧ admission.currentStageCompleted = false := by
    unfold isNewLogicalStage
    cases admission.currentStage <;> simp
  simp only [canAttemptRerank, remainingHttpAttempts, remainingLogicalRequests,
    Bool.and_eq_true, Bool.or_eq_true, decide_eq_true_eq, Bool.not_eq_true', ← started,
    not_and, Nat.not_le, gt_iff_lt, ge_iff_le, Nat.sub_pos_iff_lt]
  cases admission.isNewLogicalStage .rerank <;> simp [and_comm, and_left_comm]

/-- Without an active attempt and with enough time, an admission for rerank is refused for
order or budget exactly when `canAttemptRerank` says no, by the checks in turn.
-/
theorem refusesByOrderOrBudget_iff (idle : admission.hasActiveAttempt = false)
    (clock : admission.ClockAdmits now later)
    : admission.RefusesByOrderOrBudget .rerank endpoint now later
      ↔ admission.canAttemptRerank = false := by
  obtain ⟨⟨started, admitted⟩, reserve⟩ := clock
  rw [Bool.eq_false_iff, Ne, canAttemptRerank_iff, refusesByOrderOrBudget_slot]
  have idle : ¬ admission.hasActiveAttempt = true := by simp [idle]
  unfold AttemptAdmission.slot
  rw [ensure_bind idle]
  simp only [admitted, Except.mapError, ok_bind]
  rw [ensure_bind reserve]
  by_cases wide : admission.wideCompleted = true
  case neg =>
    rw [ensure_bind_error (by simp [wide])]
    exact iff_of_true ⟨_, rfl, trivial⟩ (fun conditions => wide conditions.1)
  rw [ensure_bind (by simp [wide])]
  by_cases logical : admission.isNewLogicalStage .rerank = true
      ∧ admission.logicalRequestsStarted ≥ admission.budget.maxLogicalRequests.toNat
  · rw [ensure_bind_error (not_not.mpr logical)]
    exact iff_of_true ⟨_, rfl, trivial⟩ (fun conditions => conditions.2.1 logical)
  rw [ensure_bind logical]
  by_cases attempts : admission.receipt.admittedAttempts ≥ admission.budget.maxHttpAttempts.toNat
  · rw [ensure_bind_error (not_not.mpr attempts)]
    exact iff_of_true ⟨_, rfl, trivial⟩ (fun conditions => conditions.2.2 attempts)
  rw [ensure_bind attempts]
  refine iff_of_false ?_ (not_not.mpr ⟨wide, logical, attempts⟩)
  rintro ⟨refusal, refused, reason⟩
  by_cases fresh : admission.issuedAttemptIds[newSequential admission.invocationId
      (saturatingAddU32 admission.receipt.admittedAttempts 1)]? = none
  · rw [ensure_bind fresh] at refused
    cases refused
  · rw [ensure_bind_error fresh] at refused
    cases refused
    exact reason

/-- A clock that leaves too little time refuses before order and budget are looked at. -/
theorem not_refusesByOrderOrBudget (idle : admission.hasActiveAttempt = false)
    (clock : ¬ admission.ClockAdmits now later)
    : ¬ admission.RefusesByOrderOrBudget .rerank endpoint now later := by
  have idle : ¬ admission.hasActiveAttempt = true := by simp [idle]
  rw [refusesByOrderOrBudget_slot]
  unfold AttemptAdmission.slot
  rw [ensure_bind idle]
  rintro ⟨refusal, refused, reason⟩
  cases admitted : admission.clock.admitNewWork now with
  | error error =>
      simp only [admitted, Except.mapError] at refused
      cases refused
      exact reason
  | ok started =>
      simp only [admitted, Except.mapError, ok_bind] at refused
      rw [ensure_bind_error (fun reserve => clock ⟨⟨started, admitted⟩, reserve⟩)] at refused
      cases refused
      exact reason

end AttemptAdmission

/-- What every run of a coordinator establishes. -/
structure Accounted (steps : List (Transition Holder AttemptCall AttemptAnswer))
    (admission : AttemptAdmission)
    : Prop where
  attempts
    : admission.receipt.admittedAttempts ≤ admission.budget.maxHttpAttempts.toNat
  logical
    : admission.logicalRequestsStarted ≤ admission.budget.maxLogicalRequests.toNat
  oneActive : tally AttemptTrace.activeCount admission.issuedAttemptIds ≤ 1
  /-- A rerank is permitted only after some wide attempt was completed by its response. -/
  ordered
    : ∀ step ∈ steps,
        ∀ permit,
          step.output = .permitted (.ok permit)
          → permit.stage = .rerank
          → ∃ (attemptId : String) (trace : AttemptTrace),
              step.before.admission.issuedAttemptIds[attemptId]? = some trace
              ∧ trace.provenance.stage = .wide
              ∧ trace.provenance.outcome = .completed
  ends
    : admission.receipt.completedAttempts + admission.receipt.unknownUsageAttempts
      ≤ admission.receipt.sentAttempts
  sent : admission.receipt.sentAttempts ≤ admission.receipt.admittedAttempts
  /-- The receipt is the one counted from the provenance of every attempt. -/
  receipt : admission.receipt = receiptOf admission.issuedAttemptIds
  finished
    : ∀ step ∈ steps,
        ∀ (attemptId : String) (trace : AttemptTrace),
          step.before.admission.issuedAttemptIds[attemptId]? = some trace
          → trace.state = .finished
          → step.after.admission.issuedAttemptIds[attemptId]? = some trace
  /-- `canAttemptRerank` foretells the admission of a rerank, whenever the clock admits it;
  a yes is never refused for order or budget at all.
  -/
  rerank
    : admission.hasActiveAttempt = false
      → ∀ endpoint now later,
          (admission.canAttemptRerank = true
            → ¬ admission.RefusesByOrderOrBudget .rerank endpoint now later)
          ∧ (admission.ClockAdmits now later
            → (admission.canAttemptRerank = true
              ↔ ¬ admission.RefusesByOrderOrBudget .rerank endpoint now later))

def Holder.fresh (admission : AttemptAdmission) : Holder := { admission, permits := [] }

theorem Holder.Holds.fresh (admission : AttemptAdmission) : (Holder.fresh admission).Holds := by
  intro permit member
  cases member

/-- The invariant of runs: a sound coordinator and permits that name its attempts. -/
structure Holder.Sound (holder : Holder) : Prop where
  admission : holder.admission.Sound
  holds : holder.Holds

/-- Every call keeps the invariant. -/
theorem sound_next (holder : Holder) (call : AttemptCall) (sound : holder.Sound)
    : (attempts.next holder call).1.Sound :=
  have called := called_next sound.holds call
  ⟨called.effect.sound sound.admission, called.holds⟩

/-- `canAttemptRerank` and the refusals of an admission agree in every state. -/
theorem canAttemptRerank_foretells (admission : AttemptAdmission)
    (idle : admission.hasActiveAttempt = false) (endpoint : CanonicalOrigin) (now later : Nat)
    : (admission.canAttemptRerank = true
        → ¬ admission.RefusesByOrderOrBudget .rerank endpoint now later)
      ∧ (admission.ClockAdmits now later
        → (admission.canAttemptRerank = true
          ↔ ¬ admission.RefusesByOrderOrBudget .rerank endpoint now later)) := by
  have foretold (clock : admission.ClockAdmits now later)
      : admission.canAttemptRerank = true
        ↔ ¬ admission.RefusesByOrderOrBudget .rerank endpoint now later := by
    rw [admission.refusesByOrderOrBudget_iff idle clock, Bool.not_eq_false]
  refine ⟨fun can => ?_, foretold⟩
  by_cases clock : admission.ClockAdmits now later
  · exact (foretold clock).mp can
  · exact admission.not_refusesByOrderOrBudget idle clock

/-- Completed and failed attempts were sent, by the life of each attempt. -/
theorem AttemptAdmission.Sound.ends (sound : admission.Sound)
    : admission.receipt.completedAttempts + admission.receipt.unknownUsageAttempts
      ≤ admission.receipt.sentAttempts := by
  rw [sound.receipt]
  change tally AttemptTrace.completedCount _ + tally AttemptTrace.failedCount _
    ≤ tally AttemptTrace.sentCount _
  rw [← tally_weights]
  refine tally_mono ?_
  intro attemptId trace known
  cases sound.coherent attemptId trace known <;>
    simp [AttemptTrace.completedCount, AttemptTrace.failedCount, AttemptTrace.sentCount,
      AttemptTrace.fresh, AttemptTrace.send, AttemptTrace.complete, AttemptTrace.fail,
      AttemptTrace.discard]

/-- Attempt admission: for every budget and every run of calls on a new coordinator, the
ceilings, the order of stages, the counters and the provenance hold together.
-/
theorem attempts_accounted (budget : AttemptBudget) (clock : InvocationDeadline)
    (invocationId : String) (owner : Nat) (calls : List AttemptCall)
    : ∀ admission,
        AttemptAdmission.new budget clock invocationId owner = .ok admission
        → Accounted (attempts.history (.fresh admission) calls)
            (attempts.final (.fresh admission) calls).admission := by
  intro admission created
  have start : (Holder.fresh admission).Sound := ⟨.new created, .fresh admission⟩
  have around {step : Transition Holder AttemptCall AttemptAnswer}
      (member : step ∈ attempts.history (.fresh admission) calls)
      : step.before.Sound ∧ Called step.before step.after step.output := by
    obtain ⟨first, call, later, _, rfl⟩ := attempts.mem_history member
    have sound := attempts.invariant start sound_next first
    exact ⟨sound, called_next sound.holds call⟩
  have sound := (attempts.invariant start sound_next calls).admission
  refine ⟨sound.attempts, sound.logical, sound.active, ?_, sound.ends, ?_, sound.receipt, ?_,
    canAttemptRerank_foretells _⟩
  · intro step member permit permitted rerank
    obtain ⟨before, called⟩ := around member
    exact before.admission.wide (called.permitted permit permitted rerank)
  · rw [sound.receipt]
    exact (counts_le _).1
  · intro step member attemptId trace known done
    exact (around member).2.effect.finished known done

/-- A wide attempt that is sent and answered, and a rerank that is dropped before it is sent.
-/
theorem attempts_accounted_pair
    : ∃ admission,
        AttemptAdmission.new .defaultInvocation .default "inv" 0 = .ok admission
        ∧ Accounted
            (attempts.history (.fresh admission)
              [
                .admitAttempt .wide "https://api" 1 1,
                .recordSent (.issued 0) 2,
                .recordResponse (.issued 0) { inputTokens := 7, outputTokens := 2 } 9,
                .admitAttempt .rerank "https://api" 10 10,
                .recordDiscard (.issued 1) "cancelled" 11
              ])
            (attempts.final (.fresh admission)
              [
                .admitAttempt .wide "https://api" 1 1,
                .recordSent (.issued 0) 2,
                .recordResponse (.issued 0) { inputTokens := 7, outputTokens := 2 } 9,
                .admitAttempt .rerank "https://api" 10 10,
                .recordDiscard (.issued 1) "cancelled" 11
              ]).admission :=
  ⟨_, rfl, attempts_accounted .defaultInvocation .default "inv" 0 _ _ rfl⟩

end SkillRanker.Jev
