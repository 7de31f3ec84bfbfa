import SkillRanker.Jev.AttemptEffects
import SkillRanker.Library.Totals

/-! The receipt as a fold over the attempts, and the invariant that every operation of the
coordinator keeps.
-/

namespace SkillRanker.Jev

open SkillRanker.Library
open Std

variable {old : AttemptTrace} {admission before : AttemptAdmission}

-- The life of one attempt

/-- The traces an attempt can have: admitted, then discarded or sent, and once sent
completed or failed.
-/
inductive AttemptTrace.Coherent : AttemptTrace → Prop
  | admitted {attemptId stage admittedAt} : Coherent (.fresh attemptId stage admittedAt)
  | sent {attemptId stage admittedAt sentAt}
    : Coherent ((AttemptTrace.fresh attemptId stage admittedAt).send sentAt)
  | completed {attemptId stage admittedAt sentAt settledAt usage}
    : Coherent
        (((AttemptTrace.fresh attemptId stage admittedAt).send sentAt).complete settledAt usage)
  | failed {attemptId stage admittedAt sentAt settledAt failure}
    : Coherent
        (((AttemptTrace.fresh attemptId stage admittedAt).send sentAt).fail settledAt failure)
  | discarded {attemptId stage admittedAt settledAt}
    : Coherent ((AttemptTrace.fresh attemptId stage admittedAt).discard settledAt)

namespace AttemptTrace

variable (trace : AttemptTrace)

def activeCount : Nat := if trace.state = .finished then 0 else 1

def sentCount : Nat := if trace.provenance.sentAt.isSome then 1 else 0

def completedCount : Nat := if trace.provenance.outcome = .completed then 1 else 0

def failedCount : Nat := if trace.provenance.outcome = .failed then 1 else 0

def inputTokens : Nat := (trace.provenance.usage.map Usage.inputTokens).getD 0

def outputTokens : Nat := (trace.provenance.usage.map Usage.outputTokens).getD 0

end AttemptTrace

-- The receipt of a map of attempts

abbrev Attempts := TreeMap String AttemptTrace compare

def receiptOf (attempts : Attempts) : CostReceipt :=
  {
    admittedAttempts := tally (fun _ => 1) attempts
    sentAttempts := tally AttemptTrace.sentCount attempts
    completedAttempts := tally AttemptTrace.completedCount attempts
    knownUsage :=
      {
        inputTokens := tally AttemptTrace.inputTokens attempts
        outputTokens := tally AttemptTrace.outputTokens attempts
      }
    unknownUsageAttempts := tally AttemptTrace.failedCount attempts
    hasUnknownUsage := 0 < tally AttemptTrace.failedCount attempts
    cacheServed := false
  }

theorem counts_le (attempts : Attempts)
    : tally AttemptTrace.sentCount attempts ≤ tally (fun _ => 1) attempts
      ∧ tally AttemptTrace.completedCount attempts ≤ tally (fun _ => 1) attempts
      ∧ tally AttemptTrace.failedCount attempts ≤ tally (fun _ => 1) attempts := by
  refine ⟨tally_mono ?_, tally_mono ?_, tally_mono ?_⟩ <;> intro _ trace _
  · unfold AttemptTrace.sentCount
    split <;> omega
  · unfold AttemptTrace.completedCount
    split <;> omega
  · unfold AttemptTrace.failedCount
    split <;> omega

/-- A new attempt is admitted and counts nowhere else. -/
theorem receiptOf_fresh {attempts : Attempts} {attemptId : String} (stage : RankingStage)
    (now : Nat) (absent : attempts[attemptId]? = none)
    : receiptOf (attempts.insert attemptId (.fresh attemptId stage now))
      = {
          receiptOf attempts with
          admittedAttempts := (receiptOf attempts).admittedAttempts + 1
        } := by
  simp only [receiptOf, tally_add absent]
  rfl

structure Replaced (before after : CostReceipt) (old new : AttemptTrace) : Prop where
  admitted : after.admittedAttempts = before.admittedAttempts
  sent : after.sentAttempts + old.sentCount = before.sentAttempts + new.sentCount
  completed
    : after.completedAttempts + old.completedCount
      = before.completedAttempts + new.completedCount
  input
    : after.knownUsage.inputTokens + old.inputTokens
      = before.knownUsage.inputTokens + new.inputTokens
  output
    : after.knownUsage.outputTokens + old.outputTokens
      = before.knownUsage.outputTokens + new.outputTokens
  failed
    : after.unknownUsageAttempts + old.failedCount
      = before.unknownUsageAttempts + new.failedCount

theorem receiptOf_replaced {attempts : Attempts} {attemptId : String}
    (known : attempts[attemptId]? = some old) (new : AttemptTrace)
    : Replaced (receiptOf attempts) (receiptOf (attempts.insert attemptId new)) old new := by
  have exchanged : tally (fun _ => 1) (attempts.insert attemptId new) + 1
      = tally (fun _ => 1) attempts + 1 :=
    tally_replace known new
  exact ⟨Nat.add_right_cancel exchanged, tally_replace known new, tally_replace known new,
    tally_replace known new, tally_replace known new, tally_replace known new⟩

section

variable {attempts : Attempts} {attemptId id : String} {stage : RankingStage}
  {admittedAt sentAt : Nat} (now : Nat)

theorem receiptOf_send (known : attempts[attemptId]? = some (.fresh id stage admittedAt))
    : receiptOf (attempts.insert attemptId ((AttemptTrace.fresh id stage admittedAt).send now))
      = {
          receiptOf attempts with
          sentAttempts := (receiptOf attempts).sentAttempts + 1
        } :=
  let replaced := receiptOf_replaced known _
  CostReceipt.ext replaced.admitted replaced.sent replaced.completed
    (Usage.ext replaced.input replaced.output) replaced.failed
    (congrArg (fun failed => decide (0 < failed)) replaced.failed) rfl

theorem receiptOf_discard (known : attempts[attemptId]? = some (.fresh id stage admittedAt))
    : receiptOf
          (attempts.insert attemptId ((AttemptTrace.fresh id stage admittedAt).discard now))
      = receiptOf attempts :=
  let replaced := receiptOf_replaced known _
  CostReceipt.ext replaced.admitted replaced.sent replaced.completed
    (Usage.ext replaced.input replaced.output) replaced.failed
    (congrArg (fun failed => decide (0 < failed)) replaced.failed) rfl

theorem receiptOf_fail (failure : AttemptFailure)
    (known
      : attempts[attemptId]? = some ((AttemptTrace.fresh id stage admittedAt).send sentAt))
    : receiptOf
          (attempts.insert attemptId
            (((AttemptTrace.fresh id stage admittedAt).send sentAt).fail now failure))
      = {
          receiptOf attempts with
          unknownUsageAttempts := (receiptOf attempts).unknownUsageAttempts + 1
          hasUnknownUsage := true
        } :=
  let replaced := receiptOf_replaced known _
  CostReceipt.ext replaced.admitted (Nat.add_right_cancel replaced.sent) replaced.completed
    (Usage.ext replaced.input replaced.output) replaced.failed
    (congrArg (fun failed => decide (0 < failed)) replaced.failed) rfl

theorem receiptOf_complete (usage : Usage)
    (known
      : attempts[attemptId]? = some ((AttemptTrace.fresh id stage admittedAt).send sentAt))
    : receiptOf
          (attempts.insert attemptId
            (((AttemptTrace.fresh id stage admittedAt).send sentAt).complete now usage))
      = {
          receiptOf attempts with
          completedAttempts := (receiptOf attempts).completedAttempts + 1
          knownUsage :=
            {
              inputTokens := (receiptOf attempts).knownUsage.inputTokens + usage.inputTokens
              outputTokens := (receiptOf attempts).knownUsage.outputTokens + usage.outputTokens
            }
        } :=
  let replaced := receiptOf_replaced known _
  CostReceipt.ext replaced.admitted (Nat.add_right_cancel replaced.sent) replaced.completed
    (Usage.ext replaced.input replaced.output) replaced.failed
    (congrArg (fun failed => decide (0 < failed)) replaced.failed) rfl

end

-- The invariant

/-- The invariant of the coordinator. -/
structure AttemptAdmission.Sound (admission : AttemptAdmission) : Prop where
  coherent
    : ∀ (attemptId : String) (trace : AttemptTrace),
        admission.issuedAttemptIds[attemptId]? = some trace → trace.Coherent
  receipt : admission.receipt = receiptOf admission.issuedAttemptIds
  known
    : admission.receipt.knownUsage.inputTokens + admission.receipt.knownUsage.outputTokens
      ≤ u64Max
  attempts
    : admission.receipt.admittedAttempts ≤ admission.budget.maxHttpAttempts.toNat
  logical
    : admission.logicalRequestsStarted ≤ admission.budget.maxLogicalRequests.toNat
  active : tally AttemptTrace.activeCount admission.issuedAttemptIds ≤ 1
  wide
    : admission.wideCompleted = true
      → ∃ (attemptId : String) (trace : AttemptTrace),
          admission.issuedAttemptIds[attemptId]? = some trace
          ∧ trace.provenance.stage = .wide
          ∧ trace.provenance.outcome = .completed

namespace AttemptAdmission

theorem Sound.new {budget : AttemptBudget} {clock : InvocationDeadline} {invocationId : String}
    {owner : Nat} (created : AttemptAdmission.new budget clock invocationId owner = .ok admission)
    : admission.Sound := by
  unfold AttemptAdmission.new at created
  split at created
  · cases created
  · cases created
    refine ⟨?_, rfl, Nat.zero_le _, Nat.zero_le _, Nat.zero_le _, Nat.zero_le _, ?_⟩
    · intro attemptId trace known
      simp at known
    · intro completed
      cases completed

variable {attemptId : String} {trace : AttemptTrace}

/-- The value under a key after writing one. -/
theorem getElem_insert {attempts : Attempts} {other : String} {found : AttemptTrace}
    (known : (attempts.insert attemptId trace)[other]? = some found)
    : other = attemptId ∧ found = trace ∨ other ≠ attemptId ∧ attempts[other]? = some found := by
  rw [TreeMap.getElem?_insert] at known
  split at known
  case isTrue same =>
    cases known
    exact Or.inl ⟨(LawfulEqCmp.eq_of_compare same).symm, rfl⟩
  case isFalse differs =>
    refine Or.inr ⟨?_, known⟩
    rintro rfl
    exact differs (ReflCmp.compare_self)

/-- Other keys keep their value. -/
theorem getElem_insert_ne {attempts : Attempts} {other : String} (differs : other ≠ attemptId)
    : (attempts.insert attemptId trace)[other]? = attempts[other]? := by
  rw [TreeMap.getElem?_insert, if_neg]
  intro same
  exact differs (LawfulEqCmp.eq_of_compare same).symm

/-- Unfinished attempts are counted by the checks of an admission. -/
theorem idle_of_hasActiveAttempt (idle : admission.hasActiveAttempt = false)
    : tally AttemptTrace.activeCount admission.issuedAttemptIds = 0 := by
  rw [tally_eq_zero]
  intro attemptId trace known
  have member := TreeMap.mem_toList_iff_getElem?_eq_some.mpr known
  have finished : trace.state = .finished := by
    simpa using List.any_eq_false.mp idle _ member
  simp [AttemptTrace.activeCount, finished]

/-- A finished wide attempt stays finished when another attempt is written. -/
theorem wide_kept (sound : admission.Sound)
    (unfinished
      : ∀ old, admission.issuedAttemptIds[attemptId]? = some old → old.state ≠ .finished)
    (completed : admission.wideCompleted = true)
    : ∃ (found : String) (wide : AttemptTrace),
        (admission.issuedAttemptIds.insert attemptId trace)[found]? = some wide
        ∧ wide.provenance.stage = .wide
        ∧ wide.provenance.outcome = .completed := by
  obtain ⟨found, wide, known, stage, outcome⟩ := sound.wide completed
  refine ⟨found, wide, ?_, stage, outcome⟩
  rw [getElem_insert_ne]
  · exact known
  · rintro rfl
    have coherent := sound.coherent found wide known
    have open_ := unfinished wide known
    cases coherent with
    | admitted => cases outcome
    | sent => cases outcome
    | completed => exact open_ rfl
    | failed => cases outcome
    | discarded => cases outcome

variable {now : Nat}

/-- An admitted attempt keeps the invariant. -/
theorem Sound.register {stage : RankingStage} {later : Nat} {slot : Slot} (sound : admission.Sound)
    (found : admission.slot stage now later = .ok slot)
    : (admission.register stage slot).Sound := by
  have admitted := admission.slot_admitted found
  have room := admitted.attempts
  have bounded : admission.budget.maxHttpAttempts.toNat ≤ u32Max := by
    have word := admission.budget.maxHttpAttempts.toNat_lt
    unfold u32Max
    omega
  have sequence : slot.sequence = admission.receipt.admittedAttempts + 1 := by
    rw [admitted.sequence, saturatingAddU32]
    omega
  have fresh := receiptOf_fresh stage slot.now admitted.absent
  refine ⟨?_, ?_, sound.known, ?_, ?_, ?_, ?_⟩
  · intro attemptId trace known
    rcases getElem_insert known with ⟨_, rfl⟩ | ⟨_, old⟩
    · exact .admitted
    · exact sound.coherent attemptId trace old
  · change { admission.receipt with admittedAttempts := slot.sequence } = _
    rw [sequence, sound.receipt]
    exact fresh.symm
  · change slot.sequence ≤ admission.budget.maxHttpAttempts.toNat
    omega
  · change (if _ then _ else _) ≤ _
    split
    case isTrue started => exact admitted.logical started
    case isFalse => exact sound.logical
  · change tally _ (admission.issuedAttemptIds.insert _ (AttemptTrace.fresh _ _ _)) ≤ 1
    rw [tally_add admitted.absent, idle_of_hasActiveAttempt admitted.idle]
    exact Nat.le_refl _
  · intro completed
    refine wide_kept sound ?_ completed
    intro old known
    rw [admitted.absent] at known
    cases known

variable {after : AttemptAdmission}

/-- What a write to one unfinished attempt must establish to keep the invariant. -/
theorem Sound.written (sound : before.Sound) (new : AttemptTrace)
    (known : before.issuedAttemptIds[attemptId]? = some old) (state : old.state ≠ .finished)
    (coherent : new.Coherent)
    (written : after.issuedAttemptIds = before.issuedAttemptIds.insert attemptId new)
    (budget : after.budget = before.budget)
    (logical : after.logicalRequestsStarted = before.logicalRequestsStarted)
    (receipt : after.receipt = receiptOf after.issuedAttemptIds)
    (usage
      : after.receipt.knownUsage.inputTokens + after.receipt.knownUsage.outputTokens ≤ u64Max)
    (wide
      : after.wideCompleted = true
        → before.wideCompleted = true
          ∨ new.provenance.stage = .wide ∧ new.provenance.outcome = .completed)
    : after.Sound := by
  have replaced := receiptOf_replaced known new
  refine ⟨?_, receipt, usage, ?_, ?_, ?_, ?_⟩
  · intro other trace found
    rw [written] at found
    rcases getElem_insert found with ⟨_, rfl⟩ | ⟨_, kept⟩
    · exact coherent
    · exact sound.coherent other trace kept
  · rw [receipt, written, budget, replaced.admitted, ← sound.receipt]
    exact sound.attempts
  · rw [logical, budget]
    exact sound.logical
  · have exchanged : tally AttemptTrace.activeCount
          (before.issuedAttemptIds.insert attemptId new) + old.activeCount
        = tally AttemptTrace.activeCount before.issuedAttemptIds + new.activeCount :=
      tally_replace known new
    have one : old.activeCount = 1 := by simp [AttemptTrace.activeCount, state]
    have most : new.activeCount ≤ 1 := by
      unfold AttemptTrace.activeCount
      split <;> omega
    have active := sound.active
    rw [written]
    omega
  · intro completed
    rw [written]
    rcases wide completed with earlier | ⟨stage, outcome⟩
    · refine wide_kept sound ?_ earlier
      intro found same
      rw [known] at same
      cases same
      exact state
    · exact ⟨attemptId, new, TreeMap.getElem?_insert_self, stage, outcome⟩

/-- No count leaves the `u32` range while the budget bounds the attempts. -/
theorem Sound.counts (sound : admission.Sound) (new : AttemptTrace)
    (known : admission.issuedAttemptIds[attemptId]? = some old)
    : let after := receiptOf (admission.issuedAttemptIds.insert attemptId new)
      after.sentAttempts ≤ u32Max
        ∧ after.completedAttempts ≤ u32Max
        ∧ after.unknownUsageAttempts ≤ u32Max := by
  have bounded : admission.budget.maxHttpAttempts.toNat ≤ u32Max := by
    have word := admission.budget.maxHttpAttempts.toNat_lt
    unfold u32Max
    omega
  have replaced := (receiptOf_replaced known new).admitted
  obtain ⟨sent, completed, failed⟩ := counts_le (admission.issuedAttemptIds.insert attemptId new)
  have attempts := sound.attempts
  rw [sound.receipt, ← replaced] at attempts
  have most := Nat.le_trans attempts bounded
  exact ⟨Nat.le_trans sent most, Nat.le_trans completed most, Nat.le_trans failed most⟩

theorem usageTotal_isSome {usage : Usage} (fits : (admission.usageTotal usage).isSome)
    : admission.receipt.knownUsage.inputTokens + usage.inputTokens
        + (admission.receipt.knownUsage.outputTokens + usage.outputTokens)
      ≤ u64Max := by
  by_contra beyond
  have none : admission.usageTotal usage = none := by
    unfold usageTotal checkedAdd
    split
    · split
      · simp only [Option.bind_eq_bind, Option.bind_some]
        rw [if_neg beyond]
      · rfl
    · rfl
  rw [none] at fits
  cases fits

section

variable (sound : before.Sound)
include sound

/-- Sending an admitted attempt keeps the invariant. -/
theorem Sound.sent (known : before.issuedAttemptIds[attemptId]? = some trace)
    (state : trace.state = .admitted)
    : Sound
        {
          before.write attemptId (trace.send now) with
          receipt :=
            {
              before.receipt with
              sentAttempts := saturatingAddU32 before.receipt.sentAttempts 1
            }
        } := by
  have coherent := sound.coherent attemptId trace known
  cases coherent <;> cases state
  case admitted id stage admittedAt =>
  have fold := receiptOf_send now known
  have room := (sound.counts ((AttemptTrace.fresh id stage admittedAt).send now) known).1
  refine sound.written ((AttemptTrace.fresh id stage admittedAt).send now) known
    (by simp [AttemptTrace.fresh]) .sent rfl rfl rfl ?_ sound.known Or.inl
  change _ = receiptOf (before.issuedAttemptIds.insert attemptId _)
  rw [fold] at room ⊢
  rw [sound.receipt, saturatingAddU32_eq room]

/-- Discarding an admitted attempt keeps the invariant. -/
theorem Sound.discarded (known : before.issuedAttemptIds[attemptId]? = some trace)
    (state : trace.state = .admitted)
    : Sound (before.write attemptId (trace.discard now)) := by
  have coherent := sound.coherent attemptId trace known
  cases coherent <;> cases state
  case admitted id stage admittedAt =>
  refine sound.written ((AttemptTrace.fresh id stage admittedAt).discard now) known
    (by simp [AttemptTrace.fresh]) .discarded rfl rfl rfl ?_ sound.known Or.inl
  exact sound.receipt.trans (receiptOf_discard now known).symm

/-- A failure of a sent attempt keeps the invariant. -/
theorem Sound.failed {failure : AttemptFailure}
    (known : before.issuedAttemptIds[attemptId]? = some trace) (state : trace.state = .sent)
    : Sound
        {
          before.write attemptId (trace.fail now failure) with
          receipt := before.receipt.recordTerminalError
        } := by
  have coherent := sound.coherent attemptId trace known
  cases coherent <;> cases state
  case sent id stage admittedAt sentAt =>
  have fold := receiptOf_fail now failure known
  have room :=
    (sound.counts (((AttemptTrace.fresh id stage admittedAt).send sentAt).fail now failure)
      known).2.2
  refine sound.written
    (((AttemptTrace.fresh id stage admittedAt).send sentAt).fail now failure) known
    (by simp [AttemptTrace.send]) .failed rfl rfl rfl ?_ sound.known Or.inl
  change before.receipt.recordTerminalError
    = receiptOf (before.issuedAttemptIds.insert attemptId _)
  rw [fold] at room ⊢
  rw [sound.receipt, CostReceipt.recordTerminalError, saturatingAddU32_eq room]

/-- A response to a sent attempt keeps the invariant, when the counters can hold it. -/
theorem Sound.completed {usage : Usage} (known : before.issuedAttemptIds[attemptId]? = some trace)
    (state : trace.state = .sent) (fits : (before.usageTotal usage).isSome)
    : Sound
        {
          before.write attemptId (trace.complete now usage) with
          receipt := before.receipt.recordSuccess usage
          wideCompleted := before.wideCompleted || decide (trace.provenance.stage = .wide)
          currentStageCompleted := true
        } := by
  have coherent := sound.coherent attemptId trace known
  cases coherent <;> cases state
  case sent id stage admittedAt sentAt =>
  have fold := receiptOf_complete now usage known
  have room :=
    (sound.counts (((AttemptTrace.fresh id stage admittedAt).send sentAt).complete now usage)
      known).2.1
  have total := usageTotal_isSome fits
  have receipt : before.receipt.recordSuccess usage
      = receiptOf
          (before.issuedAttemptIds.insert attemptId
            (((AttemptTrace.fresh id stage admittedAt).send sentAt).complete now usage)) := by
    rw [fold] at room ⊢
    rw [sound.receipt] at total ⊢
    rw [CostReceipt.recordSuccess, saturatingAddU32_eq room, saturatingAdd_eq (by omega),
      saturatingAdd_eq (by omega)]
  refine sound.written
    (((AttemptTrace.fresh id stage admittedAt).send sentAt).complete now usage) known
    (by simp [AttemptTrace.send]) .completed rfl rfl rfl receipt ?_ ?_
  · change (before.receipt.recordSuccess usage).knownUsage.inputTokens
        + (before.receipt.recordSuccess usage).knownUsage.outputTokens ≤ u64Max
    simp only [CostReceipt.recordSuccess]
    rw [saturatingAdd_eq (by omega), saturatingAdd_eq (by omega)]
    exact total
  · intro completed
    rcases Bool.or_eq_true_iff.mp completed with earlier | wide
    · exact Or.inl earlier
    · exact Or.inr ⟨of_decide_eq_true wide, rfl⟩

end

theorem Effect.sound (effect : Effect before after) (sound : before.Sound)
    : after.Sound := by
  cases effect with
  | kept => exact sound
  | admitted found => exact sound.register found
  | sent known state => exact sound.sent known state
  | completed known state fits => exact sound.completed known state fits
  | failed known state => exact sound.failed known state
  | discarded known state => exact sound.discarded known state

end AttemptAdmission

end SkillRanker.Jev
