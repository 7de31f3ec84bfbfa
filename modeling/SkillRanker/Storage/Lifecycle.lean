import SkillRanker.Storage.DeliveryEffects

/-! The life of a stored event: what duplicate deliveries, emissions and acknowledgments can still
change of it, in any order.
-/

namespace SkillRanker.Storage
open SkillRanker.Library

variable {format : MembersFormat} {ledger after : Ledger}
variable {sought : String} {row : NewRankingEvent}

-- One step

inductive EventChange (stored : NewRankingEvent) : NewRankingEvent → Prop
  | same : EventChange stored stored
  | updated (event : NewRankingEvent) (unfinished : stored.unfinished)
    : EventChange stored (stored.updated event)
  | emitted (early : stored.exposureState ≠ .emitted ∧ stored.exposureState ≠ .acknowledged)
    : EventChange stored { stored with exposureState := .emitted }
  | acknowledged (key : String)
    : EventChange stored
        { stored with exposureState := .acknowledged, verifiedDeliveryKey := some key }

variable {events : Table String NewRankingEvent NewRankingEvent.eventId}

theorem find?_update_event (found : events.find? sought = some row) (eventId : String)
    (change : NewRankingEvent → NewRankingEvent) (keeps : ∀ row, (change row).eventId = row.eventId)
    : (events.updateWhere (·.eventId = eventId) change keeps).find? sought
      = some (if sought = eventId then change row else row) := by
  rw [events.find?_updateWhere_of_some _ change keeps found, Table.key_of_find? found]
  simp only [decide_eq_true_eq]

/-- A delivery leaves a stored row as it is or, if it is unfinished, gives it its outcome. -/
theorem writtenEvents_row {event : NewRankingEvent} (found : events.find? sought = some row)
    : ∃ later, (writtenEvents event events).find? sought = some later
      ∧ EventChange row later := by
  unfold writtenEvents
  split
  · exact ⟨row, events.find?_insert_of_some found, .same⟩
  · next stored present =>
    split
    · next unfinished =>
      refine ⟨_, find?_update_event found event.eventId (·.updated event) fun _ => rfl, ?_⟩
      split
      · next own =>
        subst own
        rw [found] at present
        cases present
        exact .updated event unfinished
      · exact .same
    · exact ⟨row, found, .same⟩

variable {call : ExposureCall}

/-- A call leaves every stored event, changed at most as `EventChange` says. -/
theorem ExposureEffect.event (effect : ExposureEffect ledger call after)
    (found : ledger.rankingEvents.find? sought = some row)
    : ∃ later, after.rankingEvents.find? sought = some later ∧ EventChange row later := by
  cases effect with
  | @delivered delivery _ written =>
      rw [written.events]
      exact writtenEvents_row found
  | @emitted eventId bytesWritten stored generation present early =>
      refine ⟨_, find?_update_event found eventId
        (fun row => { row with exposureState := .emitted }) fun _ => rfl, ?_⟩
      split
      · next own =>
        subst own
        rw [found] at present
        cases present
        exact .emitted early
      · exact .same
  | @acknowledged eventId key stored generation unused present =>
      refine ⟨_, find?_update_event found eventId (fun row =>
        { row with exposureState := .acknowledged, verifiedDeliveryKey := some key })
        fun _ => rfl, ?_⟩
      split
      · exact .acknowledged key
      · exact .same

theorem step_event (step : ExposureStep) (found : ledger.rankingEvents.find? sought = some row)
    : ∃ later, ((exposureMachine format).next ledger step).1.rankingEvents.find? sought = some later
      ∧ EventChange row later := by
  rcases exposure_step format ledger step with same | ⟨_, effect⟩
  · rw [same]
    exact ⟨row, found, .same⟩
  · exact effect.event found

-- Finished events

def ExposureState.progress : ExposureState → Nat
  | generated => 0
  | unknown => 1
  | prepared => 1
  | emitted => 2
  | acknowledged => 3

/-- A finished row has kept its outcome, and its exposure is the same or further. -/
structure Settled (row later : NewRankingEvent) : Prop where
  finished : later.unfinished = false
  decision : later.decision = row.decision
  reason : later.reason = row.reason
  elapsedMs : later.elapsedMs = row.elapsedMs
  snapshotId : later.snapshotId = row.snapshotId
  exposure : later.exposureState = row.exposureState
    ∨ row.exposureState.progress < later.exposureState.progress

theorem Settled.refl (finished : row.unfinished = false)
    : Settled row row :=
  ⟨finished, rfl, rfl, rfl, rfl, Or.inl rfl⟩

theorem ExposureState.forward_acknowledged (state : ExposureState)
    : acknowledged = state ∨ state.progress < acknowledged.progress := by
  cases state <;> decide

variable {stored : NewRankingEvent}

/-- A change of a finished row leaves it finished, with its outcome. -/
theorem Settled.change {later : NewRankingEvent} (settled : Settled row stored)
    (change : EventChange stored later)
    : Settled row later := by
  cases change with
  | same => exact settled
  | updated event unfinished =>
      rw [settled.finished] at unfinished
      cases unfinished
  | emitted early =>
      refine ⟨rfl, settled.decision, settled.reason, settled.elapsedMs, settled.snapshotId,
        Or.inr ?_⟩
      have before : stored.exposureState.progress < ExposureState.emitted.progress := by
        obtain ⟨notEmitted, notAcknowledged⟩ := early
        cases state : stored.exposureState
        case emitted => exact absurd state notEmitted
        case acknowledged => exact absurd state notAcknowledged
        all_goals decide
      rcases settled.exposure with same | further
      · rwa [← same]
      · exact further.trans before
  | acknowledged key =>
      exact ⟨rfl, settled.decision, settled.reason, settled.elapsedMs, settled.snapshotId,
        ExposureState.forward_acknowledged row.exposureState⟩

-- Attempts

/-- A later row of an attempt has the owner, and what was recorded of its cost stays recorded. -/
structure AttemptKept (row later : NewProviderAttempt) : Prop where
  ownerEventId : later.ownerEventId = row.ownerEventId
  sentAtUnixMs : row.sentAtUnixMs.isSome → later.sentAtUnixMs.isSome
  inputTokens : row.inputTokens.isSome → later.inputTokens.isSome
  outputTokens : row.outputTokens.isSome → later.outputTokens.isSome

theorem AttemptKept.refl (row : NewProviderAttempt) : AttemptKept row row :=
  ⟨rfl, id, id, id⟩

theorem AttemptKept.trans {row between later : NewProviderAttempt}
    (first : AttemptKept row between) (second : AttemptKept between later)
    : AttemptKept row later :=
  ⟨second.ownerEventId.trans first.ownerEventId, second.sentAtUnixMs ∘ first.sentAtUnixMs,
    second.inputTokens ∘ first.inputTokens, second.outputTokens ∘ first.outputTokens⟩

/-- A coalesced column keeps what is recorded. -/
theorem isSome_or_of_right {α : Type} {fresh known : Option α} (recorded : known.isSome)
    : (fresh.or known).isSome := by
  cases fresh with
  | none => exact recorded
  | some value => rfl

theorem attemptKept_advanced (row attempt : NewProviderAttempt)
    : AttemptKept row (row.advanced attempt) :=
  ⟨rfl, isSome_or_of_right, isSome_or_of_right, isSome_or_of_right⟩

def AttemptsKept (ledger after : Ledger) : Prop :=
  ∀ attemptId row, ledger.providerAttempts.find? attemptId = some row
    → ∃ later, after.providerAttempts.find? attemptId = some later ∧ AttemptKept row later

theorem AttemptsKept.of_eq (same : after.providerAttempts = ledger.providerAttempts)
    : AttemptsKept ledger after :=
  fun _ row found => ⟨row, same ▸ found, .refl row⟩

theorem AttemptsKept.trans {between : Ledger} (first : AttemptsKept ledger between)
    (second : AttemptsKept between after)
    : AttemptsKept ledger after := by
  intro attemptId row found
  obtain ⟨middle, present, kept⟩ := first attemptId row found
  obtain ⟨later, last, keptLater⟩ := second attemptId middle present
  exact ⟨later, last, kept.trans keptLater⟩

theorem advanceProviderAttempt_keeps {attempt : NewProviderAttempt}
    (written : advanceProviderAttempt ledger attempt = .ok after)
    : AttemptsKept ledger after := by
  unfold advanceProviderAttempt at written
  obtain ⟨_, _, written⟩ := bind_eq_ok.mp written
  intro attemptId row found
  split at written
  · obtain ⟨_, _, written⟩ := bind_eq_ok.mp written
    cases pure_eq_ok.mp written
    exact ⟨row, ledger.providerAttempts.find?_insert_of_some found, .refl row⟩
  · obtain ⟨_, _, written⟩ := bind_eq_ok.mp written
    cases pure_eq_ok.mp written
    refine ⟨_, ledger.providerAttempts.find?_updateWhere_of_some (·.attemptId = attempt.attemptId)
      (·.advanced attempt) (fun _ => rfl) found, ?_⟩
    split
    · exact attemptKept_advanced row attempt
    · exact .refl row

theorem advanceAttempts_keeps {attempts : List NewProviderAttempt}
    (written : attempts.foldlM advanceProviderAttempt ledger = .ok after)
    : AttemptsKept ledger after := by
  induction attempts generalizing ledger with
  | nil =>
      cases pure_eq_ok.mp written
      exact .of_eq rfl
  | cons attempt rest ih =>
      rw [List.foldlM_cons] at written
      obtain ⟨between, first, written⟩ := bind_eq_ok.mp written
      exact (advanceProviderAttempt_keeps first).trans (ih written)

theorem ExposureEffect.attempts (effect : ExposureEffect ledger call after)
    : AttemptsKept ledger after := by
  cases effect with
  | delivered written =>
      obtain ⟨between, same, advanced⟩ := written.attempts
      exact (AttemptsKept.of_eq same).trans (advanceAttempts_keeps advanced)
  | emitted => exact .of_eq rfl
  | acknowledged => exact .of_eq rfl

theorem step_attempts (step : ExposureStep)
    : AttemptsKept ledger ((exposureMachine format).next ledger step).1 := by
  rcases exposure_step format ledger step with same | ⟨_, effect⟩
  · rw [same]
    exact .of_eq rfl
  · exact effect.attempts

-- Runs

def StoredSettled (eventId : String) (row : NewRankingEvent) (ledger : Ledger) : Prop :=
  ∃ stored, ledger.rankingEvents.find? eventId = some stored ∧ Settled row stored

/-- A finished event is settled for the rest of the run, since every step keeps it so. -/
theorem run_settled {eventId : String} (found : ledger.rankingEvents.find? eventId = some row)
    (finished : row.unfinished = false) (steps : List ExposureStep)
    : StoredSettled eventId row ((exposureMachine format).final ledger steps) := by
  have kept : ∀ state step, StoredSettled eventId row state
      → StoredSettled eventId row ((exposureMachine format).next state step).1 := by
    rintro state step ⟨stored, present, settled⟩
    obtain ⟨later, last, change⟩ := step_event step present
    exact ⟨later, last, settled.change change⟩
  exact (exposureMachine format).invariant ⟨row, found, .refl finished⟩ kept steps

theorem run_attempts (steps : List ExposureStep)
    : AttemptsKept ledger ((exposureMachine format).final ledger steps) := by
  have kept : ∀ state step, AttemptsKept ledger state
      → AttemptsKept ledger ((exposureMachine format).next state step).1 :=
    fun _ step before => before.trans (step_attempts step)
  exact (exposureMachine format).invariant (.of_eq rfl) kept steps

/-- A delivery for another turn than the stored one fails and changes nothing. -/
theorem foreign_delivery_refused {delivery : Delivery}
    (found : ledger.rankingEvents.find? delivery.event.eventId = some stored)
    (foreign : ¬ stored.sameTurn delivery.event) (surroundings : Surroundings)
    (expected : LedgerStamp)
    : ∃ error,
        recordRankingEventWithAttempts format surroundings delivery expected ledger
          = (ledger, .error error) := by
  have uncommitted : ∀ after value,
      ¬ Committed surroundings expected (delivery.request format) (delivery.body format)
        ledger after value :=
    fun _ _ committed => foreign ((delivered_of_committed committed).turn stored found)
  have undiscarded : ∀ value, delivery.body format ledger ≠ .ok (.discard value) := by
    intro value done
    obtain ⟨_, commits⟩ := Delivery.body_commits done
    cases commits
  have unchanged : (recordRankingEventWithAttempts format surroundings delivery expected
      ledger).1 = ledger := by
    rcases mutate_cases surroundings id id expected (delivery.request format)
      (delivery.body format) ledger with same | ⟨after, value, _, committed⟩
    · exact same
    · exact absurd committed (uncommitted after value)
  have unanswered : ∀ value, (recordRankingEventWithAttempts format surroundings delivery expected
      ledger).2 ≠ .ok value := by
    intro value answered
    rcases (mutate_ok answered).2 with ⟨_, _, discarded⟩ | ⟨after, _, committed⟩
    · exact undiscarded value discarded
    · exact uncommitted after value committed
  obtain ⟨error, failed⟩ := eq_error_of_not_ok unanswered
  exact ⟨error, Prod.ext unchanged failed⟩

/-- The life of the stored events along any run: what finishes is settled, what is of another turn
is refused, and no attempt is lost.
-/
theorem exposure_lifecycle (start : Ledger) (steps later : List ExposureStep)
    : (∀ eventId row,
        ((exposureMachine format).final start steps).rankingEvents.find? eventId = some row
        → row.unfinished = false
        → ∃ stored,
            ((exposureMachine format).final start (steps ++ later)).rankingEvents.find? eventId
              = some stored
            ∧ Settled row stored)
      ∧ (∀ delivery stored,
          ((exposureMachine format).final start steps).rankingEvents.find?
              delivery.event.eventId = some stored
          → ¬ stored.sameTurn delivery.event
          → ∀ surroundings expected, ∃ error,
              recordRankingEventWithAttempts format surroundings delivery expected
                  ((exposureMachine format).final start steps)
                = ((exposureMachine format).final start steps, .error error))
      ∧ AttemptsKept ((exposureMachine format).final start steps)
          ((exposureMachine format).final start (steps ++ later)) := by
  rw [Machine.final_append]
  refine ⟨?_, ?_, run_attempts later⟩
  · intro eventId row found finished
    exact run_settled found finished later
  · intro delivery stored found foreign surroundings expected
    exact foreign_delivery_refused found foreign surroundings expected

end SkillRanker.Storage
