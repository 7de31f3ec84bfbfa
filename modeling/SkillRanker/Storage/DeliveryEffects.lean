import SkillRanker.Library.Machine
import SkillRanker.Storage.Recording

/-! How far an event has got toward its reader: emissions, acknowledgments, and the runs of these
with the deliveries of events.
-/

namespace SkillRanker.Storage
open SkillRanker.Library

-- Emissions and acknowledgments

def setExposure (eventId : String) (state : ExposureState) (ledger : Ledger) : Ledger :=
  { ledger with
    rankingEvents := ledger.rankingEvents.updateWhere (·.eventId = eventId)
      (fun row => { row with exposureState := state }) fun _ => rfl }

/-- The transaction of `record_emission`. -/
def emissionBody (eventId : String) (bytesWritten : Nat) (expected : LedgerStamp)
    (ledger : Ledger)
    : Except StoreError (Ending Bool) := do
  let stored ← require (ledger.rankingEvents.find? eventId) .invalidRecord
  if stored.modeChannel = "shadow" ∧ bytesWritten = 0 then return .discard false
  else if bytesWritten = 0 then return .discard false
  else if stored.exposureState = .emitted ∨ stored.exposureState = .acknowledged then
    return .discard true
  else
    let ledger ← advanceGeneration expected (setExposure eventId .emitted ledger)
    return .commit ledger true

def recordEmission (surroundings : Surroundings) (eventId : String) (bytesWritten : Nat)
    (expected : LedgerStamp) (ledger : Ledger)
    : Ledger × Except StoreError Bool :=
  mutateStore surroundings expected (pure ()) (emissionBody eventId bytesWritten expected) ledger

def setAcknowledged (eventId key : String) (ledger : Ledger) : Ledger :=
  { ledger with
    rankingEvents := ledger.rankingEvents.updateWhere (·.eventId = eventId)
      (fun row =>
        { row with exposureState := .acknowledged, verifiedDeliveryKey := some key })
      fun _ => rfl }

/-- The transaction of `record_acknowledgment`. -/
def acknowledgmentBody (eventId key : String) (expected : LedgerStamp) (ledger : Ledger)
    : Except StoreError (Ending Bool) :=
  match ledger.rankingEvents.rows.find? fun row => row.verifiedDeliveryKey = some key with
  | some other => do
      ensure (other.eventId = eventId) .recordConflict
      return .discard true
  | none => do
      ensure (ledger.rankingEvents.find? eventId).isSome .invalidRecord
      let ledger ← advanceGeneration expected (setAcknowledged eventId key ledger)
      return .commit ledger true

def recordAcknowledgment (surroundings : Surroundings) (eventId key : String)
    (expected : LedgerStamp) (ledger : Ledger)
    : Ledger × Except StoreError Bool :=
  mutateStore surroundings expected
    (ensure (boundedMetadata key 256) .invalidRecord)
    (acknowledgmentBody eventId key expected) ledger

-- Runs

inductive ExposureCall
  | deliver (delivery : Delivery)
  | emit (eventId : String) (bytesWritten : Nat)
  | acknowledge (eventId key : String)

/-- A call with what surrounds it and the stamp of its writer. -/
structure ExposureStep where
  surroundings : Surroundings
  expected : LedgerStamp
  call : ExposureCall

/-- The ledger and its writers: every call is one step, and its answer says whether it took it. -/
def exposureMachine (format : MembersFormat)
    : Machine Ledger ExposureStep (Except StoreError Bool) where
  next ledger step :=
    match step.call with
    | .deliver delivery =>
        let (after, answer) := recordRankingEventWithAttempts format step.surroundings delivery
          step.expected ledger
        (after, answer.map fun _ => true)
    | .emit eventId bytesWritten =>
        recordEmission step.surroundings eventId bytesWritten step.expected ledger
    | .acknowledge eventId key =>
        recordAcknowledgment step.surroundings eventId key step.expected ledger

-- What a delivery, an emission and an acknowledgment leave in the tables

variable {format : MembersFormat} {ledger after : Ledger}

-- Deliveries

def NewRankingEvent.unfinished (stored : NewRankingEvent) : Bool := stored.running || stored.failed

theorem NewRankingEvent.updated_eventId (event stored : NewRankingEvent)
    : (stored.updated event).eventId = stored.eventId := rfl

def writtenEvents (event : NewRankingEvent)
    (events : Table String NewRankingEvent NewRankingEvent.eventId)
    : Table String NewRankingEvent NewRankingEvent.eventId :=
  match events.find? event.eventId with
  | none => events.insert event
  | some stored =>
      if stored.unfinished then
        events.updateWhere (·.eventId = event.eventId) (·.updated event) event.updated_eventId
      else events

structure Delivered (delivery : Delivery) (ledger after : Ledger) : Prop where
  owners : ∀ attempt ∈ delivery.attempts, attempt.ownerEventId = delivery.event.eventId
  named : ∀ candidate ∈ delivery.candidates, candidate.eventId = delivery.event.eventId
  turn : ∀ stored, ledger.rankingEvents.find? delivery.event.eventId = some stored
    → stored.sameTurn delivery.event
  fresh : ledger.rankingEvents.find? delivery.event.eventId = none
    → ∀ row ∈ ledger.rankingEvents.rows,
        row.verifiedDeliveryKey = none
        ∨ row.verifiedDeliveryKey ≠ delivery.event.verifiedDeliveryKey
  events : after.rankingEvents = writtenEvents delivery.event ledger.rankingEvents
  candidates : after.rankingCandidates
    = delivery.candidates.foldl .insert ledger.rankingCandidates
  attempts : ∃ between, between.providerAttempts = ledger.providerAttempts
    ∧ delivery.attempts.foldlM advanceProviderAttempt between = .ok after
  stamp : after.stamp = ledger.stamp

variable {delivery : Delivery}

theorem writeSnapshot_eq (written : writeSnapshot format delivery ledger = .ok after)
    : ∃ rosters, after = { ledger with rosterSnapshots := rosters } := by
  unfold writeSnapshot at written
  split at written
  · cases pure_eq_ok.mp written
    exact ⟨_, rfl⟩
  · simp only [insertSnapshot, bind_eq_ok] at written
    obtain ⟨_, _, _, _, _, _, _, _, _, _, written⟩ := written
    cases pure_eq_ok.mp written
    exact ⟨_, rfl⟩

theorem writeEvent_eq {event : NewRankingEvent} (written : writeEvent event ledger = .ok after)
    : after = { ledger with rankingEvents := writtenEvents event ledger.rankingEvents }
      ∧ (∀ stored, ledger.rankingEvents.find? event.eventId = some stored
        → stored.sameTurn event)
      ∧ (ledger.rankingEvents.find? event.eventId = none
        → ∀ row ∈ ledger.rankingEvents.rows,
            row.verifiedDeliveryKey = none
            ∨ row.verifiedDeliveryKey ≠ event.verifiedDeliveryKey) := by
  unfold writeEvent at written
  unfold writtenEvents
  obtain ⟨_, _, written⟩ := bind_eq_ok.mp written
  cases found : ledger.rankingEvents.find? event.eventId with
  | none =>
      rw [found] at written
      obtain ⟨_, unused, written⟩ := bind_eq_ok.mp written
      cases pure_eq_ok.mp written
      refine ⟨rfl, ?_, fun _ => ensure_eq_ok.mp unused⟩
      intro _ some
      cases some
  | some stored =>
      rw [found] at written
      obtain ⟨_, same, written⟩ := bind_eq_ok.mp written
      have turn : ∀ other, some stored = some other → other.sameTurn event := by
        intro other present
        cases present
        exact ensure_eq_ok.mp same
      refine ⟨?_, turn, nofun⟩
      dsimp only
      unfold NewRankingEvent.unfinished
      split at written
      · next unfinished =>
        cases pure_eq_ok.mp written
        rw [if_pos unfinished]
      · next finished =>
        cases pure_eq_ok.mp written
        rw [if_neg finished]

theorem insertCandidates_eq {candidates : List NewRankingCandidate}
    (written : candidates.foldlM insertCandidate ledger = .ok after)
    : after = { ledger with
        rankingCandidates := candidates.foldl .insert ledger.rankingCandidates } := by
  induction candidates generalizing ledger with
  | nil =>
      cases pure_eq_ok.mp written
      rfl
  | cons candidate rest ih =>
      rw [List.foldlM_cons, insertCandidate] at written
      obtain ⟨between, first, written⟩ := bind_eq_ok.mp written
      obtain ⟨_, _, first⟩ := bind_eq_ok.mp first
      cases pure_eq_ok.mp first
      exact ih written

theorem advanceProviderAttempt_eq {attempt : NewProviderAttempt}
    (written : advanceProviderAttempt ledger attempt = .ok after)
    : ∃ attempts, after = { ledger with providerAttempts := attempts } := by
  unfold advanceProviderAttempt at written
  obtain ⟨_, _, written⟩ := bind_eq_ok.mp written
  split at written
  all_goals
    obtain ⟨_, _, written⟩ := bind_eq_ok.mp written
    cases pure_eq_ok.mp written
    exact ⟨_, rfl⟩

theorem advanceAttempts_eq {attempts : List NewProviderAttempt}
    (written : attempts.foldlM advanceProviderAttempt ledger = .ok after)
    : ∃ rows, after = { ledger with providerAttempts := rows } := by
  induction attempts generalizing ledger with
  | nil =>
      cases pure_eq_ok.mp written
      exact ⟨_, rfl⟩
  | cons attempt rest ih =>
      rw [List.foldlM_cons] at written
      obtain ⟨between, first, written⟩ := bind_eq_ok.mp written
      obtain ⟨_, rfl⟩ := advanceProviderAttempt_eq first
      obtain ⟨rows, rfl⟩ := ih written
      exact ⟨rows, rfl⟩

theorem Delivery.body_commits {ending : Ending Unit}
    (done : delivery.body format ledger = .ok ending)
    : ∃ after, ending = .commit after () := by
  unfold Delivery.body at done
  obtain ⟨_, _, done⟩ := bind_eq_ok.mp done
  obtain ⟨_, _, done⟩ := bind_eq_ok.mp done
  obtain ⟨_, _, done⟩ := bind_eq_ok.mp done
  obtain ⟨_, _, done⟩ := bind_eq_ok.mp done
  obtain ⟨_, _, done⟩ := bind_eq_ok.mp done
  cases pure_eq_ok.mp done
  exact ⟨_, rfl⟩

variable {expected : LedgerStamp}

theorem delivered_of_committed {surroundings : Surroundings} {value : Unit}
    (committed : Committed surroundings expected (delivery.request format)
      (delivery.body format) ledger after value)
    : Delivered delivery ledger after := by
  have asked := committed.request
  unfold Delivery.request at asked
  obtain ⟨_, owners, asked⟩ := bind_eq_ok.mp asked
  obtain ⟨_, named, _⟩ := bind_eq_ok.mp asked
  have done := committed.body
  unfold Delivery.body at done
  obtain ⟨rostered, first, done⟩ := bind_eq_ok.mp done
  obtain ⟨_, _, done⟩ := bind_eq_ok.mp done
  obtain ⟨recorded, second, done⟩ := bind_eq_ok.mp done
  obtain ⟨listed, third, done⟩ := bind_eq_ok.mp done
  obtain ⟨charged, fourth, done⟩ := bind_eq_ok.mp done
  cases pure_eq_ok.mp done
  obtain ⟨rosters, rfl⟩ := writeSnapshot_eq first
  obtain ⟨rfl, turn, fresh⟩ := writeEvent_eq second
  cases insertCandidates_eq third
  obtain ⟨attempts, same⟩ := advanceAttempts_eq fourth
  refine ⟨ensure_eq_ok.mp owners, (ensure_eq_ok.mp named).1, turn, fresh, ?_, ?_,
    ⟨_, ?_, fourth⟩, ?_⟩
  all_goals first | rfl | (rw [same])

-- Emissions and acknowledgments

theorem advanceGeneration_eq (advanced : advanceGeneration expected ledger = .ok after)
    : after = { ledger with
        stamp := { ledger.stamp with dataGeneration := expected.dataGeneration + 1 } } := by
  unfold advanceGeneration at advanced
  obtain ⟨next, counted, advanced⟩ := bind_eq_ok.mp advanced
  obtain ⟨_, _, advanced⟩ := bind_eq_ok.mp advanced
  cases pure_eq_ok.mp advanced
  have value := require_eq_ok.mp counted
  unfold checkedAdd at value
  split at value
  · rw [← Option.some.inj value]
  · cases value

/-- A committed emission moves an event that is neither emitted nor acknowledged. -/
theorem emission_effect {eventId : String} {bytesWritten : Nat} {value : Bool}
    (done : emissionBody eventId bytesWritten expected ledger = .ok (.commit after value))
    : (∃ stored, ledger.rankingEvents.find? eventId = some stored
        ∧ stored.exposureState ≠ .emitted ∧ stored.exposureState ≠ .acknowledged)
      ∧ after = { setExposure eventId .emitted ledger with
          stamp := { ledger.stamp with dataGeneration := expected.dataGeneration + 1 } } := by
  unfold emissionBody at done
  obtain ⟨stored, found, done⟩ := bind_eq_ok.mp done
  split at done
  · cases done
  · split at done
    · cases done
    · split at done
      · cases done
      · next fresh =>
        obtain ⟨moved, advanced, done⟩ := bind_eq_ok.mp done
        cases pure_eq_ok.mp done
        exact ⟨⟨stored, require_eq_ok.mp found, not_or.mp fresh⟩, advanceGeneration_eq advanced⟩

/-- A committed acknowledgment gives a stored event a delivery key that no event has. -/
theorem acknowledgment_effect {eventId key : String} {value : Bool}
    (done : acknowledgmentBody eventId key expected ledger = .ok (.commit after value))
    : (∀ row ∈ ledger.rankingEvents.rows, row.verifiedDeliveryKey ≠ some key)
      ∧ (ledger.rankingEvents.find? eventId).isSome
      ∧ after = { setAcknowledged eventId key ledger with
          stamp := { ledger.stamp with dataGeneration := expected.dataGeneration + 1 } } := by
  unfold acknowledgmentBody at done
  split at done
  · obtain ⟨_, _, done⟩ := bind_eq_ok.mp done
    cases pure_eq_ok.mp done
  · next unused =>
    obtain ⟨_, present, done⟩ := bind_eq_ok.mp done
    obtain ⟨moved, advanced, done⟩ := bind_eq_ok.mp done
    cases pure_eq_ok.mp done
    refine ⟨?_, ensure_eq_ok.mp present, advanceGeneration_eq advanced⟩
    intro row mem
    simpa using List.find?_eq_none.mp unused row mem

-- Steps

/-- The step gets to its transaction, holds the current stamp, and what it commits lasts. -/
def ExposureStep.lands (ledger : Ledger) (step : ExposureStep) : Bool :=
  step.surroundings.opening = none ∧ ledger.stamp = step.expected
    ∧ step.surroundings.commit ≠ .failed false

/-- What a call may leave where it changes the ledger. -/
inductive ExposureEffect (ledger : Ledger) : ExposureCall → Ledger → Prop
  | delivered {delivery : Delivery} {after : Ledger} (written : Delivered delivery ledger after)
    : ExposureEffect ledger (.deliver delivery) after
  | emitted {eventId : String} {bytesWritten : Nat} {stored : NewRankingEvent} {generation : Nat}
      (found : ledger.rankingEvents.find? eventId = some stored)
      (early : stored.exposureState ≠ .emitted ∧ stored.exposureState ≠ .acknowledged)
    : ExposureEffect ledger (.emit eventId bytesWritten)
        { setExposure eventId .emitted ledger with
          stamp := { ledger.stamp with dataGeneration := generation } }
  | acknowledged {eventId key : String} {stored : NewRankingEvent} {generation : Nat}
      (unused : ∀ row ∈ ledger.rankingEvents.rows, row.verifiedDeliveryKey ≠ some key)
      (found : ledger.rankingEvents.find? eventId = some stored)
    : ExposureEffect ledger (.acknowledge eventId key)
        { setAcknowledged eventId key ledger with
          stamp := { ledger.stamp with dataGeneration := generation } }

/-- A step changes nothing, or it lands and has its effect. -/
theorem exposure_step (format : MembersFormat) (ledger : Ledger) (step : ExposureStep)
    : ((exposureMachine format).next ledger step).1 = ledger
      ∨ (step.lands ledger
        ∧ ExposureEffect ledger step.call ((exposureMachine format).next ledger step).1) := by
  obtain ⟨surroundings, expected, call⟩ := step
  have lands {Failure α : Type} {request : Except Failure Unit}
      {body : Ledger → Except Failure (Ending α)} {after : Ledger} {value : α}
      (committed : Committed surroundings expected request body ledger after value)
      : (ExposureStep.mk surroundings expected call).lands ledger := by
    simp [ExposureStep.lands, committed.opened, committed.stamp, committed.lasting]
  cases call with
  | deliver delivery =>
      have taken : ((exposureMachine format).next ledger
          ⟨surroundings, expected, .deliver delivery⟩).1
          = (recordRankingEventWithAttempts format surroundings delivery expected ledger).1 := rfl
      rw [taken, recordRankingEventWithAttempts]
      rcases mutate_cases surroundings id id expected (delivery.request format)
        (delivery.body format) ledger with same | ⟨after, value, moved, committed⟩
      · exact Or.inl same
      · rw [moved]
        exact Or.inr ⟨lands committed, .delivered (delivered_of_committed committed)⟩
  | emit eventId bytesWritten =>
      have taken : ((exposureMachine format).next ledger
          ⟨surroundings, expected, .emit eventId bytesWritten⟩).1
          = (recordEmission surroundings eventId bytesWritten expected ledger).1 := rfl
      rw [taken, recordEmission]
      rcases mutate_cases surroundings id id expected (pure ())
        (emissionBody eventId bytesWritten expected) ledger with
          same | ⟨after, value, moved, committed⟩
      · exact Or.inl same
      · obtain ⟨⟨stored, found, early⟩, rfl⟩ := emission_effect committed.body
        rw [moved]
        exact Or.inr ⟨lands committed, .emitted found early⟩
  | acknowledge eventId key =>
      have taken : ((exposureMachine format).next ledger
          ⟨surroundings, expected, .acknowledge eventId key⟩).1
          = (recordAcknowledgment surroundings eventId key expected ledger).1 := rfl
      rw [taken, recordAcknowledgment]
      rcases mutate_cases surroundings id id expected
        (ensure (boundedMetadata key 256) .invalidRecord)
        (acknowledgmentBody eventId key expected) ledger with
          same | ⟨after, value, moved, committed⟩
      · exact Or.inl same
      · obtain ⟨unused, present, rfl⟩ := acknowledgment_effect committed.body
        obtain ⟨stored, found⟩ := Option.isSome_iff_exists.mp present
        rw [moved]
        exact Or.inr ⟨lands committed, .acknowledged unused found⟩

end SkillRanker.Storage
