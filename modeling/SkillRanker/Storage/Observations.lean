import Mathlib.Data.List.MinMax
import SkillRanker.Library.Machine
import SkillRanker.Storage.Ledger

/-! Observations of loaded skills: a batch with the cursor it was read to, and the attribution of
each observation to the emission before it.
-/

namespace SkillRanker.Storage
open SkillRanker.Library

-- Attribution

/-- Whether an emission is sought for an observation, and before which time. Times are words. -/
inductive ObservationAttribution
  | infer
  | unknown
  | nativeTimed (times : String → Option Nat)
      (words : ∀ observationId time, times observationId = some time → time ≤ u64Max)

def ObservationAttribution.attributionTime (attribution : ObservationAttribution)
    (observation : NewObservation)
    : Option Nat :=
  match attribution with
  | infer => some observation.observedAtUnixMs
  | unknown => none
  | nativeTimed times _ => times observation.observationId

/-- `ORDER BY created_at_unix_ms DESC LIMIT 1`, which is free where times are equal. -/
structure LatestFirst where
  pick : List NewRankingEvent → Option NewRankingEvent
  latest : ∀ rows row, pick rows = some row
    → row ∈ rows ∧ ∀ other ∈ rows, other.createdAtUnixMs ≤ row.createdAtUnixMs
  present : ∀ rows, pick rows = none → rows = []

/-- How long before an observation its emission may be. -/
def attributionWindowMs : Nat := 1800000

def emissionsBefore (ledger : Ledger) (observation : NewObservation) (sourceTime : Nat)
    : List NewRankingEvent :=
  ledger.rankingEvents.rows.filter fun event =>
    event.workspaceRoot = observation.workspaceRoot && event.sessionId = observation.sessionId
      && event.agentBranch = observation.agentBranch
      && (event.exposureState = .emitted || event.exposureState = .acknowledged)
      && (event.createdAtUnixMs : Int) ≤ asI64 sourceTime
      && asI64 (sourceTime - attributionWindowMs) ≤ event.createdAtUnixMs

/-- The event published the skill: a ranking reranked it to a position, an explicit one listed it. -/
def published (ledger : Ledger) (event : NewRankingEvent) (skillId : String) : Bool :=
  ledger.rankingCandidates.rows.any fun candidate =>
    candidate.eventId = event.eventId && candidate.skillId = skillId && !candidate.excluded
      && candidate.rankPosition.isSome
      && ((event.decision = .ranked && candidate.stage = .rerank)
        || (event.decision = .explicit && candidate.stage = .wide))

variable (order : LatestFirst)

/-- The latest emission, if it published the skill. An older one is never taken instead. -/
def inferredEvent (ledger : Ledger) (observation : NewObservation) (sourceTime : Nat)
    : Option String :=
  (order.pick (emissionsBefore ledger observation sourceTime)).bind fun event =>
    if published ledger event observation.skillId then some event.eventId else none

def attributedEvent (attribution : ObservationAttribution) (ledger : Ledger)
    (observation : NewObservation)
    : Option String :=
  match observation.attributedEventId, attribution.attributionTime observation with
  | _, none => none
  | some eventId, some _ => some eventId
  | none, some sourceTime => inferredEvent order ledger observation sourceTime

-- Rows

namespace NewObservation

/-- A stored attempt may become the load that the same observation turned out to be. -/
def upgradedBy (stored observation : NewObservation) : Bool :=
  stored.evidenceState = .attempted && observation.evidenceState = .loaded
    && stored.observationId = observation.observationId
    && stored.workspaceRoot = observation.workspaceRoot
    && stored.sessionId = observation.sessionId
    && stored.agentBranch = observation.agentBranch
    && stored.skillId = observation.skillId
    && stored.observedAtUnixMs ≤ observation.observedAtUnixMs

/-- The evidence of a later observation of the same row. -/
def upgraded (stored observation : NewObservation) : NewObservation :=
  { stored with
    evidenceState := observation.evidenceState
    observedAtUnixMs := observation.observedAtUnixMs }

end NewObservation

def attributed (attribution : ObservationAttribution) (ledger : Ledger)
    (observation : NewObservation)
    : NewObservation :=
  { observation with attributedEventId := attributedEvent order attribution ledger observation }

/-- The insertion of an observation, or the upgrade of the one of the same source event. -/
def writeObservation (attribution : ObservationAttribution) (ledger : Ledger)
    (observation : NewObservation)
    : Except StoreError Ledger := do
  let row := attributed order attribution ledger observation
  ensure row.checks .recordConflict
  match ledger.observations.rows.find? (·.sourceEventKey = row.sourceEventKey) with
  | some stored =>
      if stored.upgradedBy row then
        return { ledger with
          observations := ledger.observations.updateWhere
            (·.sourceEventKey = row.sourceEventKey) (·.upgraded row) fun _ => rfl }
      else return ledger
  | none =>
      ensure (ledger.observations.find? row.observationId = none) .recordConflict
      ensure (∀ eventId ∈ row.attributedEventId, (ledger.rankingEvents.find? eventId).isSome)
        .recordConflict
      return { ledger with observations := ledger.observations.insert row }

def checkCursorGeneration (cursor : SessionCursor) (expectedGeneration : Option Nat)
    (ledger : Ledger)
    : Except StoreError Unit :=
  match expectedGeneration with
  | none => pure ()
  | some expectedGeneration =>
      match ledger.sessionCursors.find? cursor.key with
      | some stored => ensure (stored.transcriptGeneration = expectedGeneration) .recordConflict
      | none => ensure (expectedGeneration = 0) .recordConflict

def writeCursor (cursor : SessionCursor) (ledger : Ledger) : Except StoreError Ledger := do
  ensure cursor.checks .recordConflict
  match ledger.sessionCursors.find? cursor.key with
  | none => return { ledger with sessionCursors := ledger.sessionCursors.insert cursor }
  | some _ =>
      return { ledger with
        sessionCursors := ledger.sessionCursors.updateWhere (·.key = cursor.key)
          (fun stored =>
            { stored with
              transcriptGeneration := cursor.transcriptGeneration
              lastCompleteEventId := cursor.lastCompleteEventId
              lastOffsetBytes := cursor.lastOffsetBytes
              updatedAtUnixMs := cursor.updatedAtUnixMs })
          fun _ => rfl }

-- Batches

structure ObservationBatch where
  observations : List NewObservation
  cursor : SessionCursor
  expectedCursorGeneration : Option Nat
  attribution : ObservationAttribution

def ObservationBatch.body (batch : ObservationBatch) (expected : LedgerStamp) (ledger : Ledger)
    : Except StoreError (Ending Unit) := do
  checkCursorGeneration batch.cursor batch.expectedCursorGeneration ledger
  let ledger ← batch.observations.foldlM (writeObservation order batch.attribution) ledger
  let ledger ← writeCursor batch.cursor ledger
  let ledger ← advanceGeneration expected ledger
  return .commit ledger ()

def recordObservationsWithCursorAttribution (surroundings : Surroundings)
    (batch : ObservationBatch) (expected : LedgerStamp) (ledger : Ledger)
    : Ledger × Except StoreError Unit :=
  mutateStore surroundings expected (pure ()) (batch.body order expected) ledger

def recordObservationsWithCursor (surroundings : Surroundings)
    (observations : List NewObservation) (cursor : SessionCursor)
    (expectedCursorGeneration : Option Nat) (expected : LedgerStamp) (ledger : Ledger)
    : Ledger × Except StoreError Unit :=
  recordObservationsWithCursorAttribution order surroundings
    { observations, cursor, expectedCursorGeneration, attribution := .infer } expected ledger

/-- A batch with what surrounds it and the stamp of its writer. -/
structure ObservationStep where
  surroundings : Surroundings
  expected : LedgerStamp
  batch : ObservationBatch

def observing : Machine Ledger ObservationStep (Except StoreError Unit) where
  next ledger step :=
    recordObservationsWithCursorAttribution order step.surroundings step.batch step.expected
      ledger

end SkillRanker.Storage
