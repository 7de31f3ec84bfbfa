import SkillRanker.Storage.Ledger

/-! The record of a ranking: its roster, its event, its candidates and its paid attempts, written in
one transaction.
-/

namespace SkillRanker.Storage
open SkillRanker.Library

-- Rosters

def maxSnapshotMetadataBytes : Nat := 2 * 1024 * 1024

def maxSnapshotMembers : Nat := 10000

/-- How the members of a roster are written. Decoding refuses texts above the limit of bytes. -/
structure MembersFormat where
  decode : String → Option (List SnapshotMember)
  encode : List SnapshotMember → String

/-- The checks that `validated_snapshot` makes of one member. -/
def SnapshotMember.valid (member : SnapshotMember) : Bool :=
  boundedMetadata member.skillId 256
    && member.invocationName.all (boundedMetadata · 1024)
    && member.contentHash.all (boundedMetadata · 256)
    && (!member.eligible || (member.invocationName.isSome && member.contentHash.isSome))
    && boundedMetadata member.source 256
    && member.exclusionReason.all fun reason =>
      boundedMetadata reason 256
        && reason.toList.all fun char => char.isAlphanum || "-_.".toList.contains char

variable (format : MembersFormat)

def validatedSnapshot (snapshot : NewRosterSnapshot) : Except StoreError String := do
  ensure (boundedMetadata snapshot.snapshotId 256 ∧ boundedMetadata snapshot.workspaceRoot 4096
    ∧ boundedMetadata snapshot.adapter 256 ∧ snapshot.totalCandidates ≤ maxSnapshotMembers
    ∧ snapshot.eligibleCandidates ≤ snapshot.totalCandidates
    ∧ fitsColumn snapshot.createdAtUnixMs) .invalidRecord
  let members ← require (format.decode snapshot.membersJson) .invalidRecord
  ensure (members.length ≤ maxSnapshotMembers) .invalidRecord
  ensure ((∀ member ∈ members, member.valid) ∧ (members.map (·.skillId)).Nodup) .invalidRecord
  let count := members.length
  let eligible := (members.filter (·.eligible)).length
  ensure (count ≤ snapshot.totalCandidates ∧ eligible ≤ snapshot.eligibleCandidates
    ∧ count - eligible ≤ snapshot.totalCandidates - snapshot.eligibleCandidates
    ∧ (snapshot.membershipCoverage = .complete
      → count = snapshot.totalCandidates ∧ eligible = snapshot.eligibleCandidates)) .invalidRecord
  let encoded := format.encode (members.mergeSort fun first later => first.skillId ≤ later.skillId)
  ensure (encoded.utf8ByteSize ≤ maxSnapshotMetadataBytes) .invalidRecord
  return encoded

def insertSnapshot (snapshot : NewRosterSnapshot) (membersJson : String) (ledger : Ledger)
    : Except StoreError Ledger := do
  let rosters := ledger.rosterSnapshots.insert { snapshot with membersJson }
  let stored ← require (rosters.find? snapshot.snapshotId) .corrupt
  ensure (stored.workspaceRoot = snapshot.workspaceRoot ∧ stored.adapter = snapshot.adapter
    ∧ stored.totalCandidates = snapshot.totalCandidates
    ∧ stored.eligibleCandidates = snapshot.eligibleCandidates
    ∧ stored.membershipCoverage = snapshot.membershipCoverage) .recordConflict
  let members ← validatedSnapshot format stored
  ensure (members = membersJson) .recordConflict
  return { ledger with rosterSnapshots := rosters }

def checkEventSnapshot (event : NewRankingEvent) (ledger : Ledger) : Except StoreError Unit :=
  match event.snapshotId with
  | none => pure ()
  | some snapshotId => do
      let stored ← require (ledger.rosterSnapshots.find? snapshotId) .invalidRecord
      ensure (stored.workspaceRoot = event.workspaceRoot) .invalidRecord
      let _ ← validatedSnapshot format stored

-- Events

namespace NewRankingEvent

/-- An invocation has written itself down and has not finished. -/
def running (stored : NewRankingEvent) : Bool := stored.exposureState = .generated

def failed (stored : NewRankingEvent) : Bool :=
  stored.exposureState = .prepared ∧ stored.decision = .unavailable

/-- The outcome of another delivery of the same event. -/
def updated (stored event : NewRankingEvent) : NewRankingEvent :=
  { stored with
    decision := event.decision
    reason := event.reason
    exposureState := event.exposureState
    elapsedMs := event.elapsedMs
    inputTokens := event.inputTokens
    outputTokens := event.outputTokens
    snapshotId := event.snapshotId }

def sameTurn (stored event : NewRankingEvent) : Bool :=
  stored.workspaceRoot = event.workspaceRoot ∧ stored.sessionId = event.sessionId
    ∧ stored.agentBranch = event.agentBranch

end NewRankingEvent

/-- The insertion of the event, or what a repeat of it does to the stored row.
The checks of the row come before the conflict with a stored one, and that one before the
uniqueness of the delivery key.
-/
def writeEvent (event : NewRankingEvent) (ledger : Ledger) : Except StoreError Ledger := do
  ensure event.checks .recordConflict
  match ledger.rankingEvents.find? event.eventId with
  | none =>
      ensure (∀ row ∈ ledger.rankingEvents.rows,
        row.verifiedDeliveryKey = none ∨ row.verifiedDeliveryKey ≠ event.verifiedDeliveryKey)
        .recordConflict
      return { ledger with rankingEvents := ledger.rankingEvents.insert event }
  | some stored =>
      ensure (stored.sameTurn event) .recordConflict
      if stored.running || stored.failed then
        return { ledger with
          rankingEvents := ledger.rankingEvents.updateWhere (·.eventId = event.eventId)
            (·.updated event) fun _ => rfl }
      else return ledger

def insertCandidate (ledger : Ledger) (candidate : NewRankingCandidate)
    : Except StoreError Ledger := do
  ensure candidate.checks .recordConflict
  return { ledger with rankingCandidates := ledger.rankingCandidates.insert candidate }

-- Attempts

namespace NewProviderAttempt

def sameAttempt (stored attempt : NewProviderAttempt) : Bool :=
  stored.ownerEventId = attempt.ownerEventId ∧ stored.stage = attempt.stage
    ∧ stored.requestFingerprint = attempt.requestFingerprint
    ∧ stored.admittedAtUnixMs = attempt.admittedAtUnixMs

/-- A later write of the same attempt: what it does not know stays. -/
def advanced (stored attempt : NewProviderAttempt) : NewProviderAttempt :=
  { stored with
    status := attempt.status
    sentAtUnixMs := attempt.sentAtUnixMs.or stored.sentAtUnixMs
    completedAtUnixMs := attempt.completedAtUnixMs.or stored.completedAtUnixMs
    inputTokens := attempt.inputTokens.or stored.inputTokens
    outputTokens := attempt.outputTokens.or stored.outputTokens
    httpStatus := attempt.httpStatus.or stored.httpStatus
    errorKind := attempt.errorKind.or stored.errorKind }

end NewProviderAttempt

def advanceProviderAttempt (ledger : Ledger) (attempt : NewProviderAttempt)
    : Except StoreError Ledger := do
  ensure attempt.checks .recordConflict
  match ledger.providerAttempts.find? attempt.attemptId with
  | none =>
      ensure (ledger.rankingEvents.find? attempt.ownerEventId).isSome .recordConflict
      return { ledger with providerAttempts := ledger.providerAttempts.insert attempt }
  | some stored =>
      ensure (stored.sameAttempt attempt) .recordConflict
      return { ledger with
        providerAttempts := ledger.providerAttempts.updateWhere
          (·.attemptId = attempt.attemptId) (·.advanced attempt) fun _ => rfl }

-- The record

structure Delivery where
  event : NewRankingEvent
  candidates : List NewRankingCandidate
  snapshot : Option NewRosterSnapshot
  attempts : List NewProviderAttempt

/-- The checks of a record before its transaction. -/
def Delivery.request (delivery : Delivery) : Except StoreError Unit := do
  ensure (∀ attempt ∈ delivery.attempts, attempt.ownerEventId = delivery.event.eventId)
    .invalidRecord
  ensure ((∀ candidate ∈ delivery.candidates, candidate.eventId = delivery.event.eventId)
    ∧ ∀ snapshot ∈ delivery.snapshot, delivery.event.snapshotId = some snapshot.snapshotId
      ∧ snapshot.workspaceRoot = delivery.event.workspaceRoot) .invalidRecord
  match delivery.snapshot with
  | none => pure ()
  | some snapshot => do
      let _ ← validatedSnapshot format snapshot

def writeSnapshot (delivery : Delivery) (ledger : Ledger) : Except StoreError Ledger :=
  match delivery.snapshot with
  | none => pure ledger
  | some snapshot => do
      let members ← validatedSnapshot format snapshot
      insertSnapshot format snapshot members ledger

def Delivery.body (delivery : Delivery) (ledger : Ledger) : Except StoreError (Ending Unit) := do
  let ledger ← writeSnapshot format delivery ledger
  checkEventSnapshot format delivery.event ledger
  let ledger ← writeEvent delivery.event ledger
  let ledger ← delivery.candidates.foldlM insertCandidate ledger
  let ledger ← delivery.attempts.foldlM advanceProviderAttempt ledger
  return .commit ledger ()

def recordRankingEventWithAttempts (surroundings : Surroundings) (delivery : Delivery)
    (expected : LedgerStamp) (ledger : Ledger)
    : Ledger × Except StoreError Unit :=
  mutateStore surroundings expected (delivery.request format) (delivery.body format) ledger

end SkillRanker.Storage
