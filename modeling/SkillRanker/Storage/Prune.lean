import SkillRanker.Storage.Cutoffs
import SkillRanker.Storage.DeliveryEffects

/-! The retention of the ledger: what a prune with a cutoff counts and removes, and the debt that is
reported between prunes.
-/

namespace SkillRanker.Storage
open SkillRanker.Library

-- What is old

/-- `created_at_unix_ms < ?1` -/
def NewRankingEvent.before (cutoff : Int) (event : NewRankingEvent) : Bool :=
  event.createdAtUnixMs < cutoff

/-- `IN (SELECT event_id FROM ranking_events WHERE created_at_unix_ms < ?1)` -/
def Ledger.expired (ledger : Ledger) (cutoff : Int) (eventId : String) : Bool :=
  ledger.rankingEvents.rows.any fun event => event.before cutoff && event.eventId = eventId

def Ledger.expiredObservation (ledger : Ledger) (cutoff : Int) (observation : NewObservation)
    : Bool :=
  match observation.attributedEventId with
  | some eventId => ledger.expired cutoff eventId
  | none => observation.observedAtUnixMs < cutoff

/-- `IN (SELECT snapshot_id FROM ranking_events WHERE snapshot_id IS NOT NULL)` -/
def Ledger.cites (ledger : Ledger) (snapshotId : String) : Bool :=
  ledger.rankingEvents.rows.any fun event => event.snapshotId = some snapshotId

def Ledger.citesSince (ledger : Ledger) (cutoff : Int) (snapshotId : String) : Bool :=
  ledger.rankingEvents.rows.any fun event =>
    event.snapshotId = some snapshotId && !event.before cutoff

def Ledger.citedBefore (ledger : Ledger) (cutoff : Int) (snapshotId : String) : Bool :=
  ledger.rankingEvents.rows.any fun event =>
    event.snapshotId = some snapshotId && event.before cutoff

-- Counts

structure PruneCounts where
  events : Nat
  candidates : Nat
  observations : Nat
  judgments : Nat
  providerAttempts : Nat
  snapshots : Nat
  sharedSnapshotsPreserved : Nat
deriving DecidableEq, Repr

def pruneCounts (cutoff : Int) (ledger : Ledger) : PruneCounts where
  events := ledger.rankingEvents.countWhere (·.before cutoff)
  candidates := ledger.rankingCandidates.countWhere fun row => ledger.expired cutoff row.eventId
  observations := ledger.observations.countWhere (ledger.expiredObservation cutoff)
  judgments := ledger.judgments.countWhere fun row => ledger.expired cutoff row.attributedEventId
  providerAttempts :=
    ledger.providerAttempts.countWhere fun row => ledger.expired cutoff row.ownerEventId
  snapshots :=
    ledger.rosterSnapshots.countWhere fun row =>
      row.createdAtUnixMs < cutoff && !ledger.citesSince cutoff row.snapshotId
  sharedSnapshotsPreserved :=
    let since := ledger.rankingEvents.rows.filter fun event => !event.before cutoff
    ((since.filterMap (·.snapshotId)).filter (ledger.citedBefore cutoff)).dedup.length

structure PrunePreview where
  cutoffUnixMs : Int
  cutoffIso : String
  counts : PruneCounts
  requiresApply : Bool
deriving DecidableEq, Repr

def prunePreview (cutoff : Int) (ledger : Ledger) : PrunePreview where
  cutoffUnixMs := cutoff
  cutoffIso := formatUnixMs cutoff
  counts := pruneCounts cutoff ledger
  requiresApply := true

-- Removal

def deleteJudgments (cutoff : Int) (ledger : Ledger) : Ledger :=
  { ledger with
    judgments := ledger.judgments.deleteWhere fun row => ledger.expired cutoff row.attributedEventId }

def deleteObservations (cutoff : Int) (ledger : Ledger) : Ledger :=
  { ledger with
    observations := ledger.observations.deleteWhere (ledger.expiredObservation cutoff) }

def deleteAttempts (cutoff : Int) (ledger : Ledger) : Ledger :=
  { ledger with
    providerAttempts :=
      ledger.providerAttempts.deleteWhere fun row => ledger.expired cutoff row.ownerEventId }

def deleteCandidates (cutoff : Int) (ledger : Ledger) : Ledger :=
  { ledger with
    rankingCandidates :=
      ledger.rankingCandidates.deleteWhere fun row => ledger.expired cutoff row.eventId }

/-- The removal of events. Attempts and judgments of an event restrict it, its candidates go with it,
and its observations lose it.
-/
def deleteEvents (cutoff : Int) (ledger : Ledger) : Except StoreError Ledger := do
  let gone := ledger.expired cutoff
  ensure (!ledger.providerAttempts.rows.any fun row => gone row.ownerEventId) .recordConflict
  ensure (!ledger.judgments.rows.any fun row => gone row.attributedEventId) .recordConflict
  return {
    ledger with
    rankingEvents := ledger.rankingEvents.deleteWhere (·.before cutoff)
    rankingCandidates := ledger.rankingCandidates.deleteWhere fun row => gone row.eventId
    observations :=
      ledger.observations.updateWhere (·.attributedEventId.any gone)
        (fun row => { row with attributedEventId := none }) fun _ => rfl }

def deleteSnapshots (cutoff : Int) (ledger : Ledger) : Except StoreError Ledger := do
  let gone := fun row : NewRosterSnapshot =>
    row.createdAtUnixMs < cutoff && !ledger.cites row.snapshotId
  ensure (!ledger.rosterSnapshots.rows.any fun row => gone row && ledger.cites row.snapshotId)
    .recordConflict
  return { ledger with rosterSnapshots := ledger.rosterSnapshots.deleteWhere gone }

def deleteExpired (cutoff : Int) (ledger : Ledger) : Except StoreError Ledger := do
  let events ←
    deleteEvents cutoff
      (deleteCandidates cutoff
        (deleteAttempts cutoff (deleteObservations cutoff (deleteJudgments cutoff ledger))))
  deleteSnapshots cutoff events

def removeExpired (cutoff : Int) (counts : PruneCounts) (ledger : Ledger)
    : Except StoreError Ledger :=
  if 0 < counts.events ∨ 0 < counts.observations ∨ 0 < counts.snapshots then
    deleteExpired cutoff ledger
  else .ok ledger

structure PruneReport where
  cutoffUnixMs : Int
  cutoffIso : String
  counts : PruneCounts
  affectedProvenance : String
deriving DecidableEq, Repr

def pruneBody (cutoff : Int) (expected : LedgerStamp) (ledger : Ledger)
    : Except StoreError (Ending PruneReport) := do
  let counts := pruneCounts cutoff ledger
  let pruned ← removeExpired cutoff counts ledger
  let after ← advanceGeneration expected pruned
  return .commit after {
    cutoffUnixMs := cutoff
    cutoffIso := formatUnixMs cutoff
    counts
    affectedProvenance := "ordinary-retention-prune" }

def pruneApply (surroundings : Surroundings) (expected : LedgerStamp) (cutoff : Int)
    (ledger : Ledger)
    : Ledger × Except StoreError PruneReport :=
  mutateStore surroundings expected (.ok ()) (pruneBody cutoff expected) ledger

-- Debt

def defaultRetentionMs : Int := 30 * 24 * 60 * 60 * 1000

structure CleanupDebt where
  expiredEvents : Nat
  unreferencedSnapshots : Nat
  expiredObservations : Nat
  expiredJudgments : Nat
  freelistBytes : Nat
  hasDebt : Bool
deriving DecidableEq, Repr

def cleanupDebt (freelistBytes : Nat) (asOfUnixMs : Int) (ledger : Ledger) : CleanupDebt :=
  let cutoff := saturatingSub64 asOfUnixMs defaultRetentionMs
  let expiredEvents := ledger.rankingEvents.countWhere (·.before cutoff)
  let unreferencedSnapshots :=
    ledger.rosterSnapshots.countWhere fun row => !ledger.cites row.snapshotId
  let expiredObservations := ledger.observations.countWhere (ledger.expiredObservation cutoff)
  let expiredJudgments :=
    ledger.judgments.countWhere fun row =>
      ledger.expired cutoff row.attributedEventId || row.createdAtUnixMs < cutoff
  {
    expiredEvents
    unreferencedSnapshots
    expiredObservations
    expiredJudgments
    freelistBytes
    hasDebt :=
      0 < expiredEvents || 0 < unreferencedSnapshots || 0 < expiredObservations
        || 0 < expiredJudgments || 1024 * 1024 < freelistBytes }

-- What a prune leaves

/-- The references between the tables are to rows that are there. -/
structure Ledger.ForeignKeys (ledger : Ledger) : Prop where
  snapshots
    : ∀ event ∈ ledger.rankingEvents.rows, ∀ snapshotId, event.snapshotId = some snapshotId
      → ∃ row ∈ ledger.rosterSnapshots.rows, row.snapshotId = snapshotId
  candidates
    : ∀ row ∈ ledger.rankingCandidates.rows,
      ∃ event ∈ ledger.rankingEvents.rows, event.eventId = row.eventId
  attempts
    : ∀ row ∈ ledger.providerAttempts.rows,
      ∃ event ∈ ledger.rankingEvents.rows, event.eventId = row.ownerEventId
  observations
    : ∀ row ∈ ledger.observations.rows, ∀ eventId, row.attributedEventId = some eventId
      → ∃ event ∈ ledger.rankingEvents.rows, event.eventId = eventId
  judgments
    : ∀ row ∈ ledger.judgments.rows,
      ∃ event ∈ ledger.rankingEvents.rows, event.eventId = row.attributedEventId

/-- Every table has lost what is old, and nothing else. -/
structure Pruned (cutoff : Int) (ledger after : Ledger) : Prop where
  events : after.rankingEvents = ledger.rankingEvents.deleteWhere (·.before cutoff)
  candidates
    : after.rankingCandidates
      = ledger.rankingCandidates.deleteWhere fun row => ledger.expired cutoff row.eventId
  attempts
    : after.providerAttempts
      = ledger.providerAttempts.deleteWhere fun row => ledger.expired cutoff row.ownerEventId
  observations
    : after.observations = ledger.observations.deleteWhere (ledger.expiredObservation cutoff)
  judgments
    : after.judgments
      = ledger.judgments.deleteWhere fun row => ledger.expired cutoff row.attributedEventId
  snapshots
    : after.rosterSnapshots
      = ledger.rosterSnapshots.deleteWhere fun row =>
        row.createdAtUnixMs < cutoff && !after.cites row.snapshotId
  cursors : after.sessionCursors = ledger.sessionCursors
  proposals : after.feedbackProposals = ledger.feedbackProposals
  calibrations : after.calibrations = ledger.calibrations

variable {cutoff : Int} {ledger after : Ledger}

theorem Ledger.expired_iff {eventId : String}
    : ledger.expired cutoff eventId = true
      ↔ ∃ event ∈ ledger.rankingEvents.rows, event.before cutoff = true
        ∧ event.eventId = eventId := by
  simp [Ledger.expired]

theorem Ledger.cites_iff {snapshotId : String}
    : ledger.cites snapshotId = true
      ↔ ∃ event ∈ ledger.rankingEvents.rows, event.snapshotId = some snapshotId := by
  simp [Ledger.cites]

theorem expired_of_no_events
    (none : ∀ event ∈ ledger.rankingEvents.rows, event.before cutoff = false) (eventId : String)
    : ledger.expired cutoff eventId = false := by
  rw [Bool.eq_false_iff]
  intro old
  obtain ⟨event, mem, before, _⟩ := Ledger.expired_iff.mp old
  rw [none event mem] at before
  cases before

/-- An event is told by its identity: an old one is not among those that are kept. -/
theorem expired_of_mem {event : NewRankingEvent} (mem : event ∈ ledger.rankingEvents.rows)
    : ledger.expired cutoff event.eventId = event.before cutoff := by
  rw [Bool.eq_iff_iff, Ledger.expired_iff]
  constructor
  · rintro ⟨other, otherMem, before, same⟩
    have found := Table.find?_of_mem otherMem
    rw [same, Table.find?_of_mem mem] at found
    obtain rfl := Option.some.inj found
    exact before
  · intro before
    exact ⟨event, mem, before, rfl⟩

/-- The snapshots that the events left cite are those cited from the cutoff on. -/
theorem cites_of_events
    (events : after.rankingEvents = ledger.rankingEvents.deleteWhere (·.before cutoff))
    (snapshotId : String)
    : after.cites snapshotId = ledger.citesSince cutoff snapshotId := by
  have left (event : NewRankingEvent)
      : event ∈ after.rankingEvents.rows
        ↔ event ∈ ledger.rankingEvents.rows ∧ event.before cutoff = false := by
    rw [events]
    exact Table.mem_deleteWhere
  rw [Bool.eq_iff_iff, Ledger.cites_iff]
  unfold Ledger.citesSince
  rw [List.any_eq_true]
  constructor
  · rintro ⟨event, mem, cited⟩
    obtain ⟨mem, recent⟩ := (left event).mp mem
    exact ⟨event, mem, by simp [cited, recent]⟩
  · rintro ⟨event, mem, cited⟩
    simp only [Bool.and_eq_true, decide_eq_true_eq, Bool.not_eq_true'] at cited
    exact ⟨event, (left event).mpr ⟨mem, cited.2⟩, cited.1⟩

/-- Without attempts and judgments of old events these are removed, with their candidates. -/
theorem deleteEvents_eq
    (attempts : ∀ row ∈ ledger.providerAttempts.rows, ledger.expired cutoff row.ownerEventId = false)
    (judgments
      : ∀ row ∈ ledger.judgments.rows, ledger.expired cutoff row.attributedEventId = false)
    (candidates : ∀ row ∈ ledger.rankingCandidates.rows, ledger.expired cutoff row.eventId = false)
    (observations
      : ∀ row ∈ ledger.observations.rows, ledger.expiredObservation cutoff row = false)
    : deleteEvents cutoff ledger
      = .ok { ledger with
          rankingEvents := ledger.rankingEvents.deleteWhere (·.before cutoff) } := by
  have free : (ledger.providerAttempts.rows.any fun row => ledger.expired cutoff row.ownerEventId)
      = false := List.any_eq_false.mpr fun row mem => by rw [attempts row mem]; exact Bool.false_ne_true
  have unjudged
      : (ledger.judgments.rows.any fun row => ledger.expired cutoff row.attributedEventId)
        = false := List.any_eq_false.mpr fun row mem => by rw [judgments row mem]; exact Bool.false_ne_true
  have kept (row : NewObservation) (mem : row ∈ ledger.observations.rows)
      : row.attributedEventId.any (ledger.expired cutoff) = false := by
    have current := observations row mem
    unfold Ledger.expiredObservation at current
    cases attributed : row.attributedEventId with
    | none => rfl
    | some eventId =>
        rw [attributed] at current
        exact current
  unfold deleteEvents
  dsimp only
  rw [free, unjudged, Table.deleteWhere_eq_self candidates, Table.updateWhere_eq_self kept]
  rfl

theorem deleteSnapshots_eq (cutoff : Int) (ledger : Ledger)
    : deleteSnapshots cutoff ledger
      = .ok { ledger with
          rosterSnapshots :=
            ledger.rosterSnapshots.deleteWhere fun row =>
              row.createdAtUnixMs < cutoff && !ledger.cites row.snapshotId } := by
  have free
      : (ledger.rosterSnapshots.rows.any fun row =>
          (row.createdAtUnixMs < cutoff && !ledger.cites row.snapshotId)
            && ledger.cites row.snapshotId)
        = false := by
    refine List.any_eq_false.mpr fun row _ => ?_
    cases ledger.cites row.snapshotId <;> simp
  unfold deleteSnapshots
  dsimp only
  rw [free]
  rfl

/-- The removals of a prune are never refused, and take what is old from every table. -/
theorem deleteExpired_pruned (cutoff : Int) (ledger : Ledger)
    : ∃ after, deleteExpired cutoff ledger = .ok after ∧ Pruned cutoff ledger after
      ∧ after.stamp = ledger.stamp := by
  -- the removals before that of the events leave the events as they are
  obtain ⟨before, beforeIs⟩
      : ∃ before, before
        = deleteCandidates cutoff
            (deleteAttempts cutoff (deleteObservations cutoff (deleteJudgments cutoff ledger))) :=
    ⟨_, rfl⟩
  have events : before.rankingEvents = ledger.rankingEvents := by rw [beforeIs]; rfl
  have expired (eventId : String) : before.expired cutoff eventId = ledger.expired cutoff eventId := by
    unfold Ledger.expired
    rw [events]
  have eventsGone := @deleteEvents_eq cutoff before
    (fun row mem => by
      rw [beforeIs] at mem
      rw [expired]
      exact (Table.mem_deleteWhere.mp mem).2)
    (fun row mem => by
      rw [beforeIs] at mem
      rw [expired]
      exact (Table.mem_deleteWhere.mp mem).2)
    (fun row mem => by
      rw [beforeIs] at mem
      rw [expired]
      exact (Table.mem_deleteWhere.mp mem).2)
    (fun row mem => by
      rw [beforeIs] at mem ⊢
      exact (Table.mem_deleteWhere.mp mem).2)
  unfold deleteExpired
  rw [← beforeIs, eventsGone, ok_bind, deleteSnapshots_eq]
  refine ⟨_, rfl, ?_, by rw [beforeIs]; rfl⟩
  rw [beforeIs]
  constructor <;> rfl

/-- Where nothing is counted nothing is old. -/
theorem pruned_of_no_counts
    (none
      : ¬ (0 < (pruneCounts cutoff ledger).events ∨ 0 < (pruneCounts cutoff ledger).observations
        ∨ 0 < (pruneCounts cutoff ledger).snapshots))
    : Pruned cutoff ledger ledger := by
  simp only [not_or, Nat.not_lt, Nat.le_zero] at none
  obtain ⟨noEvents, noObservations, noSnapshots⟩ := none
  have recent := Table.countWhere_eq_zero.mp noEvents
  have unexpired := expired_of_no_events recent
  have events : ledger.rankingEvents = ledger.rankingEvents.deleteWhere (·.before cutoff) :=
    (Table.deleteWhere_eq_self recent).symm
  refine ⟨events, ?_, ?_, ?_, ?_, ?_, rfl, rfl, rfl⟩
  · exact (Table.deleteWhere_eq_self fun row _ => unexpired row.eventId).symm
  · exact (Table.deleteWhere_eq_self fun row _ => unexpired row.ownerEventId).symm
  · exact (Table.deleteWhere_eq_self (Table.countWhere_eq_zero.mp noObservations)).symm
  · exact (Table.deleteWhere_eq_self fun row _ => unexpired row.attributedEventId).symm
  · refine (Table.deleteWhere_eq_self fun row mem => ?_).symm
    rw [cites_of_events events]
    exact Table.countWhere_eq_zero.mp noSnapshots row mem

/-- A prune is never refused by the tables, and takes what is old from each. -/
theorem removeExpired_pruned (cutoff : Int) (ledger : Ledger)
    : ∃ after, removeExpired cutoff (pruneCounts cutoff ledger) ledger = .ok after
      ∧ Pruned cutoff ledger after ∧ after.stamp = ledger.stamp := by
  unfold removeExpired
  split
  · exact deleteExpired_pruned cutoff ledger
  · next none => exact ⟨ledger, rfl, pruned_of_no_counts none, rfl⟩

/-- What a prune commits has lost what is old, and its report has the counts of the preview. -/
theorem pruneBody_spec {expected : LedgerStamp} {ending : Ending PruneReport}
    (ended : pruneBody cutoff expected ledger = .ok ending)
    : ∃ after report, ending = .commit after report ∧ Pruned cutoff ledger after
      ∧ report.counts = pruneCounts cutoff ledger := by
  unfold pruneBody at ended
  obtain ⟨pruned, removed, ended⟩ := bind_eq_ok.mp ended
  obtain ⟨after, advanced, ended⟩ := bind_eq_ok.mp ended
  obtain ⟨other, removedToo, lost, _⟩ := removeExpired_pruned cutoff ledger
  obtain rfl := Except.ok.inj (removed.symm.trans removedToo)
  refine ⟨after, _, (pure_eq_ok.mp ended).symm, ?_, rfl⟩
  rw [advanceGeneration_eq advanced]
  exact ⟨lost.events, lost.candidates, lost.attempts, lost.observations, lost.judgments,
    lost.snapshots, lost.cursors, lost.proposals, lost.calibrations⟩

-- References, counts, and a second prune

/-- The counts are those of the rows that every table has lost. -/
structure Removed (counts : PruneCounts) (ledger after : Ledger) : Prop where
  events : ledger.rankingEvents.rows.length = after.rankingEvents.rows.length + counts.events
  candidates
    : ledger.rankingCandidates.rows.length
      = after.rankingCandidates.rows.length + counts.candidates
  observations
    : ledger.observations.rows.length = after.observations.rows.length + counts.observations
  judgments : ledger.judgments.rows.length = after.judgments.rows.length + counts.judgments
  providerAttempts
    : ledger.providerAttempts.rows.length
      = after.providerAttempts.rows.length + counts.providerAttempts
  snapshots
    : ledger.rosterSnapshots.rows.length = after.rosterSnapshots.rows.length + counts.snapshots

def PruneCounts.nothing : PruneCounts where
  events := 0
  candidates := 0
  observations := 0
  judgments := 0
  providerAttempts := 0
  snapshots := 0
  sharedSnapshotsPreserved := 0

section

variable (lost : Pruned cutoff ledger after)
include lost

theorem Pruned.mem_events {event : NewRankingEvent}
    : event ∈ after.rankingEvents.rows
      ↔ event ∈ ledger.rankingEvents.rows ∧ event.before cutoff = false := by
  rw [lost.events]
  exact Table.mem_deleteWhere

theorem Pruned.kept_event {eventId : String}
    (present : ∃ event ∈ ledger.rankingEvents.rows, event.eventId = eventId)
    (recent : ledger.expired cutoff eventId = false)
    : ∃ event ∈ after.rankingEvents.rows, event.eventId = eventId := by
  obtain ⟨event, mem, rfl⟩ := present
  rw [expired_of_mem mem] at recent
  exact ⟨event, lost.mem_events.mpr ⟨mem, recent⟩, rfl⟩

/-- A prune leaves no reference to a row that it removes. -/
theorem Pruned.foreignKeys (keys : ledger.ForeignKeys)
    : after.ForeignKeys where
  snapshots := by
    intro event mem snapshotId cited
    obtain ⟨row, present, rfl⟩ :=
      keys.snapshots event (lost.mem_events.mp mem).1 snapshotId cited
    refine ⟨row, ?_, rfl⟩
    rw [lost.snapshots, Table.mem_deleteWhere]
    have citedAfter : after.cites row.snapshotId = true :=
      Ledger.cites_iff.mpr ⟨event, mem, cited⟩
    exact ⟨present, by rw [citedAfter]; exact Bool.and_false _⟩
  candidates := by
    intro row mem
    rw [lost.candidates, Table.mem_deleteWhere] at mem
    exact lost.kept_event (keys.candidates row mem.1) mem.2
  attempts := by
    intro row mem
    rw [lost.attempts, Table.mem_deleteWhere] at mem
    exact lost.kept_event (keys.attempts row mem.1) mem.2
  observations := by
    intro row mem eventId attributed
    rw [lost.observations, Table.mem_deleteWhere] at mem
    obtain ⟨mem, recent⟩ := mem
    unfold Ledger.expiredObservation at recent
    rw [attributed] at recent
    exact lost.kept_event (keys.observations row mem eventId attributed) recent
  judgments := by
    intro row mem
    rw [lost.judgments, Table.mem_deleteWhere] at mem
    exact lost.kept_event (keys.judgments row mem.1) mem.2

theorem Pruned.removed
    : Removed (pruneCounts cutoff ledger) ledger after where
  events := by
    rw [lost.events]
    exact Table.length_deleteWhere _ _
  candidates := by
    rw [lost.candidates]
    exact Table.length_deleteWhere _ _
  observations := by
    rw [lost.observations]
    exact Table.length_deleteWhere _ _
  judgments := by
    rw [lost.judgments]
    exact Table.length_deleteWhere _ _
  providerAttempts := by
    rw [lost.attempts]
    exact Table.length_deleteWhere _ _
  snapshots := by
    rw [lost.snapshots]
    simp only [cites_of_events lost.events]
    exact Table.length_deleteWhere _ _

theorem Pruned.no_old_event
    : ∀ event ∈ after.rankingEvents.rows, event.before cutoff = false :=
  fun _ mem => (lost.mem_events.mp mem).2

theorem Pruned.no_old_observation
    : ∀ row ∈ after.observations.rows, after.expiredObservation cutoff row = false := by
  intro row mem
  rw [lost.observations, Table.mem_deleteWhere] at mem
  obtain ⟨_, recent⟩ := mem
  unfold Ledger.expiredObservation at recent ⊢
  cases attributed : row.attributedEventId with
  | some eventId => exact expired_of_no_events lost.no_old_event eventId
  | none =>
      rw [attributed] at recent
      exact recent

/-- What a prune leaves has nothing old for the same cutoff. -/
theorem Pruned.again : Pruned cutoff after after := by
  have recent := lost.no_old_event
  have unexpired := expired_of_no_events recent
  refine ⟨(Table.deleteWhere_eq_self recent).symm, ?_, ?_, ?_, ?_, ?_, rfl, rfl, rfl⟩
  · exact (Table.deleteWhere_eq_self fun row _ => unexpired row.eventId).symm
  · exact (Table.deleteWhere_eq_self fun row _ => unexpired row.ownerEventId).symm
  · exact (Table.deleteWhere_eq_self lost.no_old_observation).symm
  · exact (Table.deleteWhere_eq_self fun row _ => unexpired row.attributedEventId).symm
  · refine (Table.deleteWhere_eq_self fun row mem => ?_).symm
    rw [lost.snapshots, Table.mem_deleteWhere] at mem
    exact mem.2

/-- Two prunes of one ledger leave the same tables. -/
theorem Pruned.unique {other : Ledger} (lostToo : Pruned cutoff ledger other)
    : { other with stamp := after.stamp } = after := by
  have events := lostToo.events.trans lost.events.symm
  have snapshots : other.rosterSnapshots = after.rosterSnapshots := by
    rw [lost.snapshots, lostToo.snapshots]
    unfold Ledger.cites
    rw [events]
  obtain ⟨_, _, _, _, _, _, _, _, _, _⟩ := after
  obtain ⟨_, _, _, _, _, _, _, _, _, _⟩ := other
  obtain rfl := events
  obtain rfl := snapshots
  obtain rfl := lostToo.candidates.trans lost.candidates.symm
  obtain rfl := lostToo.attempts.trans lost.attempts.symm
  obtain rfl := lostToo.observations.trans lost.observations.symm
  obtain rfl := lostToo.judgments.trans lost.judgments.symm
  obtain rfl := lostToo.cursors.trans lost.cursors.symm
  obtain rfl := lostToo.proposals.trans lost.proposals.symm
  obtain rfl := lostToo.calibrations.trans lost.calibrations.symm
  rfl

theorem Pruned.counts_again
    : pruneCounts cutoff after = .nothing := by
  have removed := lost.again.removed
  have shared : (pruneCounts cutoff after).sharedSnapshotsPreserved = 0 := by
    have uncited : after.citedBefore cutoff = fun _ => false := by
      funext snapshotId
      rw [Bool.eq_false_iff]
      intro cited
      unfold Ledger.citedBefore at cited
      obtain ⟨event, mem, both⟩ := List.any_eq_true.mp cited
      rw [lost.no_old_event event mem, Bool.and_false] at both
      cases both
    unfold pruneCounts
    dsimp only
    rw [uncited, List.filter_eq_nil_iff.mpr fun _ _ => Bool.false_ne_true]
    rfl
  generalize pruneCounts cutoff after = counts at removed shared
  obtain ⟨events, candidates, observations, judgments, attempts, snapshots, sharedCount⟩ := counts
  obtain ⟨noEvents, noCandidates, noObservations, noJudgments, noAttempts, noSnapshots⟩ := removed
  unfold PruneCounts.nothing
  rw [PruneCounts.mk.injEq]
  dsimp only at *
  omega

end

end SkillRanker.Storage
