import SkillRanker.Storage.Evidence
import SkillRanker.Storage.Prune

/-! What retention promises: a prune removes what is old and nothing else, and the debt that is left
after it. No writer of the ledger breaks a reference.
-/

namespace SkillRanker.Storage
open SkillRanker.Library

variable {cutoff : Int} {ledger : Ledger}

-- A prune

/-- Nothing stands in the way of a mutation with this stamp. -/
structure Unhindered (surroundings : Surroundings) (expected : LedgerStamp) (ledger : Ledger)
    : Prop where
  opening : surroundings.opening = none
  commit : surroundings.commit = .done
  stamp : ledger.stamp = expected
  generation : expected.dataGeneration < i64Max

variable {expected : LedgerStamp}

theorem advanceGeneration_ok (room : expected.dataGeneration < i64Max) (ledger : Ledger)
    : ∃ after, advanceGeneration expected ledger = .ok after := by
  have counted : checkedAdd expected.dataGeneration 1 = some (expected.dataGeneration + 1) := by
    unfold checkedAdd
    rw [if_pos]
    unfold i64Max at room
    unfold u64Max
    omega
  have fits : fitsColumn (expected.dataGeneration + 1) = true := by
    unfold fitsColumn
    exact decide_eq_true (by omega)
  unfold advanceGeneration
  rw [counted]
  exact ⟨_, by simp [require, ensure, fits]; rfl⟩

variable {surroundings : Surroundings}

theorem pruneApply_ok (unhindered : Unhindered surroundings expected ledger) (cutoff : Int)
    : ∃ report, (pruneApply surroundings expected cutoff ledger).2 = .ok report := by
  obtain ⟨opening, commit, stamp, room⟩ := unhindered
  obtain ⟨pruned, removed, _⟩ := removeExpired_pruned cutoff ledger
  obtain ⟨after, advanced⟩ := advanceGeneration_ok room pruned
  have current : checkStamp ledger expected = .ok () := checkStamp_eq_ok.mpr stamp
  have body : ∃ report, pruneBody cutoff expected ledger = .ok (.commit after report) := by
    unfold pruneBody
    dsimp only
    rw [removed, ok_bind, advanced]
    exact ⟨_, rfl⟩
  obtain ⟨report, ended⟩ := body
  refine ⟨report, ?_⟩
  unfold pruneApply mutateStore mutate
  rw [opening]
  dsimp only
  rw [ok_bind, current, ended, commit]
  rfl

/-- An applied prune has lost what is old, and reports the counts of the preview. -/
theorem pruneApply_spec {report : PruneReport}
    (applied : (pruneApply surroundings expected cutoff ledger).2 = .ok report)
    : Pruned cutoff ledger (pruneApply surroundings expected cutoff ledger).1
      ∧ report.counts = pruneCounts cutoff ledger := by
  obtain ⟨_, ⟨_, _, discarded⟩ | ⟨after, left, committed⟩⟩ := mutate_ok applied
  · obtain ⟨_, _, commits, _⟩ := pruneBody_spec discarded
    cases commits
  · obtain ⟨other, told, commits, lost, counts⟩ := pruneBody_spec committed.body
    obtain ⟨rfl, rfl⟩ := Ending.commit.inj commits
    change Pruned cutoff ledger (mutate _ _ _ _ _ _ _).1 ∧ _
    rw [left]
    exact ⟨lost, counts⟩

/-- A prune of a ledger with sound references is applied unless something stands in its way. It then
removes what is old and nothing else, keeps the references sound, reports what it removed as the
preview did, and leaves a second one nothing to remove.
-/
theorem pruneApply_exact (ledger : Ledger) (keys : ledger.ForeignKeys) (cutoff : Int)
    (surroundings : Surroundings) (expected : LedgerStamp)
    : (Unhindered surroundings expected ledger
        → ∃ report, (pruneApply surroundings expected cutoff ledger).2 = .ok report)
      ∧ ∀ report, (pruneApply surroundings expected cutoff ledger).2 = .ok report
        → Pruned cutoff ledger (pruneApply surroundings expected cutoff ledger).1
          ∧ (pruneApply surroundings expected cutoff ledger).1.ForeignKeys
          ∧ Removed report.counts ledger (pruneApply surroundings expected cutoff ledger).1
          ∧ report.counts = (prunePreview cutoff ledger).counts
          ∧ ∀ later next again,
              (pruneApply later next cutoff
                  (pruneApply surroundings expected cutoff ledger).1).2 = .ok again
              → again.counts = .nothing
                ∧ { (pruneApply later next cutoff
                      (pruneApply surroundings expected cutoff ledger).1).1 with
                    stamp := (pruneApply surroundings expected cutoff ledger).1.stamp }
                  = (pruneApply surroundings expected cutoff ledger).1 := by
  refine ⟨fun unhindered => pruneApply_ok unhindered cutoff, fun report applied => ?_⟩
  obtain ⟨lost, counts⟩ := pruneApply_spec applied
  generalize (pruneApply surroundings expected cutoff ledger).1 = after at lost ⊢
  refine ⟨lost, lost.foreignKeys keys, ?_, counts, fun later next again applied => ?_⟩
  · rw [counts]
    exact lost.removed
  · obtain ⟨lostAgain, countsAgain⟩ := pruneApply_spec applied
    exact ⟨countsAgain.trans lost.counts_again, lost.again.unique lostAgain⟩

def emptySnapshot (snapshotId : String) (createdAtUnixMs : Nat) : NewRosterSnapshot where
  snapshotId := snapshotId
  workspaceRoot := "/w"
  adapter := "fixed"
  totalCandidates := 0
  eligibleCandidates := 0
  membershipCoverage := .complete
  membersJson := "[]"
  createdAtUnixMs := createdAtUnixMs

def citingEvent (eventId snapshotId : String) (createdAtUnixMs : Nat) : NewRankingEvent where
  eventId := eventId
  verifiedDeliveryKey := none
  workspaceRoot := "/w"
  sessionId := "session"
  agentBranch := ""
  modeChannel := "hook"
  policyVersion := "v1"
  schemaVersion := 1
  decision := .ranked
  reason := "ranked"
  exposureState := .emitted
  elapsedMs := 40
  createdAtUnixMs := createdAtUnixMs
  inputTokens := none
  outputTokens := none
  snapshotId := some snapshotId

def candidateOf (eventId : String) : NewRankingCandidate where
  eventId := eventId
  stage := .wide
  skillId := "skill"
  skillVersion := "1"
  rawProbability := none
  normalizedProbability := none
  fitScore := none
  rankScore := none
  rankPosition := some 1
  excluded := false
  exclusionReason := none

def attemptOf (eventId : String) : NewProviderAttempt where
  attemptId := eventId
  ownerEventId := eventId
  stage := .wide
  requestFingerprint := "fingerprint"
  admittedAtUnixMs := 5
  sentAtUnixMs := none
  completedAtUnixMs := none
  status := .admitted
  inputTokens := none
  outputTokens := none
  httpStatus := none
  errorKind := none

def observationAt (observationId : String) (attributedEventId : Option String)
    (observedAtUnixMs : Nat)
    : NewObservation where
  observationId := observationId
  sourceEventKey := observationId
  workspaceRoot := "/w"
  sessionId := "session"
  agentBranch := ""
  attributedEventId := attributedEventId
  skillId := "skill"
  evidenceState := .loaded
  observedAtUnixMs := observedAtUnixMs

def judgmentOf (eventId : String) (createdAtUnixMs : Nat) : NewJudgment where
  judgmentId := eventId
  attributedEventId := eventId
  skillId := "skill"
  label := .useful
  labelVersion := 1
  provenance := "user"
  createdAtUnixMs := createdAtUnixMs

/-- A ledger of two old and two recent events, with rows of theirs in every table. The first and the
last but one share a snapshot.
-/
def agedLedger : Ledger :=
  { Ledger.initial [] with
    rosterSnapshots :=
      {
        rows := [emptySnapshot "shared" 1, emptySnapshot "stale" 2, emptySnapshot "fresh" 20]
        distinct := by decide }
    rankingEvents :=
      {
        rows :=
          [citingEvent "old" "shared" 5, citingEvent "older" "stale" 4,
            citingEvent "recent" "shared" 20, citingEvent "latest" "fresh" 21]
        distinct := by decide }
    rankingCandidates :=
      { rows := [candidateOf "old", candidateOf "recent"], distinct := by decide }
    providerAttempts := { rows := [attemptOf "old", attemptOf "recent"], distinct := by decide }
    observations :=
      {
        rows :=
          [observationAt "loaded" (some "old") 30, observationAt "again" (some "recent") 30,
            observationAt "stray" none 5, observationAt "late" none 30]
        distinct := by decide }
    judgments :=
      { rows := [judgmentOf "old" 6, judgmentOf "recent" 22], distinct := by decide } }

theorem agedLedger_keys : agedLedger.ForeignKeys := by
  constructor <;> simp [agedLedger, Ledger.initial, emptySnapshot, citingEvent, candidateOf,
    attemptOf, observationAt, judgmentOf]

def calm : Surroundings where
  opening := none
  commit := .done

theorem calm_unhindered (generation : ledger.stamp.dataGeneration = 1)
    : Unhindered calm ledger.stamp ledger :=
  ⟨rfl, rfl, rfl, by rw [generation]; decide⟩

/-- What is old is removed from every table, but not the snapshot that a recent event shares. -/
theorem agedLedger_pruned
    : ∃ report, (pruneApply calm agedLedger.stamp 10 agedLedger).2 = .ok report
      ∧ report.counts
        = {
          events := 2
          candidates := 1
          observations := 2
          judgments := 1
          providerAttempts := 1
          snapshots := 1
          sharedSnapshotsPreserved := 1 }
      ∧ Removed report.counts agedLedger (pruneApply calm agedLedger.stamp 10 agedLedger).1
      ∧ (pruneApply calm agedLedger.stamp 10 agedLedger).1.ForeignKeys := by
  obtain ⟨applies, exact⟩ :=
    pruneApply_exact agedLedger agedLedger_keys 10 calm agedLedger.stamp
  obtain ⟨report, applied⟩ := applies (calm_unhindered rfl)
  obtain ⟨_, keys, removed, counts, _⟩ := exact report applied
  have counted : (prunePreview 10 agedLedger).counts
      = {
        events := 2
        candidates := 1
        observations := 2
        judgments := 1
        providerAttempts := 1
        snapshots := 1
        sharedSnapshotsPreserved := 1 } := by
    decide +kernel
  exact ⟨report, applied, counts.trans counted, removed, keys⟩

-- Debt

/-- No row is reported as one that should be removed. -/
structure CleanupDebt.Discharged (debt : CleanupDebt) : Prop where
  events : debt.expiredEvents = 0
  snapshots : debt.unreferencedSnapshots = 0
  observations : debt.expiredObservations = 0
  judgments : debt.expiredJudgments = 0

/-- Every snapshot from the cutoff on is cited by an event from the cutoff on, and every judgment
before it is of an event before it.
-/
structure Ledger.Dischargeable (ledger : Ledger) (cutoff : Int) : Prop where
  snapshots
    : ∀ row ∈ ledger.rosterSnapshots.rows, cutoff ≤ row.createdAtUnixMs
      → ledger.citesSince cutoff row.snapshotId = true
  judgments
    : ∀ row ∈ ledger.judgments.rows, row.createdAtUnixMs < cutoff
      → ledger.expired cutoff row.attributedEventId = true

theorem Pruned.cited_iff {after : Ledger} (lost : Pruned cutoff ledger after)
    : (∀ row ∈ after.rosterSnapshots.rows, after.cites row.snapshotId = true)
      ↔ ∀ row ∈ ledger.rosterSnapshots.rows, cutoff ≤ row.createdAtUnixMs
        → ledger.citesSince cutoff row.snapshotId = true := by
  have cites := cites_of_events lost.events
  constructor
  · intro all row mem recent
    rw [← cites]
    refine all row ?_
    rw [lost.snapshots, Table.mem_deleteWhere]
    exact ⟨mem, by simp [Int.not_lt.mpr recent]⟩
  · intro recent row mem
    rw [lost.snapshots, Table.mem_deleteWhere] at mem
    obtain ⟨mem, kept⟩ := mem
    simp only [Bool.and_eq_false_iff, decide_eq_false_iff_not, Bool.not_eq_false'] at kept
    rcases kept with young | cited
    · rw [cites]
      exact recent row mem (Int.not_lt.mp young)
    · exact cited

/-- The judgments that a prune leaves are all recent if the old ones are of old events. -/
theorem Pruned.judged_iff {after : Ledger} (lost : Pruned cutoff ledger after)
    : (∀ row ∈ after.judgments.rows, cutoff ≤ row.createdAtUnixMs)
      ↔ ∀ row ∈ ledger.judgments.rows, row.createdAtUnixMs < cutoff
        → ledger.expired cutoff row.attributedEventId = true := by
  rw [lost.judgments]
  constructor
  · intro all row mem old
    by_contra kept
    have recent := all row (Table.mem_deleteWhere.mpr ⟨mem, Bool.eq_false_iff.mpr kept⟩)
    omega
  · intro all row mem
    obtain ⟨mem, kept⟩ := Table.mem_deleteWhere.mp mem
    by_contra old
    rw [all row mem (Int.not_le.mp old)] at kept
    cases kept

/-- After a prune with the cutoff of a time no debt is left at this time exactly if every snapshot
from the cutoff on is cited by an event from the cutoff on, and every judgment before it is of an
event before it.
-/
theorem cleanupDebt_discharged_iff (ledger : Ledger) (asOfUnixMs : Int)
    (surroundings : Surroundings) (expected : LedgerStamp) (report : PruneReport)
    (applied
      : (pruneApply surroundings expected (saturatingSub64 asOfUnixMs defaultRetentionMs) ledger).2
        = .ok report)
    (freelistBytes : Nat)
    : (cleanupDebt freelistBytes asOfUnixMs
        (pruneApply surroundings expected (saturatingSub64 asOfUnixMs defaultRetentionMs)
          ledger).1).Discharged
      ↔ ledger.Dischargeable (saturatingSub64 asOfUnixMs defaultRetentionMs) := by
  obtain ⟨lost, _⟩ := pruneApply_spec applied
  generalize (pruneApply surroundings expected _ ledger).1 = after at lost ⊢
  have recent := lost.no_old_event
  have unexpired := expired_of_no_events recent
  have cited := lost.cited_iff
  have judged := lost.judged_iff
  constructor
  · rintro ⟨_, snapshots, _, judgments⟩
    refine ⟨cited.mp fun row mem => ?_, judged.mp fun row mem => ?_⟩
    · simpa using Table.countWhere_eq_zero.mp snapshots row mem
    · have young := Table.countWhere_eq_zero.mp judgments row mem
      simp only [Bool.or_eq_false_iff, decide_eq_false_iff_not, Int.not_lt] at young
      exact young.2
  · rintro ⟨snapshots, judgments⟩
    refine ⟨Table.countWhere_eq_zero.mpr recent, Table.countWhere_eq_zero.mpr fun row mem => ?_,
      Table.countWhere_eq_zero.mpr lost.no_old_observation,
      Table.countWhere_eq_zero.mpr fun row mem => ?_⟩
    · rw [cited.mpr snapshots row mem]
      rfl
    · rw [unexpired, Bool.false_or]
      exact decide_eq_false (Int.not_lt.mpr (judged.mpr judgments row mem))

def lateUnixMs : Int := defaultRetentionMs + 10

/-- A prune of old and recent rows leaves no debt. -/
theorem agedLedger_discharged
    : (cleanupDebt 0 lateUnixMs
        (pruneApply calm agedLedger.stamp
          (saturatingSub64 lateUnixMs defaultRetentionMs) agedLedger).1).Discharged := by
  have unhindered : Unhindered calm agedLedger.stamp agedLedger := calm_unhindered rfl
  obtain ⟨report, applied⟩ :=
    pruneApply_ok unhindered (saturatingSub64 lateUnixMs defaultRetentionMs)
  refine (cleanupDebt_discharged_iff _ _ _ _ report applied 0).mpr ⟨?_, ?_⟩
  · decide +kernel
  · decide +kernel

def snapshotLedger : Ledger :=
  { Ledger.initial [] with
    rosterSnapshots := { rows := [emptySnapshot "snapshot" 20], distinct := by decide } }

/-- A recent snapshot that no event cites is a debt which no prune discharges. -/
theorem recentSnapshot_not_discharged
    : ¬ (cleanupDebt 0 lateUnixMs
        (pruneApply calm snapshotLedger.stamp
          (saturatingSub64 lateUnixMs defaultRetentionMs) snapshotLedger).1).Discharged := by
  intro discharged
  exact absurd discharged.snapshots (by decide)

-- Every ledger

section

variable (format : MembersFormat) (order : LatestFirst) (surroundings) (expected)

def recordJudgment (judgment : NewJudgment)
    : Ledger → Ledger × Except StoreError Unit :=
  mutateStore surroundings expected (pure ()) fun ledger => do
    ensure judgment.checks .recordConflict
    ensure (ledger.judgments.find? judgment.judgmentId = none) .recordConflict
    ensure (ledger.rankingEvents.find? judgment.attributedEventId).isSome .recordConflict
    return .commit { ledger with judgments := ledger.judgments.insert judgment } ()

def recordRosterSnapshot (snapshot : NewRosterSnapshot)
    : Ledger → Ledger × Except StoreError Unit :=
  let members := validatedSnapshot format snapshot
  mutateStore surroundings expected (members.map fun _ => ()) fun ledger => do
    let after ← insertSnapshot format snapshot (← members) ledger
    return .commit after ()

def clearApply : Ledger → Ledger × Except StoreError Unit :=
  mutateStore surroundings expected (pure ()) fun ledger => do
    let after ← advanceGeneration expected ledger
    return .commit { Ledger.initial after.stamp.incarnation with stamp := after.stamp } ()

inductive LedgerCall
  | expose (call : ExposureCall)
  | observe (batch : ObservationBatch)
  | judge (judgment : NewJudgment)
  | enroll (snapshot : NewRosterSnapshot)
  | prune (cutoff : Int)
  | clear

/-- A call with what surrounds it and the stamp of its writer. -/
structure LedgerStep where
  surroundings : Surroundings
  expected : LedgerStamp
  call : LedgerCall

def LedgerCall.apply (ledger : Ledger) : LedgerCall → Ledger
  | expose call => ((exposureMachine format).next ledger ⟨surroundings, expected, call⟩).1
  | observe batch =>
      (recordObservationsWithCursorAttribution order surroundings batch expected ledger).1
  | judge judgment => (recordJudgment expected surroundings judgment ledger).1
  | enroll snapshot => (recordRosterSnapshot expected surroundings format snapshot ledger).1
  | prune cutoff => (pruneApply surroundings expected cutoff ledger).1
  | clear => (clearApply expected surroundings ledger).1

def ledgers : Machine Ledger LedgerStep Unit where
  next ledger step := (step.call.apply step.expected step.surroundings format order ledger, ())

end

variable {format : MembersFormat} {order : LatestFirst} {after : Ledger}

def Ledger.HasEvent (ledger : Ledger) (eventId : String) : Prop :=
  ∃ event ∈ ledger.rankingEvents.rows, event.eventId = eventId

theorem hasEvent_of_find? {eventId : String}
    (found : (ledger.rankingEvents.find? eventId).isSome)
    : ledger.HasEvent eventId := by
  obtain ⟨event, found⟩ := Option.isSome_iff_exists.mp found
  exact ⟨event, Table.mem_of_find? found, Table.key_of_find? found⟩

theorem initial_keys (incarnation : List UInt8) : (Ledger.initial incarnation).ForeignKeys := by
  constructor <;> simp [Ledger.initial, Table.empty]

/-- Steps that keep the references keep them together, by induction on them. -/
theorem foldlM_keys {α : Type} {write : Ledger → α → Except StoreError Ledger} {items : List α}
    (keeps
      : ∀ item ∈ items, ∀ ledger after : Ledger,
          ledger.ForeignKeys → write ledger item = .ok after → after.ForeignKeys)
    (keys : ledger.ForeignKeys) (done : items.foldlM write ledger = .ok after)
    : after.ForeignKeys := by
  induction items generalizing ledger with
  | nil =>
      cases pure_eq_ok.mp done
      exact keys
  | cons item rest ih =>
      rw [List.foldlM_cons] at done
      obtain ⟨between, first, done⟩ := bind_eq_ok.mp done
      exact ih (fun other mem => keeps other (List.mem_cons_of_mem _ mem))
        (keeps item List.mem_cons_self _ _ keys first) done

section

variable (keys : ledger.ForeignKeys)
include keys

theorem Ledger.ForeignKeys.stamped (stamp : LedgerStamp) : { ledger with stamp }.ForeignKeys :=
  ⟨keys.snapshots, keys.candidates, keys.attempts, keys.observations, keys.judgments⟩

/-- Events may change and be added as long as each is still there and names a roster that is. -/
theorem Ledger.ForeignKeys.events
    {events : Table String NewRankingEvent NewRankingEvent.eventId}
    (kept : ∀ event ∈ ledger.rankingEvents.rows, (events.find? event.eventId).isSome)
    (snapshots
      : ∀ event ∈ events.rows, ∀ snapshotId, event.snapshotId = some snapshotId
        → ∃ row ∈ ledger.rosterSnapshots.rows, row.snapshotId = snapshotId)
    : { ledger with rankingEvents := events }.ForeignKeys := by
  have still (eventId : String) (present : ledger.HasEvent eventId)
      : { ledger with rankingEvents := events }.HasEvent eventId := by
    obtain ⟨event, mem, rfl⟩ := present
    exact hasEvent_of_find? (kept event mem)
  exact ⟨snapshots, fun row mem => still _ (keys.candidates row mem),
    fun row mem => still _ (keys.attempts row mem),
    fun row mem eventId attributed => still _ (keys.observations row mem eventId attributed),
    fun row mem => still _ (keys.judgments row mem)⟩

/-- A change of events keeps what it does not change. -/
theorem Ledger.ForeignKeys.update (condition : NewRankingEvent → Bool)
    (change : NewRankingEvent → NewRankingEvent) (same : ∀ row, (change row).eventId = row.eventId)
    (named
      : ∀ row snapshotId, (change row).snapshotId = some snapshotId
        → row.snapshotId = some snapshotId
          ∨ ∃ roster ∈ ledger.rosterSnapshots.rows, roster.snapshotId = snapshotId)
    : { ledger with
        rankingEvents := ledger.rankingEvents.updateWhere condition change same }.ForeignKeys := by
  refine keys.events (fun event mem => ?_) fun event mem snapshotId cited => ?_
  · rw [Table.find?_updateWhere, Table.find?_of_mem mem]
    rfl
  · obtain ⟨before, listed, rfl⟩ := List.mem_map.mp mem
    split at cited
    · exact (named before snapshotId cited).elim (keys.snapshots before listed snapshotId) id
    · exact keys.snapshots before listed snapshotId cited

theorem insertSnapshot_keys {snapshot : NewRosterSnapshot} {membersJson : String}
    (done : insertSnapshot format snapshot membersJson ledger = .ok after)
    : after.ForeignKeys := by
  simp only [insertSnapshot, bind_eq_ok] at done
  obtain ⟨_, _, _, _, _, _, _, _, done⟩ := done
  cases pure_eq_ok.mp done
  refine ⟨fun event mem snapshotId cited => ?_, keys.candidates, keys.attempts,
    keys.observations, keys.judgments⟩
  obtain ⟨row, mem, same⟩ := keys.snapshots event mem snapshotId cited
  exact ⟨row, (Table.mem_insert _).mpr (.inl mem), same⟩

theorem writeEvent_keys {event : NewRankingEvent}
    (rostered : checkEventSnapshot format event ledger = .ok ())
    (done : writeEvent event ledger = .ok after)
    : after.ForeignKeys ∧ (after.rankingEvents.find? event.eventId).isSome := by
  have named (snapshotId : String) (cited : event.snapshotId = some snapshotId)
      : ∃ row ∈ ledger.rosterSnapshots.rows, row.snapshotId = snapshotId := by
    unfold checkEventSnapshot at rostered
    rw [cited] at rostered
    obtain ⟨row, found, _⟩ := bind_eq_ok.mp rostered
    have stored := require_eq_ok.mp found
    exact ⟨row, Table.mem_of_find? stored, Table.key_of_find? stored⟩
  obtain ⟨rfl, _⟩ := writeEvent_eq done
  unfold writtenEvents
  cases found : ledger.rankingEvents.find? event.eventId with
  | none =>
      refine ⟨keys.events (fun row mem => ?_) fun row mem snapshotId cited => ?_, ?_⟩
      · rw [Table.find?_insert_of_some _ (Table.find?_of_mem mem)]
        rfl
      · rcases (Table.mem_insert _).mp mem with known | ⟨rfl, _⟩
        · exact keys.snapshots row known snapshotId cited
        · exact named snapshotId cited
      · simp [Table.find?_insert _ found]
  | some stored =>
      dsimp only
      split
      · refine ⟨keys.update (·.eventId = event.eventId) (·.updated event) event.updated_eventId
          fun _ snapshotId cited => .inr (named snapshotId cited), ?_⟩
        rw [Table.find?_updateWhere, found]
        rfl
      · exact ⟨keys, by rw [found]; rfl⟩

/-- An attempt is of an event that is there when it is first written. -/
theorem advanceProviderAttempt_keys {attempt : NewProviderAttempt}
    (done : advanceProviderAttempt ledger attempt = .ok after)
    : after.ForeignKeys := by
  unfold advanceProviderAttempt at done
  obtain ⟨_, _, done⟩ := bind_eq_ok.mp done
  split at done
  all_goals
    obtain ⟨_, owned, done⟩ := bind_eq_ok.mp done
    cases pure_eq_ok.mp done
    refine ⟨keys.snapshots, keys.candidates, fun row mem => ?_, keys.observations, keys.judgments⟩
  · rcases (Table.mem_insert _).mp mem with known | ⟨rfl, _⟩
    · exact keys.attempts row known
    · exact hasEvent_of_find? (ensure_eq_ok.mp owned)
  · obtain ⟨before, listed, rfl⟩ := List.mem_map.mp mem
    have owner := keys.attempts before listed
    split <;> exact owner

theorem writeObservation_keys {attribution : ObservationAttribution} {observation : NewObservation}
    (done : writeObservation order attribution ledger observation = .ok after)
    : after.ForeignKeys := by
  unfold writeObservation at done
  obtain ⟨_, _, done⟩ := bind_eq_ok.mp done
  split at done
  · split at done
    · cases pure_eq_ok.mp done
      refine ⟨keys.snapshots, keys.candidates, keys.attempts, fun row mem eventId cited => ?_,
        keys.judgments⟩
      obtain ⟨before, listed, rfl⟩ := List.mem_map.mp mem
      refine keys.observations before listed eventId ?_
      split at cited <;> exact cited
    · cases pure_eq_ok.mp done
      exact keys
  · obtain ⟨_, _, done⟩ := bind_eq_ok.mp done
    obtain ⟨_, known, done⟩ := bind_eq_ok.mp done
    cases pure_eq_ok.mp done
    refine ⟨keys.snapshots, keys.candidates, keys.attempts, fun row mem eventId cited => ?_,
      keys.judgments⟩
    rcases (Table.mem_insert _).mp mem with listed | ⟨rfl, _⟩
    · exact keys.observations row listed eventId cited
    · exact hasEvent_of_find? (ensure_eq_ok.mp known eventId cited)

/-- A delivery keeps the references: its candidates and attempts are of its event, and its event
names a roster that is there.
-/
theorem delivery_keys {delivery : Delivery} (asked : delivery.request format = .ok ())
    (done : delivery.body format ledger = .ok (.commit after ()))
    : after.ForeignKeys := by
  unfold Delivery.request at asked
  obtain ⟨_, _, asked⟩ := bind_eq_ok.mp asked
  obtain ⟨_, named, _⟩ := bind_eq_ok.mp asked
  unfold Delivery.body at done
  obtain ⟨rostered, first, done⟩ := bind_eq_ok.mp done
  obtain ⟨_, checked, done⟩ := bind_eq_ok.mp done
  obtain ⟨recorded, second, done⟩ := bind_eq_ok.mp done
  obtain ⟨listed, third, done⟩ := bind_eq_ok.mp done
  obtain ⟨charged, fourth, done⟩ := bind_eq_ok.mp done
  cases pure_eq_ok.mp done
  have rosterKeys : rostered.ForeignKeys := by
    unfold writeSnapshot at first
    split at first
    · cases pure_eq_ok.mp first
      exact keys
    · obtain ⟨_, _, first⟩ := bind_eq_ok.mp first
      exact insertSnapshot_keys keys first
  obtain ⟨eventKeys, present⟩ := writeEvent_keys rosterKeys checked second
  refine foldlM_keys (fun _ _ _ _ keys done => advanceProviderAttempt_keys keys done) ?_ fourth
  rw [insertCandidates_eq third]
  refine ⟨eventKeys.snapshots, fun row mem => ?_, eventKeys.attempts, eventKeys.observations,
    eventKeys.judgments⟩
  have listed := Table.find?_of_mem mem
  rw [Table.find?_foldl_insert] at listed
  rcases Option.or_eq_some_iff.mp listed with known | ⟨_, added⟩
  · exact eventKeys.candidates row (Table.mem_of_find? known)
  · rw [(ensure_eq_ok.mp named).1 row (List.mem_of_find?_eq_some added)]
    exact hasEvent_of_find? present

/-- A mutation keeps the references if what it commits has them. -/
theorem mutateStore_keys {α : Type} {request : Except StoreError Unit}
    {body : Ledger → Except StoreError (Ending α)}
    (commits
      : ∀ after value, request = .ok () → body ledger = .ok (.commit after value)
        → after.ForeignKeys)
    : (mutateStore surroundings expected request body ledger).1.ForeignKeys := by
  rcases mutate_cases surroundings id id expected request body ledger with
    same | ⟨after, value, left, done⟩
  · exact same.symm ▸ keys
  · exact left.symm ▸ commits after value done.request done.body

theorem LedgerCall.apply_keys (call : LedgerCall)
    : (call.apply expected surroundings format order ledger).ForeignKeys := by
  cases call with
  | expose call =>
      cases call with
      | deliver delivery =>
          exact mutateStore_keys keys fun after _ asked done => delivery_keys keys asked done
      | emit eventId bytesWritten =>
          change (recordEmission surroundings eventId bytesWritten expected ledger).1.ForeignKeys
          refine mutateStore_keys keys fun after value _ done => ?_
          rw [(emission_effect done).2]
          exact (keys.update (·.eventId = eventId) ({ · with exposureState := .emitted })
            (fun _ => rfl) fun _ _ cited => .inl cited).stamped _
      | acknowledge eventId key =>
          change (recordAcknowledgment surroundings eventId key expected ledger).1.ForeignKeys
          refine mutateStore_keys keys fun after value _ done => ?_
          rw [(acknowledgment_effect done).2.2]
          exact (keys.update (·.eventId = eventId)
            ({ · with exposureState := .acknowledged, verifiedDeliveryKey := some key })
            (fun _ => rfl) fun _ _ cited => .inl cited).stamped _
  | observe batch =>
      refine mutateStore_keys keys fun after _ _ done => ?_
      unfold ObservationBatch.body at done
      obtain ⟨_, _, done⟩ := bind_eq_ok.mp done
      obtain ⟨observed, first, done⟩ := bind_eq_ok.mp done
      obtain ⟨moved, second, done⟩ := bind_eq_ok.mp done
      obtain ⟨last, third, done⟩ := bind_eq_ok.mp done
      cases pure_eq_ok.mp done
      obtain ⟨cursors, rfl⟩ := writeCursor_eq second
      rw [advanceGeneration_eq third]
      have kept := foldlM_keys (fun _ _ _ _ keys done => writeObservation_keys keys done) keys first
      exact ⟨kept.snapshots, kept.candidates, kept.attempts, kept.observations, kept.judgments⟩
  | judge judgment =>
      refine mutateStore_keys keys fun after _ _ done => ?_
      simp only [bind_eq_ok, ensure_eq_ok] at done
      obtain ⟨_, _, _, _, _, known, done⟩ := done
      cases pure_eq_ok.mp done
      refine ⟨keys.snapshots, keys.candidates, keys.attempts, keys.observations,
        fun row mem => ?_⟩
      rcases (Table.mem_insert _).mp mem with listed | ⟨rfl, _⟩
      · exact keys.judgments row listed
      · exact hasEvent_of_find? known
  | enroll snapshot =>
      refine mutateStore_keys keys fun after _ _ done => ?_
      obtain ⟨_, _, done⟩ := bind_eq_ok.mp done
      obtain ⟨_, first, done⟩ := bind_eq_ok.mp done
      cases pure_eq_ok.mp done
      exact insertSnapshot_keys keys first
  | prune cutoff =>
      change (pruneApply surroundings expected cutoff ledger).1.ForeignKeys
      refine mutateStore_keys keys fun after _ _ done => ?_
      obtain ⟨_, _, commits, lost, _⟩ := pruneBody_spec done
      obtain ⟨rfl, _⟩ := Ending.commit.inj commits
      exact lost.foreignKeys keys
  | clear =>
      unfold LedgerCall.apply clearApply
      refine mutateStore_keys keys fun after _ _ done => ?_
      obtain ⟨advanced, _, done⟩ := bind_eq_ok.mp done
      cases pure_eq_ok.mp done
      exact (initial_keys _).stamped _

end

/-- In every ledger that any run of its writers reaches, every reference is to a row that is there. -/
theorem ledger_referenced (format : MembersFormat) (order : LatestFirst) (incarnation : List UInt8)
    (steps : List LedgerStep)
    : ((ledgers format order).final (Ledger.initial incarnation) steps).ForeignKeys :=
  (ledgers format order).invariant (initial_keys incarnation)
    (fun _ step keys => LedgerCall.apply_keys keys step.call) steps

end SkillRanker.Storage
