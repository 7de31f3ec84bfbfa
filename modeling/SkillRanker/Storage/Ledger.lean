import SkillRanker.Storage.Records

/-! The ledger: its tables, the stamp that a writer must hold, and its transactions. -/

namespace SkillRanker.Storage
open SkillRanker.Library

inductive StoreError
  | missing
  | permissions
  | io
  | busy
  | corrupt
  | invalidRecord
  | recordConflict
  | incompatibleSchema
  | storeReplaced
  | staleGeneration
  | generationExhausted
  | quota
  | insufficientSpace
  | cancelled
  | deadline
deriving DecidableEq, Repr

/-- What a writer has read before its mutation. -/
@[ext]
structure LedgerStamp where
  incarnation : List UInt8
  schemaGeneration : Nat
  dataGeneration : Nat
deriving DecidableEq

structure Ledger where
  stamp : LedgerStamp
  sessionCursors : Table (String × String × String × CursorKind) SessionCursor SessionCursor.key
  rosterSnapshots : Table String NewRosterSnapshot NewRosterSnapshot.snapshotId
  rankingEvents : Table String NewRankingEvent NewRankingEvent.eventId
  rankingCandidates
    : Table (String × CandidateStage × String) NewRankingCandidate NewRankingCandidate.key
  providerAttempts : Table String NewProviderAttempt NewProviderAttempt.attemptId
  observations : Table String NewObservation NewObservation.observationId
  judgments : Table String NewJudgment NewJudgment.judgmentId
  feedbackProposals : Table String NewFeedbackProposal NewFeedbackProposal.proposalId
  calibrations : Table String NewCalibration NewCalibration.calibrationId

def Ledger.initial (incarnation : List UInt8) : Ledger where
  stamp := { incarnation, schemaGeneration := 1, dataGeneration := 1 }
  sessionCursors := .empty
  rosterSnapshots := .empty
  rankingEvents := .empty
  rankingCandidates := .empty
  providerAttempts := .empty
  observations := .empty
  judgments := .empty
  feedbackProposals := .empty
  calibrations := .empty

-- Stamps

def checkStamp (ledger : Ledger) (expected : LedgerStamp) : Except StoreError Unit := do
  ensure (ledger.stamp.incarnation = expected.incarnation) .storeReplaced
  ensure (ledger.stamp.schemaGeneration = expected.schemaGeneration) .incompatibleSchema
  ensure (ledger.stamp.dataGeneration = expected.dataGeneration) .staleGeneration

/-- The update of `data_generation` to the one after the writer's.
The column holds an `i64` and refuses what wraps.
-/
def advanceGeneration (expected : LedgerStamp) (ledger : Ledger) : Except StoreError Ledger := do
  let next ← require (checkedAdd expected.dataGeneration 1) .generationExhausted
  ensure (fitsColumn next) .recordConflict
  return { ledger with stamp := { ledger.stamp with dataGeneration := next } }

-- Transactions

/-- What surrounds a mutation: whether it gets to its transaction at all (a read-only store, a
deadline, a file that has changed, no space, a lock that is not free), and how it ends there.
-/
structure Surroundings where
  opening : Option StoreError
  commit : Commit
deriving DecidableEq

/-- What a transaction has come to: a ledger to commit, or nothing. -/
inductive Ending (α : Type)
  | commit (ledger : Ledger) (value : α)
  | discard (value : α)

/-- A mutation: its checks of the request, and its transaction, which starts with the check of the
stamp. What fails before the commit leaves the ledger as it is.
-/
def mutate {Failure α : Type} (surroundings : Surroundings) (ofStore : StoreError → Failure)
    (ofStamp : StoreError → Failure) (expected : LedgerStamp) (request : Except Failure Unit)
    (body : Ledger → Except Failure (Ending α)) (ledger : Ledger)
    : Ledger × Except Failure α :=
  match surroundings.opening with
  | some error => (ledger, .error (ofStore error))
  | none =>
      let ending : Except Failure (Ending α) := do
        request
        (checkStamp ledger expected).mapError ofStamp
        body ledger
      match ending with
      | .error failure => (ledger, .error failure)
      | .ok (.discard value) => (ledger, .ok value)
      | .ok (.commit after value) =>
          match surroundings.commit with
          | .done => (after, .ok value)
          | .failed durable => (if durable then after else ledger, .error (ofStore .io))

abbrev mutateStore {α : Type} (surroundings : Surroundings) (expected : LedgerStamp)
    (request : Except StoreError Unit) (body : Ledger → Except StoreError (Ending α))
    (ledger : Ledger)
    : Ledger × Except StoreError α :=
  mutate surroundings id id expected request body ledger

variable {Failure α : Type} {surroundings : Surroundings} {ofStore ofStamp : StoreError → Failure}
variable {expected : LedgerStamp} {request : Except Failure Unit}
variable {body : Ledger → Except Failure (Ending α)} {ledger : Ledger}

theorem checkStamp_eq_ok {result : Unit}
    : checkStamp ledger expected = .ok result ↔ ledger.stamp = expected := by
  simp [checkStamp, LedgerStamp.ext_iff]

/-- A committed mutation has been admitted on a current stamp, and its body says what it leaves. -/
structure Committed (surroundings : Surroundings) (expected : LedgerStamp)
    (request : Except Failure Unit) (body : Ledger → Except Failure (Ending α))
    (ledger after : Ledger) (value : α)
    : Prop where
  opened : surroundings.opening = none
  lasting : surroundings.commit ≠ .failed false
  request : request = .ok ()
  stamp : ledger.stamp = expected
  body : body ledger = .ok (.commit after value)

/-- A mutation leaves the ledger alone or leaves what it commits. -/
theorem mutate_cases (surroundings : Surroundings) (ofStore ofStamp : StoreError → Failure)
    (expected : LedgerStamp) (request : Except Failure Unit)
    (body : Ledger → Except Failure (Ending α)) (ledger : Ledger)
    : (mutate surroundings ofStore ofStamp expected request body ledger).1 = ledger
      ∨ ∃ after value,
          (mutate surroundings ofStore ofStamp expected request body ledger).1 = after
          ∧ Committed surroundings expected request body ledger after value := by
  unfold mutate
  cases opened : surroundings.opening with
  | some error => exact Or.inl rfl
  | none =>
      dsimp only
      split
      · exact Or.inl rfl
      · exact Or.inl rfl
      · next after value ended =>
        simp only [bind_eq_ok, mapError_eq_ok] at ended
        obtain ⟨_, asked, _, current, done⟩ := ended
        have committed (lasting : surroundings.commit ≠ .failed false)
            : Committed surroundings expected request body ledger after value :=
          ⟨opened, lasting, asked, checkStamp_eq_ok.mp current, done⟩
        cases ended : surroundings.commit with
        | done => exact Or.inr ⟨after, value, rfl, committed (by simp [ended])⟩
        | failed durable =>
            cases durable with
            | false => exact Or.inl rfl
            | true => exact Or.inr ⟨after, value, rfl, committed (by simp [ended])⟩

theorem Committed.left {after : Ledger} {value : α}
    (committed : Committed surroundings expected request body ledger after value)
    : (mutate surroundings ofStore ofStamp expected request body ledger).1 = after := by
  have current : checkStamp ledger expected = .ok () := checkStamp_eq_ok.mpr committed.stamp
  have ended : (do
      request
      (checkStamp ledger expected).mapError ofStamp
      body ledger : Except Failure (Ending α)) = .ok (.commit after value) := by
    rw [committed.request, ok_bind, current]
    exact committed.body
  unfold mutate
  rw [committed.opened]
  dsimp only
  rw [ended]
  cases finished : surroundings.commit with
  | done => rfl
  | failed durable =>
      cases durable with
      | false => exact absurd finished committed.lasting
      | true => rfl

/-- A mutation that answers a value has committed it or has had nothing to commit. -/
theorem mutate_ok {value : α}
    (answered : (mutate surroundings ofStore ofStamp expected request body ledger).2 = .ok value)
    : ledger.stamp = expected
      ∧ (((mutate surroundings ofStore ofStamp expected request body ledger).1 = ledger
          ∧ request = .ok () ∧ body ledger = .ok (.discard value))
        ∨ ∃ after,
            (mutate surroundings ofStore ofStamp expected request body ledger).1 = after
            ∧ Committed surroundings expected request body ledger after value) := by
  unfold mutate at answered ⊢
  cases opened : surroundings.opening with
  | some error =>
      rw [opened] at answered
      cases answered
  | none =>
      rw [opened] at answered
      dsimp only at answered ⊢
      split at answered
      · cases answered
      · next ended =>
        cases Except.ok.inj answered
        simp only [bind_eq_ok, mapError_eq_ok] at ended
        obtain ⟨_, asked, _, current, done⟩ := ended
        exact ⟨checkStamp_eq_ok.mp current, Or.inl ⟨rfl, asked, done⟩⟩
      · next after result ended =>
        simp only [bind_eq_ok, mapError_eq_ok] at ended
        obtain ⟨_, asked, _, current, done⟩ := ended
        cases finished : surroundings.commit with
        | done =>
            rw [finished] at answered
            cases Except.ok.inj answered
            exact ⟨checkStamp_eq_ok.mp current, Or.inr
              ⟨after, rfl, opened, by simp [finished], asked, checkStamp_eq_ok.mp current, done⟩⟩
        | failed durable =>
            rw [finished] at answered
            cases answered

end SkillRanker.Storage
