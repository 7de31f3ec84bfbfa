import Mathlib.Logic.Function.Basic
import SkillRanker.Library.Fallible
import SkillRanker.Primitives

/-! The coordination leases of the cache: one row for each key, acquired, taken after expiry
and completed under a fencing generation.
-/

namespace SkillRanker.Coordination

open SkillRanker.Library

inductive CoordinationError
  | storageBusy
  | storageError (why : String)
  | invalidTimestamp
deriving DecidableEq, Repr

abbrev OwnerToken := Vector UInt8 16

/-- The digest that names one request in one namespace. -/
abbrev CoordinationKey := Vector UInt8 32

structure LeaseRecord where
  ownerToken : OwnerToken
  fencingGeneration : Nat
  acquiredAtUnixMs : Nat
  expiresAtUnixMs : Nat
  attemptId : String
  isCompleted : Bool
deriving DecidableEq

structure StoredLease where
  ownerToken : List UInt8
  fencingGeneration : Int
  acquiredAtUnixMs : Int
  expiresAtUnixMs : Int
  attemptId : String
  isCompleted : Int
deriving DecidableEq

/-- The rows by key. -/
abbrev Leases := CoordinationKey → Option StoredLease

/-- The end of a lease taken now, within what the store can hold. -/
def leaseExpiry (now ttl : Nat) : Except CoordinationError Nat :=
  require ((checkedAdd now ttl).filter (fun expiry => ttl ≠ 0 ∧ expiry ≤ i64Max))
    .invalidTimestamp

def nextLeaseGeneration (current : Nat) : Except CoordinationError Nat :=
  require ((checkedAdd current 1).filter (fun next => current ≠ 0 ∧ next ≤ i64Max))
    (.storageError "coordination fence generation exhausted")

def invalidLeaseRecord : CoordinationError :=
  .storageError "coordination lease contains invalid metadata"

def LeaseRecord.checkTime (record : LeaseRecord) (now : Nat) : Except CoordinationError Unit :=
  ensure (¬ (now < record.acquiredAtUnixMs ∨ now > i64Max)) .invalidTimestamp

structure LeaderContext where
  key : CoordinationKey
  ownerToken : OwnerToken
  fencingGeneration : Nat
  leaseExpiresAtUnixMs : Nat
  attemptId : String
deriving DecidableEq

inductive LeaseAcquisition
  | leading (leader : LeaderContext)
  | following (key : CoordinationKey) (leaderGeneration leaseExpiresAtUnixMs : Nat)
  | alreadyCompleted
deriving DecidableEq

inductive PublishOutcome
  | published
  | superseded (expectedGeneration : Nat) (currentGeneration : Option Nat)
deriving DecidableEq

-- Rows

/-- `u64::try_from` of a stored integer. -/
def unsigned (value : Int) : Except CoordinationError Nat :=
  if 0 ≤ value then .ok value.toNat else .error invalidLeaseRecord

def tokenOf (bytes : List UInt8) : Except CoordinationError OwnerToken :=
  if sized : bytes.length = 16 then .ok ⟨bytes.toArray, sized⟩ else .error invalidLeaseRecord

def StoredLease.check (row : StoredLease) : Except CoordinationError LeaseRecord := do
  let token ← tokenOf row.ownerToken
  let generation ← unsigned row.fencingGeneration
  let acquired ← unsigned row.acquiredAtUnixMs
  let expires ← unsigned row.expiresAtUnixMs
  ensure
    (¬ (generation = 0
      ∨ expires < acquired
      ∨ ¬ (row.isCompleted = 0 ∨ row.isCompleted = 1)
      ∨ row.attemptId.utf8ByteSize > 128))
    invalidLeaseRecord
  return {
    ownerToken := token
    fencingGeneration := generation
    acquiredAtUnixMs := acquired
    expiresAtUnixMs := expires
    attemptId := row.attemptId
    isCompleted := row.isCompleted = 1
  }

/-- `check_lease_on_connection`. -/
def checkLease (leases : Leases) (key : CoordinationKey)
    : Except CoordinationError (Option LeaseRecord) :=
  match leases key with
  | none => .ok none
  | some row => do return some (← row.check)

def LeaseRecord.stored (record : LeaseRecord) : StoredLease :=
  {
    ownerToken := record.ownerToken.toList
    fencingGeneration := asI64 record.fencingGeneration
    acquiredAtUnixMs := asI64 record.acquiredAtUnixMs
    expiresAtUnixMs := asI64 record.expiresAtUnixMs
    attemptId := record.attemptId
    isCompleted := if record.isCompleted then 1 else 0
  }

def Leases.write (leases : Leases) (key : CoordinationKey) (row : StoredLease) : Leases :=
  Function.update leases key (some row)

/-- Sets `is_completed` in the row of a key and no other column. -/
def Leases.markCompleted (leases : Leases) (key : CoordinationKey) : Leases :=
  Function.update leases key ((leases key).map (fun row => { row with isCompleted := 1 }))

-- Transactions

/-- Writes a lease for a new leader. The token comes from the system's random source. -/
def lead (leases : Leases) (key : CoordinationKey) (now expiry generation : Nat)
    (token : Except String OwnerToken)
    : Except CoordinationError (Leases × LeaseAcquisition) := do
  let token ← token.mapError .storageError
  let attemptId := "att-proc-" ++ toString generation
  let record : LeaseRecord :=
    {
      ownerToken := token
      fencingGeneration := generation
      acquiredAtUnixMs := now
      expiresAtUnixMs := expiry
      attemptId := attemptId
      isCompleted := false
    }
  return (
    leases.write key record.stored,
    .leading
      {
        key := key
        ownerToken := token
        fencingGeneration := generation
        leaseExpiresAtUnixMs := expiry
        attemptId := attemptId
      }
  )

/-- `acquire_in_transaction`: an unexpired lease is followed or already completed, an
expired one is taken over.
-/
def acquire (leases : Leases) (key : CoordinationKey) (now ttl : Nat)
    (token : Except String OwnerToken)
    : Except CoordinationError (Leases × LeaseAcquisition) := do
  let expiry ← leaseExpiry now ttl
  let row ← checkLease leases key
  match row with
  | some existing =>
      existing.checkTime now
      if now < existing.expiresAtUnixMs then
        if existing.isCompleted then return (leases, .alreadyCompleted)
        else
          return (leases, .following key existing.fencingGeneration existing.expiresAtUnixMs)
      else
        let generation ← nextLeaseGeneration existing.fencingGeneration
        lead leases key now expiry generation token
  | none => lead leases key now expiry 1 token

/-- `force_reacquire_in_transaction`: a completed lease is taken over as well. -/
def forceReacquire (leases : Leases) (key : CoordinationKey) (now ttl : Nat)
    (token : Except String OwnerToken)
    : Except CoordinationError (Leases × LeaseAcquisition) := do
  let expiry ← leaseExpiry now ttl
  let row ← checkLease leases key
  match row with
  | some existing =>
      existing.checkTime now
      if ¬ existing.isCompleted ∧ now < existing.expiresAtUnixMs then
        return (leases, .following key existing.fencingGeneration existing.expiresAtUnixMs)
      else
        let generation ← nextLeaseGeneration existing.fencingGeneration
        lead leases key now expiry generation token
  | none => lead leases key now expiry 1 token

/-- `active_lease_in_transaction`. -/
def activeLease (leases : Leases) (leader : LeaderContext) (now : Nat)
    : Except CoordinationError Bool := do
  let row ← checkLease leases leader.key
  return row.any (fun record =>
    !record.isCompleted
      && record.ownerToken = leader.ownerToken
      && record.fencingGeneration = leader.fencingGeneration
      && record.expiresAtUnixMs = leader.leaseExpiresAtUnixMs
      && now ≥ record.acquiredAtUnixMs
      && now < record.expiresAtUnixMs)

/-- `complete_in_transaction`: a single use of an unexpired lease by its owner. -/
def complete (leases : Leases) (key : CoordinationKey) (token : OwnerToken)
    (generation now : Nat)
    : Except CoordinationError (Leases × PublishOutcome) := do
  let row ← checkLease leases key
  match row with
  | none => return (leases, .superseded generation none)
  | some record =>
      record.checkTime now
      if record.isCompleted
          ∨ record.ownerToken ≠ token
          ∨ record.fencingGeneration ≠ generation
          ∨ now ≥ record.expiresAtUnixMs then
        return (leases, .superseded generation (some record.fencingGeneration))
      else
        return (leases.markCompleted key, .published)

end SkillRanker.Coordination
