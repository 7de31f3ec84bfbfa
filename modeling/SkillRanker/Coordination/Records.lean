import Mathlib.Data.Nat.Digits.Defs
import SkillRanker.Coordination.Lease

/-! What the lease transactions read and write, as records instead of columns. -/

namespace SkillRanker.Coordination

open SkillRanker.Library

variable {generation now ttl : Nat} {leases : Leases} {key : CoordinationKey}
  {token : Except String OwnerToken} {result : Leases × LeaseAcquisition}

-- Columns and records

structure LeaseRecord.Valid (record : LeaseRecord) : Prop where
  generation_pos : record.fencingGeneration ≠ 0
  generation_le : record.fencingGeneration ≤ i64Max
  ordered : record.acquiredAtUnixMs ≤ record.expiresAtUnixMs
  expires_le : record.expiresAtUnixMs ≤ i64Max
  attemptId : record.attemptId.utf8ByteSize ≤ 128

theorem unsigned_asI64 {value : Nat} (fits : value ≤ i64Max)
    : unsigned (asI64 value) = .ok value := by
  rw [asI64_of_le fits, unsigned, if_pos (Int.natCast_nonneg value), Int.toNat_natCast]

theorem tokenOf_toList (token : OwnerToken) : tokenOf token.toList = .ok token := by
  rw [tokenOf, dif_pos (by simp)]
  rfl

/-- A valid record is read back from its columns. -/
theorem check_stored {record : LeaseRecord} (valid : record.Valid)
    : record.stored.check = .ok record := by
  have acquired := Nat.le_trans valid.ordered valid.expires_le
  simp only [StoredLease.check, LeaseRecord.stored, bind_eq_ok, pure_eq_ok]
  refine ⟨_, tokenOf_toList _, _, unsigned_asI64 valid.generation_le, _,
    unsigned_asI64 acquired, _, unsigned_asI64 valid.expires_le, (), ensure_eq_ok.mpr ?_, ?_⟩
  · rintro (zero | early | flag | long)
    · exact valid.generation_pos zero
    · exact absurd valid.ordered (Nat.not_le.mpr early)
    · cases completed : record.isCompleted <;> simp [completed] at flag
    · exact absurd valid.attemptId (Nat.not_le.mpr long)
  · cases record with
    | mk token generation acquired expires attemptId isCompleted => cases isCompleted <;> rfl

/-- The text of an attempt id fits its column, as a generation has few digits. -/
theorem attemptId_le (bounded : generation ≤ i64Max)
    : ("att-proc-" ++ toString generation).utf8ByteSize ≤ 128 := by
  have text : (toString generation).utf8ByteSize ≤ 80 :=
    utf8ByteSize_toString_le (by unfold i64Max at bounded; omega)
  rw [String.utf8ByteSize_append]
  have label : "att-proc-".utf8ByteSize = 9 := by decide
  omega

-- Transactions on sound rows

/-- Every row holds a valid record. -/
def Leases.Sound (leases : Leases) : Prop :=
  ∀ key row, leases key = some row → ∃ record : LeaseRecord, record.Valid ∧ row = record.stored

def Leases.record (leases : Leases) (key : CoordinationKey) : Option LeaseRecord :=
  match checkLease leases key with
  | .ok record => record
  | .error _ => none

theorem Leases.Sound.checkLease_eq (sound : leases.Sound) (key : CoordinationKey)
    : checkLease leases key = .ok (leases.record key) := by
  unfold Leases.record checkLease
  cases found : leases key with
  | none => rfl
  | some row =>
      obtain ⟨record, valid, rfl⟩ := sound key row found
      simp [check_stored valid, bind, Except.bind, pure, Except.pure]

/-- A record that is there is valid and written in its row. -/
theorem Leases.Sound.row (sound : leases.Sound) {record : LeaseRecord}
    (known : leases.record key = some record)
    : record.Valid ∧ leases key = some record.stored := by
  cases found : leases key with
  | none => simp [Leases.record, checkLease, found] at known
  | some row =>
      obtain ⟨written, valid, rfl⟩ := sound key row found
      simp only [Leases.record, checkLease, found, check_stored valid, bind, Except.bind, pure,
        Except.pure, Option.some.injEq] at known
      subst known
      exact ⟨valid, rfl⟩

theorem Leases.Sound.write (sound : leases.Sound) (key : CoordinationKey) {record : LeaseRecord}
    (valid : record.Valid)
    : (leases.write key record.stored).Sound := by
  intro other row found
  by_cases same : other = key
  · subst same
    rw [Leases.write, Function.update_self] at found
    cases found
    exact ⟨record, valid, rfl⟩
  · rw [Leases.write, Function.update_of_ne same] at found
    exact sound other row found

theorem Leases.record_write {record : LeaseRecord} (valid : record.Valid) (other : CoordinationKey)
    : (leases.write key record.stored).record other
      = if other = key then some record else leases.record other := by
  unfold Leases.record checkLease Leases.write
  by_cases same : other = key
  · subst same
    simp [check_stored valid, bind, Except.bind, pure, Except.pure]
  · simp [same]

def LeaseRecord.leader (record : LeaseRecord) (key : CoordinationKey) : LeaderContext :=
  {
    key := key
    ownerToken := record.ownerToken
    fencingGeneration := record.fencingGeneration
    leaseExpiresAtUnixMs := record.expiresAtUnixMs
    attemptId := record.attemptId
  }

/-- What an acquisition does to sound rows. -/
inductive AcquireEffect (leases : Leases) (key : CoordinationKey)
    : Leases × LeaseAcquisition → Prop
  | following {generation expires}
    : AcquireEffect leases key (leases, .following key generation expires)
  | completed {record} (known : leases.record key = some record)
    (done : record.isCompleted = true)
    : AcquireEffect leases key (leases, .alreadyCompleted)
  | leading {record : LeaseRecord} (valid : record.Valid) (fresh : record.isCompleted = false)
    (newer
      : ∀ old,
          leases.record key = some old → old.fencingGeneration < record.fencingGeneration)
    : AcquireEffect leases key
        (leases.write key record.stored, .leading (record.leader key))

variable {expiry : Nat}

/-- A leader is written with the generation and the times it was given. -/
theorem lead_effect (timed : leaseExpiry now ttl = .ok expiry) (positive : generation ≠ 0)
    (bounded : generation ≤ i64Max)
    (newer : ∀ old, leases.record key = some old → old.fencingGeneration < generation)
    (led : lead leases key now expiry generation token = .ok result)
    : AcquireEffect leases key result := by
  simp only [lead, bind_eq_ok, mapError_eq_ok, pure_eq_ok] at led
  obtain ⟨owner, _, rfl⟩ := led
  simp only [leaseExpiry, require_eq_ok, Option.filter_eq_some_iff, checkedAdd,
    decide_eq_true_eq, Option.ite_none_right_eq_some, Option.some.injEq] at timed
  obtain ⟨⟨_, rfl⟩, _, within⟩ := timed
  have valid
      : LeaseRecord.Valid
          ⟨owner, generation, now, now + ttl, "att-proc-" ++ toString generation, false⟩ :=
    ⟨positive, bounded, Nat.le_add_right _ _, within, attemptId_le bounded⟩
  exact .leading valid rfl newer

theorem nextLeaseGeneration_eq_ok {current next : Nat}
    (found : nextLeaseGeneration current = .ok next)
    : next = current + 1 ∧ next ≤ i64Max := by
  simp only [nextLeaseGeneration, require_eq_ok, Option.filter_eq_some_iff, checkedAdd,
    decide_eq_true_eq, Option.ite_none_right_eq_some, Option.some.injEq] at found
  obtain ⟨⟨_, rfl⟩, _, within⟩ := found
  exact ⟨rfl, within⟩

/-- A takeover leads with the generation after the record it replaces. -/
theorem takeover_effect {next : Nat} {old : LeaseRecord} (timed : leaseExpiry now ttl = .ok expiry)
    (known : leases.record key = some old)
    (after : nextLeaseGeneration old.fencingGeneration = .ok next)
    (led : lead leases key now expiry next token = .ok result)
    : AcquireEffect leases key result := by
  obtain ⟨rfl, bounded⟩ := nextLeaseGeneration_eq_ok after
  refine lead_effect timed (Nat.succ_ne_zero _) bounded ?_ led
  intro other same
  cases known.symm.trans same
  exact Nat.lt_succ_self _

/-- The first leader of a key has nothing before it. -/
theorem first_effect (timed : leaseExpiry now ttl = .ok expiry) (missing : leases.record key = none)
    (led : lead leases key now expiry 1 token = .ok result)
    : AcquireEffect leases key result := by
  refine lead_effect timed Nat.one_ne_zero (by decide) ?_ led
  intro old found
  cases missing.symm.trans found

variable (sound : leases.Sound)
include sound

/-- An acquisition that answers follows, finds a completed record or leads. -/
theorem acquire_effect (answered : acquire leases key now ttl token = .ok result)
    : AcquireEffect leases key result := by
  simp only [acquire, bind_eq_ok, sound.checkLease_eq, Except.ok.injEq] at answered
  obtain ⟨expiry, timed, row, known, answered⟩ := answered
  cases row with
  | none => exact first_effect timed known answered
  | some existing =>
      simp only [bind_eq_ok] at answered
      obtain ⟨_, _, answered⟩ := answered
      split at answered
      · split at answered
        · rename_i completed
          cases answered
          exact .completed known completed
        · cases answered
          exact .following
      · obtain ⟨next, after, led⟩ := bind_eq_ok.mp answered
        exact takeover_effect timed known after led

theorem forceReacquire_effect (answered : forceReacquire leases key now ttl token = .ok result)
    : AcquireEffect leases key result := by
  simp only [forceReacquire, bind_eq_ok, sound.checkLease_eq, Except.ok.injEq] at answered
  obtain ⟨expiry, timed, row, known, answered⟩ := answered
  cases row with
  | none => exact first_effect timed known answered
  | some existing =>
      simp only [bind_eq_ok] at answered
      obtain ⟨_, _, answered⟩ := answered
      split at answered
      · cases answered
        exact .following
      · obtain ⟨next, after, led⟩ := bind_eq_ok.mp answered
        exact takeover_effect timed known after led

structure LeaseRecord.Publishable (record : LeaseRecord) (token : OwnerToken)
    (generation now : Nat) : Prop where
  unused : record.isCompleted = false
  token : record.ownerToken = token
  generation : record.fencingGeneration = generation
  started : record.acquiredAtUnixMs ≤ now
  unexpired : now < record.expiresAtUnixMs

def LeaseRecord.completed (record : LeaseRecord) : LeaseRecord :=
  { record with isCompleted := true }

omit sound in
/-- Completing keeps a record valid, as no bound speaks of the flag. -/
theorem LeaseRecord.Valid.completed {record : LeaseRecord} (valid : record.Valid)
    : record.completed.Valid :=
  ⟨valid.generation_pos, valid.generation_le, valid.ordered, valid.expires_le,
    valid.attemptId⟩

inductive CompleteEffect (leases : Leases) (key : CoordinationKey) (token : OwnerToken)
    (generation now : Nat)
    : Leases × PublishOutcome → Prop
  | superseded {current}
    : CompleteEffect leases key token generation now (leases, .superseded generation current)
  | published {record : LeaseRecord} (known : leases.record key = some record)
    (publishable : record.Publishable token generation now)
    : CompleteEffect leases key token generation now
        (leases.write key record.completed.stored, .published)

/-- Marking the row of a known record writes the completed record. -/
theorem Leases.Sound.markCompleted_eq {record : LeaseRecord}
    (known : leases.record key = some record)
    : leases.markCompleted key = leases.write key record.completed.stored := by
  obtain ⟨_, row⟩ := sound.row known
  rw [Leases.markCompleted, Leases.write, row]
  rfl

/-- A completion that answers is superseded or publishes the record it checked. -/
theorem complete_effect {token : OwnerToken} {result : Leases × PublishOutcome}
    (answered : complete leases key token generation now = .ok result)
    : CompleteEffect leases key token generation now result := by
  simp only [complete, bind_eq_ok, sound.checkLease_eq, Except.ok.injEq] at answered
  obtain ⟨row, known, answered⟩ := answered
  cases row with
  | none =>
      cases answered
      exact .superseded
  | some record =>
      simp only [LeaseRecord.checkTime, bind_eq_ok, ensure_eq_ok] at answered
      obtain ⟨_, timed, answered⟩ := answered
      split at answered
      · cases answered
        exact .superseded
      · rename_i current
        cases answered
        rw [sound.markCompleted_eq known]
        simp only [not_or, Bool.not_eq_true, not_not, Nat.not_le] at current
        obtain ⟨unused, owner, same, unexpired⟩ := current
        refine .published known ⟨unused, owner, same, ?_, unexpired⟩
        exact Nat.le_of_not_lt (fun early => timed (.inl early))

theorem complete_eq_published {token : OwnerToken} {record : LeaseRecord}
    (known : leases.record key = some record)
    (publishable : record.Publishable token generation now)
    : complete leases key token generation now
      = .ok (leases.markCompleted key, .published) := by
  have within := (sound.row known).1.expires_le
  have unexpired := publishable.unexpired
  have started := publishable.started
  have timed : record.checkTime now = .ok () :=
    ensure_eq_ok.mpr (by omega)
  have current
      : ¬ (record.isCompleted ∨ record.ownerToken ≠ token
        ∨ record.fencingGeneration ≠ generation ∨ now ≥ record.expiresAtUnixMs) := by
    simp [publishable.unused, publishable.token, publishable.generation, unexpired]
  simp only [complete, sound.checkLease_eq, known, ok_bind, timed, if_neg current]
  rfl

end SkillRanker.Coordination
