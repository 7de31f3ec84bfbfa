import SkillRanker.Allowance.Setup

/-! The admission of one provider attempt: the guard is read again under the lock, matched
with the accounting, and the current window is charged in one transaction.
-/

namespace SkillRanker.Allowance

open SkillRanker.Library

/-- Where an admission depends on more than both stores and the clock. -/
inductive AdmitPoint
  /-- The guard lock and the budget after waiting for it. -/
  | locked
  /-- The budget after the second guard read. -/
  | reread
  /-- The budget after the lock of an unconfigured allowance is dropped. -/
  | released
  /-- The database files, connection and transaction. -/
  | opened
  /-- The budget after the generations matched. -/
  | matched
  /-- The budget after the charge total was verified. -/
  | verified
  /-- The debit's statements up to the commit. -/
  | written
  /-- The files and the budget after the commit. -/
  | settled
deriving DecidableEq, Repr

/-- The surroundings of one admission. `now` is the wall clock in milliseconds, `none` for
a clock before 1970.
-/
structure AdmitEnv where
  persistent : Bool
  check : AdmitPoint → Except AllowanceError Unit
  now : Option UInt64
  attemptId : String
  commit : Commit

/-- Surroundings that let an admission through at the reading `now`. -/
def AdmitEnv.quiet (now : UInt64) (attemptId : String) : AdmitEnv :=
  {
    persistent := true
    check := fun _ => .ok ()
    now := some now
    attemptId := attemptId
    commit := .done
  }

/-- One durable debit, made before its request is sent. -/
structure Debit where
  attemptId : String
  guardGeneration : Nat
  windowStartUnixMs : Nat
  chargedAttempts : Nat
  maxAttempts : Nat
deriving DecidableEq, Repr

inductive Admission
  /-- No allowance is configured. -/
  | unguarded
  | debited (debit : Debit)
deriving DecidableEq, Repr

/-- What an admission has established just before it writes its debit. -/
structure Reservation where
  guard : Guard
  accounting : Accounting
  now : Nat
  windowStart : Nat
  used : Nat

/-- The checks of `admit` before its writes; `none` when no allowance is configured. -/
def reserve (env : AdmitEnv) (store : Store) (origin : Origin)
    : Except AllowanceError (Option Reservation) := do
  let unlocked ← store.readGuard
  match unlocked with
  | none => return none
  | some _ =>
      ensure env.persistent
        (.state "an enforced allowance cannot be checked with persistence disabled")
      env.check .locked
      let found ← store.readGuard
      env.check .reread
      match found with
      | none =>
          env.check .released
          return none
      | some guard =>
          ensure (guard.phase = .ready)
            (.state "allowance setup is incomplete; rerun sr budget --apply to finish it")
          let opened ← openWriter store.accounting false
          env.check .opened
          let found ← readMeta opened
          let metadata ← require found (.state "the accounting database is not initialized")
          ensure (metadata.readyGeneration = guard.generation)
            (.state
              ("the accounting generation does not match the guard; "
                ++ "rerun sr budget --apply"))
          env.check .matched
          let clock ← require env.now (.state "the wall clock reads before 1970")
          let now := clock.toNat
          ensure (metadata.lastChargeUnixMs ≤ now)
            (.state
              "the clock is behind recorded charges; charges are kept until it passes them")
          let (windowStart, windowEnd) := windowBounds now
          match opened with
          | .tables accounting =>
              let used ← verifiedCharged accounting origin windowStart
              env.check .verified
              ensure (used < guard.maxAttempts) (.exhausted guard.maxAttempts windowEnd)
              return some { guard, accounting, now, windowStart, used }
          | _ => .error (.state "the accounting database is not initialized")

def Reservation.receipt (reservation : Reservation) (env : AdmitEnv) (origin : Origin)
    (stage : RankingStage)
    : Receipt :=
  {
    attemptId := env.attemptId
    origin := origin
    windowStartUnixMs := reservation.windowStart
    guardGeneration := reservation.guard.generation
    stage := stage
    chargedAtUnixMs := asI64 reservation.now
  }

def Reservation.debit (reservation : Reservation) (env : AdmitEnv) : Debit :=
  {
    attemptId := env.attemptId
    guardGeneration := reservation.guard.generation
    windowStartUnixMs := reservation.windowStart
    chargedAttempts := reservation.used + 1
    maxAttempts := reservation.guard.maxAttempts
  }

/-- `admit`: checks the guard and, when it is ready, debits one attempt durably. A debit
that may be durable is never refunded, even when the admission is then withheld.
-/
def admitAttempt (env : AdmitEnv) (store : Store) (origin : Origin) (stage : RankingStage)
    : Store × Except AllowanceError Admission :=
  match reserve env store origin with
  | .error error => (store, .error error)
  | .ok none => (store, .ok .unguarded)
  | .ok (some reservation) =>
      match reservation.accounting.debit (reservation.receipt env origin stage) with
      | none =>
          (store, .error (.state "the debit cannot be recorded; storage may be full"))
      | some accounting =>
          let charged : Store := { store with accounting := .tables accounting }
          match env.check .written with
          | .error error => (store, .error error)
          | .ok () =>
              match env.commit with
              | .failed durable =>
                  (if durable then charged else store,
                    .error (.state "the debit cannot be committed durably"))
              | .done =>
                  match env.check .settled with
                  | .error error => (charged, .error error)
                  | .ok () => (charged, .ok (.debited (reservation.debit env)))

-- The effects of one admission on the two stores

-- The checks before a debit

/-- Everything an admission has established when it writes its debit. -/
structure Reserved (env : AdmitEnv) (store : Store) (origin : Origin)
    (reservation : Reservation)
    : Prop where
  guard : store.readGuard = .ok (some reservation.guard)
  ready : reservation.guard.phase = .ready
  tables : store.accounting = .tables reservation.accounting
  generations
    : reservation.accounting.metadata.readyGeneration = reservation.guard.generation
  clock : ∃ reading, env.now = some reading ∧ reservation.now = reading.toNat
  notBehind : reservation.accounting.metadata.lastChargeUnixMs ≤ reservation.now
  window : reservation.windowStart = (windowBounds reservation.now).1
  inRange : reservation.windowStart ≤ i64Max
  used : reservation.accounting.total origin reservation.windowStart = reservation.used
  below : reservation.used < reservation.guard.maxAttempts

theorem reserve_reserved {env : AdmitEnv} {store : Store} {origin : Origin}
    {reservation : Reservation}
    (found : reserve env store origin = .ok (some reservation))
    : Reserved env store origin reservation := by
  simp only [reserve, bind_eq_ok] at found
  obtain ⟨unlocked, first, found⟩ := found
  cases unlocked with
  | none => simp at found
  | some _ =>
      simp only [bind_eq_ok, ensure_eq_ok] at found
      obtain ⟨_, _, _, _, guard, reread, _, _, found⟩ := found
      cases guard with
      | none => simp at found
      | some guard =>
          simp only [bind_eq_ok, ensure_eq_ok, require_eq_ok] at found
          obtain ⟨_, ready, opened, file, _, _, _, read, metadata, rfl, _, generations, _, _,
            reading, clock, _, notBehind, found⟩ := found
          obtain ⟨accounting, tables, rfl⟩ := openWriter_false_eq_ok file
          simp only [bind_eq_ok, ensure_eq_ok, pure_eq_ok, Option.some.injEq] at found
          obtain ⟨used, verified, _, _, _, below, rfl⟩ := found
          obtain ⟨total, inRange, _, _⟩ := verifiedCharged_eq_ok.mp verified
          simp only [readMeta, bind_eq_ok, pure_eq_ok, Option.some.injEq] at read
          obtain ⟨_, _, rfl⟩ := read
          exact ⟨reread, ready, tables, generations, ⟨reading, clock, rfl⟩, notBehind, rfl,
            inRange, total, below⟩

/-- What one admission leaves behind and answers: either the stores as they were and no
debit, or the stores with one debit, reported as such or withheld.
-/
inductive AdmitEffect (env : AdmitEnv) (store : Store) (origin : Origin)
    (stage : RankingStage)
    : Store → Except AllowanceError Admission → Prop
  | withheld {result} (none : ∀ debit, result ≠ .ok (.debited debit))
    : AdmitEffect env store origin stage store result
  | charged {reservation accounting result}
    (found : reserve env store origin = .ok (some reservation))
    (written
      : reservation.accounting.debit (reservation.receipt env origin stage) = some accounting)
    (reported
      : ∀ debit, result = .ok (.debited debit) → debit = reservation.debit env)
    : AdmitEffect env store origin stage { store with accounting := .tables accounting } result

/-- Every admission has one of the two effects, by the points at which it can end. -/
theorem admit_effect (env : AdmitEnv) (store : Store) (origin : Origin)
    (stage : RankingStage)
    : AdmitEffect env store origin stage (admitAttempt env store origin stage).1
        (admitAttempt env store origin stage).2 := by
  unfold admitAttempt
  cases checked : reserve env store origin with
  | error error => exact .withheld (by simp)
  | ok found =>
      cases found with
      | none => exact .withheld (by simp)
      | some reservation =>
          dsimp only
          cases written : reservation.accounting.debit (reservation.receipt env origin stage)
            with
          | none => exact .withheld (by simp)
          | some accounting =>
              dsimp only
              cases env.check .written with
              | error error => exact .withheld (by simp)
              | ok _ =>
                  cases env.commit with
                  | failed durable =>
                      cases durable
                      · exact .withheld (by simp)
                      · exact .charged checked written (by simp)
                  | done =>
                      cases env.check .settled with
                      | error error => exact .charged checked written (by simp)
                      | ok _ =>
                          refine .charged checked written ?_
                          intro debit same
                          simpa using same.symm

-- The debit

/-- The windows a debit prunes start before this. -/
def Receipt.horizon (receipt : Receipt) : Nat :=
  receipt.windowStartUnixMs - retainedWindows * windowMs

variable {accounting charged : Accounting}

section

variable {receipt : Receipt} (written : accounting.debit receipt = some charged)
include written

/-- What a recorded debit does to one total: pruned, charged or kept. -/
theorem Accounting.total_debit (origin : Origin) (windowStart : Nat)
    : charged.total origin windowStart
      = if windowStart < receipt.horizon then 0
        else if origin = receipt.origin ∧ windowStart = receipt.windowStartUnixMs then
          accounting.total origin windowStart + 1
        else accounting.total origin windowStart := by
  unfold Accounting.debit at written
  split at written
  · cases written
  · cases written
    simp only [Accounting.total, Receipt.horizon]
    by_cases closed : windowStart < receipt.windowStartUnixMs - retainedWindows * windowMs
    · simp only [closed, if_true, Option.getD_none]
    · simp only [closed, if_false]
      split <;> simp only [Option.getD_some]

theorem Accounting.receipts_debit (origin : Origin) (windowStart : Nat)
    : charged.receipts origin windowStart
      = if windowStart < receipt.horizon then []
        else if origin = receipt.origin ∧ windowStart = receipt.windowStartUnixMs then
          accounting.receipts origin windowStart ++ [receipt]
        else accounting.receipts origin windowStart := by
  have kept (rows : List Receipt) (unpruned : ¬ windowStart < receipt.horizon)
      : (rows.filter (fun row => ¬ row.windowStartUnixMs < receipt.horizon)).filter
          (fun row => row.origin = origin ∧ row.windowStartUnixMs = windowStart)
        = rows.filter
            (fun row => row.origin = origin ∧ row.windowStartUnixMs = windowStart) := by
    rw [List.filter_filter]
    apply List.filter_congr
    intro row _
    by_cases same : row.windowStartUnixMs = windowStart
    · simp [same, unpruned]
    · simp [same]
  unfold Accounting.debit at written
  split at written
  · cases written
  · cases written
    unfold Accounting.receipts
    split
    case isTrue closed =>
      rw [List.filter_filter, List.filter_eq_nil_iff]
      intro row _
      simp only [Receipt.horizon] at closed
      simp only [Bool.and_eq_true, decide_eq_true_eq, not_and]
      rintro ⟨_, rfl⟩ retained
      exact retained closed
    case isFalse unpruned =>
      rw [show receipt.windowStartUnixMs - retainedWindows * windowMs = receipt.horizon from
        rfl, kept _ unpruned, List.filter_append]
      split
      case isTrue same =>
        simp [same.1, same.2]
      case isFalse other =>
        have absent : ¬ (receipt.origin = origin ∧ receipt.windowStartUnixMs = windowStart) :=
          fun ⟨left, right⟩ => other ⟨left.symm, right.symm⟩
        simp [absent]

/-- A recorded debit moves the latest charge to its own time, when that is later. -/
theorem Accounting.metadata_debit
    : charged.metadata
      = {
          accounting.metadata with
          lastChargeUnixMs :=
            (max (accounting.metadata.lastChargeUnixMs : Int) receipt.chargedAtUnixMs).toNat
        } := by
  unfold Accounting.debit at written
  split at written
  · cases written
  · cases written
    rfl

end

end SkillRanker.Allowance
