import SkillRanker.Library.Fallible
import SkillRanker.Primitives

/-! The two stores of the request allowance: the guard file and the accounting database.
No transaction spans both, so every reader checks one against the other.
-/

namespace SkillRanker.Allowance

open SkillRanker.Library

-- Limits and errors

def maxAttemptsLimit : Nat := 10000

def windowMs : Nat := 3600000

def windowText : String := "1h"

def guardSchemaVersion : Nat := 1

def accountingSchemaVersion : Int := 1

/-- Attempt rows older than this many closed windows no longer apply. -/
def retainedWindows : Nat := 24

inductive AllowanceError
  | state (why : String)
  | exhausted (maxAttempts windowEndUnixMs : Nat)
  | invalidRequest (why : String)
deriving DecidableEq, Repr

/-- The start and the end of the window containing `now`; the end wraps as a `u64`. -/
def windowBounds (now : Nat) : Nat × Nat :=
  let start := now - now % windowMs
  (start, (start + windowMs) % 2 ^ 64)

-- The guard file

inductive GuardPhase
  | intent
  | ready
deriving DecidableEq, Repr

def GuardPhase.asStr : GuardPhase → String
  | .intent => "intent"
  | .ready => "ready"

structure Guard where
  phase : GuardPhase
  generation : Nat
  maxAttempts : Nat
deriving DecidableEq, Repr

/-- The fields of the guard file as its strict TOML text holds them. -/
structure GuardRecord where
  schemaVersion : Nat
  state : String
  generation : Nat
  maxAttempts : Nat
  window : String
deriving DecidableEq, Repr

def GuardPhase.decode (text : String) : Option GuardPhase :=
  if text = "intent" then some .intent
  else if text = "ready" then some .ready
  else none

def Guard.decode (record : GuardRecord) : Except AllowanceError Guard := do
  let phase ← require (GuardPhase.decode record.state)
    (.state "the guard file names an unknown state")
  ensure
    (record.schemaVersion = guardSchemaVersion
      ∧ record.window = windowText
      ∧ record.generation ≠ 0
      ∧ record.generation ≤ i64Max
      ∧ 1 ≤ record.maxAttempts
      ∧ record.maxAttempts ≤ maxAttemptsLimit)
    (.state "the guard file is outside its supported schema")
  return { phase, generation := record.generation, maxAttempts := record.maxAttempts }

def Guard.encode (guard : Guard) : GuardRecord :=
  {
    schemaVersion := guardSchemaVersion
    state := guard.phase.asStr
    generation := guard.generation
    maxAttempts := guard.maxAttempts
    window := windowText
  }

structure Guard.Valid (guard : Guard) : Prop where
  generation_pos : guard.generation ≠ 0
  generation_le : guard.generation ≤ i64Max
  maxAttempts_pos : 1 ≤ guard.maxAttempts
  maxAttempts_le : guard.maxAttempts ≤ maxAttemptsLimit

/-- A published guard with valid values is read back unchanged. -/
theorem Guard.decode_encode {guard : Guard} (valid : guard.Valid)
    : Guard.decode guard.encode = .ok guard := by
  have phaseRead : GuardPhase.decode guard.phase.asStr = some guard.phase := by
    cases guard.phase <;> decide
  simp only [Guard.decode, bind_eq_ok, require_eq_ok, ensure_eq_ok, pure_eq_ok]
  exact ⟨guard.phase, phaseRead, (), ⟨rfl, rfl, valid.generation_pos, valid.generation_le,
    valid.maxAttempts_pos, valid.maxAttempts_le⟩, rfl⟩

theorem Guard.decode_valid {record : GuardRecord} {guard : Guard}
    (read : Guard.decode record = .ok guard)
    : guard.Valid := by
  simp only [Guard.decode, bind_eq_ok, require_eq_ok, ensure_eq_ok, pure_eq_ok] at read
  obtain ⟨phase, _, _, ⟨_, _, positive, bounded, some, most⟩, rfl⟩ := read
  exact ⟨positive, bounded, some, most⟩

-- The accounting database

abbrev Origin := String

/-- The single row of `allowance_meta`. -/
structure Metadata where
  schemaVersion : Int
  readyGeneration : Nat
  lastChargeUnixMs : Nat
deriving DecidableEq, Repr

/-- One row of `allowance_attempts`: the receipt of one charged attempt. -/
structure Receipt where
  attemptId : String
  origin : Origin
  windowStartUnixMs : Nat
  guardGeneration : Nat
  stage : RankingStage
  chargedAtUnixMs : Int
deriving DecidableEq, Repr

/-- The three tables. `charges` is `allowance_charges` by its primary key. -/
structure Accounting where
  metadata : Metadata
  charges : Origin → Nat → Option Nat
  attempts : List Receipt

/-- What stands at the path of the accounting database: nothing, a database without any
table, or the tables of a finished setup step.
-/
inductive AccountingFile
  | absent
  | empty
  | tables (accounting : Accounting)

structure Store where
  guard : Option GuardRecord
  accounting : AccountingFile

/-- Before the first setup there is neither guard nor accounting. -/
def Store.initial : Store := { guard := none, accounting := .absent }

def Store.readGuard (store : Store) : Except AllowanceError (Option Guard) :=
  match store.guard with
  | none => .ok none
  | some record => do return some (← Guard.decode record)

def readMeta : AccountingFile → Except AllowanceError (Option Metadata)
  | .absent => .ok none
  | .empty => .ok none
  | .tables accounting => do
      ensure
        (accounting.metadata.schemaVersion = accountingSchemaVersion
          ∧ accounting.metadata.readyGeneration ≠ 0)
        (.state "the accounting metadata is outside its supported schema")
      return some accounting.metadata

def Accounting.receipts (accounting : Accounting) (origin : Origin) (windowStart : Nat)
    : List Receipt :=
  accounting.attempts.filter
    (fun receipt => receipt.origin = origin ∧ receipt.windowStartUnixMs = windowStart)

def Accounting.total (accounting : Accounting) (origin : Origin) (windowStart : Nat)
    : Nat :=
  (accounting.charges origin windowStart).getD 0

def charged (accounting : Accounting) (origin : Origin) (windowStart : Nat)
    : Except AllowanceError Nat := do
  ensure (windowStart ≤ i64Max)
    (.state "the accounting window is outside its supported range")
  let attempts := accounting.total origin windowStart
  ensure (attempts ≤ u32Max) (.state "the stored attempt count is invalid")
  return attempts

/-- `verified_charged`: the total, when it agrees with the receipts. One excess receipt is
enough to tell, so at most one more than the total is counted.
-/
def verifiedCharged (accounting : Accounting) (origin : Origin) (windowStart : Nat)
    : Except AllowanceError Nat := do
  let attempts ← charged accounting origin windowStart
  let receipts := ((accounting.receipts origin windowStart).take (attempts + 1)).length
  ensure (receipts = attempts)
    (.state
      ("the accounting charge total disagrees with its attempt receipts; "
        ++ "restore consistent history"))
  return attempts

/-- The writes of one debit: charge, receipt, latest charge, and pruning of the windows
long closed. `none` when the attempt id is already recorded, as it is a primary key.
-/
def Accounting.debit (accounting : Accounting) (receipt : Receipt) : Option Accounting :=
  if accounting.attempts.any (fun row => row.attemptId = receipt.attemptId) then none
  else
    let horizon := receipt.windowStartUnixMs - retainedWindows * windowMs
    some
      {
        metadata :=
          {
            accounting.metadata with
            lastChargeUnixMs :=
              (max (accounting.metadata.lastChargeUnixMs : Int) receipt.chargedAtUnixMs).toNat
          }
        charges := fun origin windowStart =>
          if windowStart < horizon then none
          else if origin = receipt.origin ∧ windowStart = receipt.windowStartUnixMs then
            some (accounting.total origin windowStart + 1)
          else accounting.charges origin windowStart
        attempts :=
          (accounting.attempts ++ [receipt]).filter
            (fun row => ¬ row.windowStartUnixMs < horizon)
      }

/-- The upsert of setup: the tables with a new generation, everything else kept. -/
def AccountingFile.setGeneration (file : AccountingFile) (generation : Nat) : Accounting :=
  match file with
  | .tables accounting =>
      { accounting with metadata := { accounting.metadata with readyGeneration := generation } }
  | _ =>
      {
        metadata :=
          {
            schemaVersion := accountingSchemaVersion
            readyGeneration := generation
            lastChargeUnixMs := 0
          }
        charges := fun _ _ => none
        attempts := []
      }

/-- Opening the database for writing: only a first activation creates it, and only it may
find a database without tables.
-/
def openWriter (file : AccountingFile) (create : Bool)
    : Except AllowanceError AccountingFile := do
  let opened ←
    match file, create with
    | .absent, false => .error (.state "the accounting database is missing")
    | .absent, true => .ok AccountingFile.empty
    | file, _ => .ok file
  let found ← readMeta opened
  ensure (found.isSome ∨ create) (.state "the accounting database is not initialized")
  return opened

/-- A verified total is the stored one, within range, and counts the receipts; witness:
a prefix one longer than the total tells the count from the total.
-/
theorem verifiedCharged_eq_ok {accounting : Accounting} {origin : Origin}
    {windowStart used : Nat}
    : verifiedCharged accounting origin windowStart = .ok used
      ↔ accounting.total origin windowStart = used
        ∧ windowStart ≤ i64Max
        ∧ used ≤ u32Max
        ∧ (accounting.receipts origin windowStart).length = used := by
  simp only [verifiedCharged, charged, bind_eq_ok, ensure_eq_ok, pure_eq_ok,
    List.length_take]
  constructor
  · rintro ⟨_, ⟨_, inside, _, bounded, rfl⟩, _, agree, rfl⟩
    exact ⟨rfl, inside, bounded, by omega⟩
  · rintro ⟨rfl, inside, bounded, agree⟩
    exact ⟨_, ⟨(), inside, (), bounded, rfl⟩, (), by omega, rfl⟩

/-- Opening for writing without creation finds the tables it is given. -/
theorem openWriter_false_eq_ok {file opened : AccountingFile}
    (result : openWriter file false = .ok opened)
    : ∃ accounting, file = .tables accounting ∧ opened = .tables accounting := by
  cases file with
  | absent => simp [openWriter] at result
  | empty => simp [openWriter, readMeta] at result
  | tables accounting =>
      simp only [openWriter, bind_eq_ok, pure_eq_ok, Except.ok.injEq] at result
      obtain ⟨_, rfl, _, _, _, _, rfl⟩ := result
      exact ⟨accounting, rfl, rfl⟩

end SkillRanker.Allowance
