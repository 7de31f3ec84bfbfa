import SkillRanker.Identity
import SkillRanker.Library.Texts
import SkillRanker.Library.Values

/-! Stage traces: entries of the ranking stages, given out in pages behind cursors. -/

namespace SkillRanker.Output

open SkillRanker.Library

def schemaVersion : UInt64 := 1

def maxTracePageItems : Nat := 128

def maxTraceItems : Nat := 80000

def maxTextBytes : Nat := 4096

inductive ContractError
  | invalidJson
  | unsupportedVersion
  | invalidField
  | inconsistentFields
  | limitExceeded
  | snapshotChanged
deriving DecidableEq

-- Identities

def validateSkillId (value : String) : Except IdentityError Unit := do
  validateId value
  ensure (value ≠ "__none__") .reservedOption

structure SkillId where
  text : String
  valid : validateSkillId text = .ok ()
deriving DecidableEq

/-- Sixty-four hexadecimal digits in lower case. -/
def isDigest (value : String) : Prop :=
  value.utf8ByteSize = 64
  ∧ ∀ char ∈ value.toList, char.isDigit = true ∨ 'a' ≤ char ∧ char ≤ 'f'

instance (value : String) : Decidable (isDigest value) :=
  @instDecidableAnd _ _ inferInstance (List.decidableBAll _ value.toList)

structure ContentHash where
  text : String
  digest : isDigest text
deriving DecidableEq

def ContentHash.parse (value : String) : Except IdentityError ContentHash :=
  if digest : isDigest value then .ok { text := value, digest := digest }
  else .error .invalidDigest

-- Entries

inductive TraceStage
  | discovery
  | visibility
  | localPolicy
  | quillAdmission
  | wideShortlist
  | fitNone
  | ordering
  | publication
deriving DecidableEq

def TraceStage.asStr : TraceStage → String
  | .discovery => "discovery"
  | .visibility => "visibility"
  | .localPolicy => "local-policy"
  | .quillAdmission => "quill-admission"
  | .wideShortlist => "wide-shortlist"
  | .fitNone => "fit-none"
  | .ordering => "ordering"
  | .publication => "publication"

inductive TraceStatus
  | passed
  | excluded
  | notEvaluated
  | notInSnapshot
deriving DecidableEq

def TraceStatus.asStr : TraceStatus → String
  | .passed => "passed"
  | .excluded => "excluded"
  | .notEvaluated => "not-evaluated"
  | .notInSnapshot => "not-in-snapshot"

/-- What one stage made of one skill. -/
structure TraceEntry where
  skillId : SkillId
  stage : TraceStage
  status : TraceStatus
  value : Option Double
  threshold : Option Double
  reason : Option String
  hint : Option String
deriving DecidableEq

namespace TraceEntry

def passed (skillId : SkillId) (stage : TraceStage) (reason : String)
    (value threshold : Option Double)
    : TraceEntry :=
  {
    skillId := skillId
    stage := stage
    status := .passed
    value := value
    threshold := threshold
    reason := some reason
    hint := none
  }

def excluded (skillId : SkillId) (stage : TraceStage) (reason : String)
    (value threshold : Option Double) (hint : Option String)
    : TraceEntry :=
  {
    skillId := skillId
    stage := stage
    status := .excluded
    value := value
    threshold := threshold
    reason := some reason
    hint := hint
  }

def notEvaluated (skillId : SkillId) (stage : TraceStage) : TraceEntry :=
  {
    skillId := skillId
    stage := stage
    status := .notEvaluated
    value := none
    threshold := none
    reason := none
    hint := none
  }

def notInSnapshot (skillId : SkillId) : TraceEntry :=
  {
    skillId := skillId
    stage := .discovery
    status := .notInSnapshot
    value := none
    threshold := none
    reason := none
    hint := some "inspect-roster"
  }

/-- An entry as it is written. A hint is left out where there is none. -/
def toValue (entry : TraceEntry) : Value :=
  .object
    ([
      ("skill_id", .string entry.skillId.text),
      ("stage", .string entry.stage.asStr),
      ("status", .string entry.status.asStr),
      ("value", .ofOption .ofDouble entry.value),
      ("threshold", .ofOption .ofDouble entry.threshold),
      ("reason", .ofOption .string entry.reason)
    ]
    ++ (entry.hint.map (fun hint => ("hint", Value.string hint))).toList)

end TraceEntry

-- Cursors

/-- A position in the entries of one query on one snapshot. -/
structure TraceCursor where
  schemaVersion : UInt64
  snapshotId : ContentHash
  queryId : ContentHash
  offset : UInt64
deriving DecidableEq

/-- `str::parse::<u64>`: digits with a plus sign before them or none. -/
def parseU64 (text : List Char) : Option UInt64 := do
  let digits :=
    match text with
    | '+' :: rest => rest
    | _ => text
  let value ← readDigits digits
  if value ≤ u64Max then some (.ofNat value) else none

namespace TraceCursor

def tokenWord : String := "t1"

def toToken (cursor : TraceCursor) : String :=
  .ofList
    (tokenWord.toList ++ '.' :: cursor.snapshotId.text.toList
      ++ '.' :: cursor.queryId.text.toList ++ '.' :: decimal 0 cursor.offset.toNat)

def fromToken (token : String) : Except ContractError TraceCursor :=
  match token.toList.splitOn '.' with
  | [word, snapshotHex, queryHex, offsetStr] => do
      ensure (String.ofList word = tokenWord) .unsupportedVersion
      let snapshotId ←
        (ContentHash.parse (String.ofList snapshotHex)).mapError
          (fun _ => ContractError.invalidField)
      let queryId ←
        (ContentHash.parse (String.ofList queryHex)).mapError (fun _ => ContractError.invalidField)
      let offset ← require (parseU64 offsetStr) .invalidField
      return {
        schemaVersion := Output.schemaVersion
        snapshotId := snapshotId
        queryId := queryId
        offset := offset
      }
  | _ => .error .invalidField

/-- The offset of a cursor, where it is for this snapshot and this query. -/
def resume (cursor : TraceCursor) (snapshot query : ContentHash) (total : Nat)
    : Except ContractError UInt64 := do
  ensure (cursor.schemaVersion = Output.schemaVersion) .unsupportedVersion
  ensure (cursor.snapshotId = snapshot ∧ cursor.queryId = query) .snapshotChanged
  ensure (cursor.offset.toNat ≤ total ∧ total ≤ maxTraceItems) .invalidField
  return cursor.offset

def toValue (cursor : TraceCursor) : Value :=
  .object
    [
      ("schema_version", .whole cursor.schemaVersion.toNat),
      ("snapshot_id", .string cursor.snapshotId.text),
      ("query_id", .string cursor.queryId.text),
      ("offset", .whole cursor.offset.toNat)
    ]

end TraceCursor

-- Pages

structure StageTrace where
  cursor : TraceCursor
  total : Nat
  nextOffset : Option Nat
  nextCursor : Option String
  entries : List TraceEntry

def StageTrace.toValue (trace : StageTrace) : Value :=
  .object
    [
      ("cursor", trace.cursor.toValue),
      ("total", .whole trace.total),
      ("next_offset", .ofOption (fun offset : Nat => .whole offset) trace.nextOffset),
      ("next_cursor", .ofOption .string trace.nextCursor),
      ("entries", .array (trace.entries.map TraceEntry.toValue))
    ]

/-- What a refused page reports. -/
inductive ErrorKind
  | rosterChanged
  | invalidUsage
deriving DecidableEq

structure PipelineFailure where
  kind : ErrorKind
  message : String
deriving DecidableEq

def refusedCursor : ContractError → PipelineFailure
  | .snapshotChanged =>
      {
        kind := .rosterChanged
        message := "The roster or query changed between trace pages."
      }
  | .unsupportedVersion =>
      {
        kind := .invalidUsage
        message := "Unsupported trace cursor schema version."
      }
  | _ =>
      {
        kind := .invalidUsage
        message := "Cursor offset exceeds total trace entries."
      }

def pageOf (size : Nat) (cursor : Option TraceCursor) (snapshotId queryId : ContentHash)
    (entries : List TraceEntry)
    : Except PipelineFailure StageTrace := do
  let offset ←
    match cursor with
    | some cursor =>
        (cursor.resume snapshotId queryId entries.length).mapError refusedCursor
    | none => .ok 0
  let start := offset.toNat
  let stop := min (start + size) entries.length
  let pageEntries := if start ≤ entries.length then (entries.take stop).drop start else []
  let nextOffset := if stop < entries.length then some stop else none
  let cursorAt (offset : UInt64) : TraceCursor :=
    {
      schemaVersion := schemaVersion
      snapshotId := snapshotId
      queryId := queryId
      offset := offset
    }
  return {
    cursor := cursorAt offset
    total := entries.length
    nextOffset := nextOffset
    nextCursor := nextOffset.map (fun next => (cursorAt (.ofNat next)).toToken)
    entries := pageEntries
  }

def tracePage (cursor : Option TraceCursor) (snapshotId queryId : ContentHash)
    (entries : List TraceEntry)
    : Except PipelineFailure Value :=
  StageTrace.toValue <$> pageOf maxTracePageItems cursor snapshotId queryId entries

-- Validation

section Validation

def field (members : List (String × Value)) (key : String) : Except ContractError Value :=
  require (members.lookup key) .invalidField

def asObject (value : Value) : Except ContractError (List (String × Value)) :=
  require value.asObject .invalidField

def text (value : Value) : Except ContractError String := do
  let text ← require value.asStr .invalidField
  ensure
    (text.isEmpty = false ∧ text.utf8ByteSize ≤ maxTextBytes
      ∧ text.toList.any isControl = false)
    .invalidField
  return text

def count (members : List (String × Value)) (key : String) : Except ContractError Nat := do
  let value ← field members key
  require value.asU64 .invalidField

def array (members : List (String × Value)) (key : String) (max : Nat)
    : Except ContractError (List Value) := do
  let value ← field members key
  let items ← require value.asArray .invalidField
  ensure (items.length ≤ max) .limitExceeded
  return items

def nullableNumber (members : List (String × Value)) (key : String)
    : Except ContractError (Option Double) := do
  let value ← field members key
  if value.isNull then return none
  let number ← require value.asF64 .invalidField
  ensure (number ≠ .nonFinite) .invalidField
  return some number

def identifier (value : Value) : Except ContractError Unit := do
  let text ← text value
  (validateId text).mapError (fun _ => .invalidField)

def cursorParts : Value → Option (Value × Value × Value × Value)
  | .object members => do
      let version ← members.lookup "schema_version"
      let snapshot ← members.lookup "snapshot_id"
      let query ← members.lookup "query_id"
      let offset ← members.lookup "offset"
      return (version, snapshot, query, offset)
  | .array [version, snapshot, query, offset] => some (version, snapshot, query, offset)
  | _ => none

/-- `serde_json::from_value::<TraceCursor>` -/
def readCursor (value : Value) : Option TraceCursor := do
  let (version, snapshot, query, offset) ← cursorParts value
  let version ← version.asU64
  let snapshot ← (← snapshot.asStr |>.map ContentHash.parse).toOption
  let query ← (← query.asStr |>.map ContentHash.parse).toOption
  let offset ← offset.asU64
  return {
    schemaVersion := .ofNat version
    snapshotId := snapshot
    queryId := query
    offset := .ofNat offset
  }

def stages : List TraceStage :=
  [.discovery, .visibility, .localPolicy, .quillAdmission, .wideShortlist, .fitNone, .ordering,
    .publication]

def statuses : List TraceStatus := [.passed, .excluded, .notEvaluated, .notInSnapshot]

def validateEntry (entry : Value) : Except ContractError Unit := do
  let members ← asObject entry
  let skillId ← text (← field members "skill_id")
  (validateSkillId skillId).mapError (fun _ => ContractError.invalidField)
  let stage ← text (← field members "stage")
  ensure (stage ∈ stages.map TraceStage.asStr) .invalidField
  let status ← text (← field members "status")
  ensure (status ∈ statuses.map TraceStatus.asStr) .invalidField
  let operand ← nullableNumber members "value"
  let threshold ← nullableNumber members "threshold"
  let reason ← field members "reason"
  if status = "not-evaluated" ∨ status = "not-in-snapshot" then
    ensure (operand = none ∧ threshold = none ∧ reason.isNull = true) .inconsistentFields
  else identifier reason

def validateTrace (members : List (String × Value)) : Except ContractError Unit := do
  let cursor ← require (readCursor (← field members "cursor")) .invalidField
  let total ← count members "total"
  let _ ← cursor.resume cursor.snapshotId cursor.queryId total
  let entries ← array members "entries" maxTracePageItems
  let stop ← require (checkedAdd cursor.offset.toNat entries.length) .limitExceeded
  ensure (stop ≤ total) .inconsistentFields
  let next ← field members "next_offset"
  if stop < total then
    ensure (entries ≠ [] ∧ next.asU64 = some stop) .inconsistentFields
  else ensure (next.isNull = true) .inconsistentFields
  entries.forM validateEntry

end Validation

end SkillRanker.Output
