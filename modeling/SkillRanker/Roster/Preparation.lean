import Std.Data.TreeSet.Lemmas
import SkillRanker.Roster.Resolution

/-! Candidates of a discovery: their callable names, their keys and their bounded reads. -/

namespace SkillRanker.Roster

open SkillRanker.Library
open Std

inductive SourceKind
  | project
  | user
  | plugin
  | managed
  | generic
deriving DecidableEq, Repr

/-- One skill file that discovery found. `relative` is its path below the root, by components.
-/
structure Candidate where
  source : SourceId
  kind : SourceKind
  priority : Int
  visibility : Visibility
  relative : List Path
  path : Path
  identity : FileIdentity
deriving DecidableEq

inductive CandidateProblem
  | oversized
  | notRegularFile
deriving DecidableEq, Repr

structure RejectedCandidate where
  source : SourceId
  kind : SourceKind
  relative : List Path
  problem : CandidateProblem
deriving DecidableEq

/-- What discovery reports of its roots. -/
inductive Diagnostic
  | rootMissing (source : SourceId)
  | rootUnreadable (source : SourceId)
  | sourceNotEnumerated (source : SourceId)
  | directoryUnreadable (source : SourceId)
  | symlinkedDirectorySkipped (source : SourceId)
  | depthLimitReached (source : SourceId)
  | entryUnreadable (source : SourceId)
  | entryLimitReached
  | byteLimitReached
deriving DecidableEq, Repr

structure Discovery where
  candidates : List Candidate
  rejected : List RejectedCandidate
  diagnostics : List Diagnostic
  partialCoverage : Bool

structure PlannedRoot where
  source : SourceId
  kind : SourceKind
  root : Option Path
deriving DecidableEq

structure DiscoveryPlan where
  harness : String
  roots : List PlannedRoot
  discovery : Discovery

inductive FileKind
  | regular
  | directory
  | symlink
  | fifo
  | socket
  | characterDevice
  | blockDevice
  | unknown
deriving DecidableEq, Repr

inductive ReadError
  | invalidRelativePath
  | tooManyComponents
  | notFound
  | permissionDenied
  | notADirectory
  | notRegularFile (kind : FileKind)
  | escapesAuthorizedRoots
  | symlinkLoop
  | linkTargetTooLong
  | tooLarge (limit : Nat)
  | rootUnavailable
  | io
deriving DecidableEq, Repr

/-- An opened file: what reading it gives, its identity and its path. -/
structure Opened where
  contents : List UInt8
  identity : FileIdentity
  absolute : Path

/-- The functions that resolution takes from its surroundings: the authorized walk to a file,
which may answer differently for each limit, the slots of names below a root, the digests and
the parser of skill files.
-/
structure Host where
  walk : Path → Nat → Except ReadError Opened
  slotMatches : Path → String → Option FileIdentity → Bool
  contentHash : List UInt8 → ContentHash
  pathDigest : Path → String
  parseSkillMetadata : List UInt8 → Option ParsedSkillMetadata
  fromSource : SourceId → LogicalSkillKey → SkillId

def claudeSkillFile : String := "SKILL.md"

def componentText (component : Path) : Option String := String.fromUTF8? component.toByteArray

/-- The callable name of a direct layout `<name>/SKILL.md` in a project or user root. -/
def claudeInvocation (kind : SourceKind) (relative : List Path) : Option InvocationName :=
  let supported :=
    (kind = .project ∨ kind = .user)
      ∧ relative.length = 2
      ∧ relative[1]? = some (utf8 claudeSkillFile)
  ((relative.head?.bind componentText).filter
      (fun name =>
        !(name.toLower = "synced") && !name.toList.any (fun char => char = ':' || char = '\\'))
    |>.bind (fun name => (InvocationName.new name).toOption)).filter
    (fun _ => supported)

def Candidate.invocation (candidate : Candidate) : Option InvocationName :=
  claudeInvocation candidate.kind candidate.relative

def pathLogicalKey (host : Host) (path : Path) : Except ResolutionError LogicalSkillKey :=
  (Identifier.new (host.pathDigest path)).mapError (fun _ => .invalidBinding)

/-- `ResourceLimit::try_new`. -/
def resourceLimit (max : Nat) : Except ResolutionError Nat := do
  ensure (max ≠ 0) .limit
  return max

def readOpened (host : Host) (opened : Opened) (limit : Nat) : Except ReadError BoundedRead := do
  ensure (limit + 1 ≤ usizeMax) .io
  let bytes := opened.contents.take (limit + 1)
  ensure (bytes.length ≤ limit) (.tooLarge limit)
  return {
    bytes := bytes
    contentHash := host.contentHash bytes
    identity := opened.identity
    path := opened.absolute
  }

def readAbsolute (host : Host) (path : Path) (limit : Nat) : Except ReadError BoundedRead := do
  readOpened host (← host.walk path limit) limit

theorem readAbsolute_within {host : Host} {path : Path} {limit : Nat} {read : BoundedRead}
    (done : readAbsolute host path limit = .ok read)
    : read.len ≤ limit := by
  simp only [readAbsolute, readOpened, bind_eq_ok, ensure_eq_ok, pure_eq_ok] at done
  obtain ⟨_, _, _, _, _, within, rfl⟩ := done
  exact within

-- The preparation of a resolution, within one byte budget

/-- Where a resolution passes a checkpoint. -/
inductive Site
  | started
  | discovering
  | discovered
  | rejected (offset : Nat)
  | loop (index : Nat)
  | worker (index : Nat)
  | merge (index : Nat)
  | consumed (index : Nat)
  | proving (step : Nat)
  | limited (index : Nat)
  | resolving (step : Nat)
deriving DecidableEq

structure Prepared where
  entries : List SkillEntry
  diagnostics : List (Nat × ResolutionError)
  total : Nat
  withheldNames : TreeSet String compare

namespace Prepared

variable (prepared : Prepared)

def note (index : Nat) (error : ResolutionError) : Prepared :=
  { prepared with diagnostics := prepared.diagnostics ++ [(index, error)] }

/-- Notes a problem of a candidate and withholds its name. -/
def reject (index : Nat) (error : ResolutionError) (invocation : InvocationName) : Prepared :=
  {
    prepared.note index error with
    withheldNames := prepared.withheldNames.insert invocation.text
  }

/-- The bytes that may still be read. -/
def remaining : Nat := discoveryParsedBytes - prepared.total

end Prepared

section Sequential

variable (host : Host) (clock : Jev.InvocationDeadline) (checks : Site → Checkpoint)

def noteRejected (candidates : Nat)
    : Nat → Prepared → List RejectedCandidate → Except ResolutionError Prepared
  | _, prepared, [] => .ok prepared
  | offset, prepared, rejected :: rest => do
      budget clock (checks (.rejected offset))
      let index := candidates + offset
      let noted :=
        match claudeInvocation rejected.kind rejected.relative with
        | none => prepared.note index .unsupportedLayout
        | some invocation =>
            let problem :=
              match rejected.problem with
              | .oversized => .oversized
              | .notRegularFile => .read
            prepared.reject index problem invocation
      noteRejected candidates (offset + 1) noted rest

/-- `PreparedResolution::new`. -/
def Prepared.new (plan : DiscoveryPlan) : Except ResolutionError Prepared := do
  budget clock (checks .started)
  ensure
    (plan.harness = "claude_code"
      ∨ plan.roots.all (fun root => "configured.".toList.isPrefixOf root.source.toList))
    .invalidBinding
  budget clock (checks .discovering)
  budget clock (checks .discovered)
  noteRejected clock checks plan.discovery.candidates.length 0
    { entries := [], diagnostics := [], total := 0, withheldNames := ∅ } plan.discovery.rejected

/-- The limit of the next read, or none where nothing may be read. -/
def readLimit (prepared : Prepared) (index : Nat) (candidate : Candidate)
    : Except ResolutionError (Option Nat × Prepared) :=
  match candidate.invocation with
  | none => .ok (none, prepared.note index .unsupportedLayout)
  | some invocation =>
      if prepared.remaining = 0 then .ok (none, prepared.reject index .limit invocation)
      else do
        let limit ← resourceLimit (min prepared.remaining skillFileBytes)
        return (some limit, prepared)

def bindingSpec (candidate : Candidate) (overrides : TreeMap String InvocationRestrictions compare)
    (invocation : InvocationName) (logicalKey : LogicalSkillKey)
    : BindingSpec :=
  {
    source := candidate.source
    logicalKey := logicalKey
    invocation := invocation
    priority := some candidate.priority
    visibility := candidate.visibility
    restrictions := overrides.getD invocation.text .free
  }

def Host.entry (spec : BindingSpec) (read : BoundedRead) : Except ResolutionError SkillEntry :=
  SkillEntry.fromRead host.parseSkillMetadata host.fromSource spec read

def readProblem (error : ReadError) : ResolutionError :=
  match error with
  | .tooLarge _ => .oversized
  | _ => .read

def consume (overrides : TreeMap String InvocationRestrictions compare) (prepared : Prepared)
    (index : Nat) (candidate : Candidate) (result : Except ReadError BoundedRead)
    : Except ResolutionError Prepared := do
  let invocation ← require candidate.invocation .invalidBinding
  match result with
  | .error error => return prepared.reject index (readProblem error) invocation
  | .ok read =>
      let charged := { prepared with total := prepared.total + read.len }
      budget clock (checks (.consumed index))
      if read.identity ≠ candidate.identity then
        return charged.reject index .changedFile invocation
      else
        let logicalKey ← pathLogicalKey host candidate.path
        match host.entry (bindingSpec candidate overrides invocation logicalKey) read with
        | .ok entry => return { charged with entries := charged.entries ++ [entry] }
        | .error error => return charged.reject index error invocation

def consumeNext (overrides : TreeMap String InvocationRestrictions compare) (prepared : Prepared)
    (index : Nat) (candidate : Candidate)
    : Except ResolutionError Prepared := do
  match ← readLimit prepared index candidate with
  | (none, prepared) => return prepared
  | (some limit, prepared) =>
      consume host clock checks overrides prepared index candidate
        (readAbsolute host candidate.path limit)

/-- The loop of `resolve_claude_plan`. -/
def consumeAll (overrides : TreeMap String InvocationRestrictions compare)
    : Nat → Prepared → List Candidate → Except ResolutionError Prepared
  | _, prepared, [] => .ok prepared
  | index, prepared, candidate :: rest => do
      budget clock (checks (.loop index))
      let prepared ← consumeNext host clock checks overrides prepared index candidate
      consumeAll overrides (index + 1) prepared rest

end Sequential

-- Concurrent reads

inductive ParsedReadError
  | changed
  | invalidKey (error : ResolutionError)
  | entry (error : ResolutionError)
deriving DecidableEq

structure ParsedRead where
  len : Nat
  outcome : Except ParsedReadError SkillEntry

inductive RuntimeError
  | runtimeUnavailable
  | deadline (error : Jev.LimitError)
  | lateResultSuppressed
  | cancelled
  | stdinTimeout
  | stdinIo
  | unboundedLeaf
  | blockingPoolUnavailable
deriving DecidableEq

def blockingError (error : RuntimeError) : ResolutionError :=
  match error with
  | .cancelled => .cancelled
  | .deadline _ | .lateResultSuppressed => .deadline
  | _ => .read

/-- The work given to the blocking pool, a batch by its first candidate. -/
inductive Leaf
  | preparing
  | batch (first : Nat)
  | finishing
deriving DecidableEq

section Concurrent

-- `pool` says which work the blocking pool ran, or why it could not
variable (host : Host) (clock : Jev.InvocationDeadline) (checks : Site → Checkpoint)
  (pool : Leaf → Except RuntimeError Unit)
  (overrides : TreeMap String InvocationRestrictions compare)

def parseDiscoveredRead (candidate : Candidate) (read : BoundedRead) : ParsedRead :=
  let outcome :=
    if read.identity ≠ candidate.identity then .error .changed
    else
      match candidate.invocation with
      | none => .error (.invalidKey .invalidBinding)
      | some invocation =>
          match pathLogicalKey host candidate.path with
          | .error error => .error (.invalidKey error)
          | .ok logicalKey =>
              (host.entry (bindingSpec candidate overrides invocation logicalKey) read).mapError
                .entry
  { len := read.len, outcome := outcome }

def consumeParsed (prepared : Prepared) (index : Nat) (candidate : Candidate)
    (result : Except ReadError ParsedRead)
    : Except ResolutionError Prepared := do
  let invocation ← require candidate.invocation .invalidBinding
  match result with
  | .error error => return prepared.reject index (readProblem error) invocation
  | .ok parsed =>
      let charged := { prepared with total := prepared.total + parsed.len }
      budget clock (checks (.consumed index))
      match parsed.outcome with
      | .error .changed => return charged.reject index .changedFile invocation
      | .error (.invalidKey error) => .error error
      | .error (.entry error) => return charged.reject index error invocation
      | .ok entry => return { charged with entries := charged.entries ++ [entry] }

def readChunk (limit : Option Nat)
    : Nat → List Candidate → Except ResolutionError (List (Option (Except ReadError ParsedRead)))
  | _, [] => .ok []
  | index, candidate :: rest => do
      budget clock (checks (.worker index))
      let read :=
        (limit.filter (fun _ => candidate.invocation.isSome)).map
          (fun limit =>
            (readAbsolute host candidate.path limit).map
              (parseDiscoveredRead host overrides candidate))
      let reads ← readChunk limit (index + 1) rest
      return read :: reads

def readBatch (limit : Option Nat) (first : Nat) (candidates : List Candidate)
    : Except ResolutionError (List (Option (Except ReadError ParsedRead))) := do
  let chunkSize := (candidates.length + 1) / 2
  (pool (.batch first)).mapError blockingError
  let reads ← readChunk host clock checks overrides limit first (candidates.take chunkSize)
  let others ←
    readChunk host clock checks overrides limit (first + chunkSize) (candidates.drop chunkSize)
  return reads ++ others

/-- The turn of a candidate whose read was made with its batch. -/
def mergeNext (prepared : Prepared) (index : Nat) (candidate : Candidate)
    (read : Option (Except ReadError ParsedRead))
    : Except ResolutionError Prepared := do
  match ← readLimit prepared index candidate with
  | (none, prepared) => return prepared
  | (some _, prepared) => do
      let read ← require read .read
      consumeParsed clock checks prepared index candidate read

def mergeReads
    : Nat → Prepared → List (Candidate × Option (Except ReadError ParsedRead))
      → Except ResolutionError Prepared
  | _, prepared, [] => .ok prepared
  | index, prepared, (candidate, read) :: rest => do
      budget clock (checks (.merge index))
      let prepared ← mergeNext clock checks prepared index candidate read
      mergeReads (index + 1) prepared rest

/-- Candidates after the last byte of the budget. -/
def classify : Nat → Prepared → List Candidate → Except ResolutionError Prepared
  | _, prepared, [] => .ok prepared
  | index, prepared, candidate :: rest => do
      budget clock (checks (.merge index))
      let (_, prepared) ← readLimit prepared index candidate
      classify (index + 1) prepared rest

/-- The loop of `resolve_claude_plan_concurrent`. -/
def consumeBatches (next : Nat) (prepared : Prepared) (candidates : List Candidate)
    : Except ResolutionError Prepared :=
  match candidates with
  | [] => .ok prepared
  | candidate :: rest => do
      budget clock (checks (.loop next))
      let remaining := prepared.remaining
      if remaining = 0 then classify clock checks next prepared (candidate :: rest)
      else
        -- worst-case bytes are reserved, so that a whole batch fits what remains
        let count := max (remaining / skillFileBytes) 1
        let batch := (candidate :: rest).take count
        let limit ←
          if remaining = 0 then .ok none
          else some <$> resourceLimit (min remaining skillFileBytes)
        let reads ← readBatch host clock checks pool overrides limit next batch
        let prepared ← mergeReads clock checks next prepared (batch.zip reads)
        consumeBatches (next + batch.length) prepared ((candidate :: rest).drop count)
termination_by candidates.length
decreasing_by
  rw [List.length_drop, List.length_cons]
  omega

end Concurrent

end SkillRanker.Roster
