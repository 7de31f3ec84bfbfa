import SkillRanker.Learning.ConfigTable
import SkillRanker.Library.Stateful

/-! The files that a policy is applied to and rolled back from, and how they are read and
replaced. Formats of third parties, and what the disk does meanwhile, are parameters.
-/

namespace SkillRanker.Learning

open SkillRanker.Library SkillRanker.Recommendation

variable {R : Type}

def configFileBytes : Nat := 256 * 1024

def policyRevisionSchemaVersion : Nat := 1

structure PolicyRevisionRecord (R : Type) where
  schemaVersion : Nat
  revisionId : String
  evaluationDigest : String
  previousPolicy : ManagedRankingPolicy R
  appliedPolicy : ManagedRankingPolicy R
  expectedManagedDigest : String
  previousPriorSnapshot : Option SerializedPriorSnapshot
  appliedPriorSnapshot : Option SerializedPriorSnapshot
deriving DecidableEq

/-- What stands at a path where something does. -/
inductive StoredFile
  | text (content : String)
  /-- A regular file that is no UTF-8 text. -/
  | binary (length : Nat)
  /-- A symbolic link, or no regular file. -/
  | irregular
deriving DecidableEq, Repr

structure PolicyStore where
  config : Option StoredFile
  monitor : Option StoredFile
  prior : Option StoredFile
  /-- `policy-revisions/{id}.json` -/
  revisions : String → Option StoredFile
  /-- `policy-revisions/{id}.bak.toml` -/
  backups : String → Option StoredFile

/-- Why a JSON text has no value of its type. -/
inductive DecodeError
  | json
  | schema (message : String)
deriving DecidableEq, Repr

/-- What `monitor_state.json` says about promotions. -/
structure SavedMonitor where
  status : String
  alarmTriggered : Bool

/-- The TOML and JSON of third parties, and the digests. -/
structure PolicyFormats (R : Type) where
  parseToml : String → Except String (TomlTable R)
  renderToml : TomlTable R → Except String String
  decodeMonitor : String → Except DecodeError SavedMonitor
  decodeSnapshot : String → Except DecodeError SerializedPriorSnapshot
  encodeSnapshot : SerializedPriorSnapshot → Except String String
  decodeRevision : String → Except DecodeError (PolicyRevisionRecord R)
  encodeRevision : PolicyRevisionRecord R → Except String String
  policyDigest : ManagedRankingPolicy R → String
  contentHash : String → String

/-- The moments at which a call looks at `config.toml` or replaces it. -/
inductive ConfigAccess
  | base
  | policy
  | recheck
  | replacement
deriving DecidableEq, Repr

inductive PolicyAccess
  | config (access : ConfigAccess)
  | monitor
  | prior
  | revisionsDirectory
  | backup
  | saveRevision
  | readRevision
  | stateDirectory
  | snapshot
deriving DecidableEq, Repr

/-- What the disk does: which access it refuses, in its own words, and what others make of
`config.toml` before an access.
-/
structure PolicyHost where
  fails : PolicyAccess → Option String
  meanwhile : ConfigAccess → Option StoredFile → Option StoredFile

/-- A disk that refuses nothing, with no one else on it. -/
def PolicyHost.quiet : PolicyHost :=
  {
    fails := fun _ => none
    meanwhile := fun _ config => config
  }

/-- `read_bounded_regular_file_string`. -/
def StoredFile.read (file : StoredFile) (maxBytes : Nat) (what : String)
    : Except (LearningError R) String :=
  match file with
  | .irregular => .error (.storage ("trusted " ++ what ++ " path must be a regular file"))
  | .binary length =>
      if maxBytes < length then .error (.oversizedInput (maxBytes + 1) maxBytes)
      else .error (.malformedInput (what ++ " is not valid UTF-8"))
  | .text content =>
      if maxBytes < content.utf8ByteSize then .error (.oversizedInput (maxBytes + 1) maxBytes)
      else .ok content

-- Values of the files

section Values

variable (formats : PolicyFormats R)

def configText (config : Option StoredFile) : Except (LearningError R) String :=
  match config with
  | none => .ok ""
  | some file => file.read configFileBytes "configuration"

def parseManagedPolicy [Field R] [LinearOrder R] (text : String)
    : Except (LearningError R) (TomlTable R × ManagedRankingPolicy R) := do
  let root ← (formats.parseToml text).mapError fun message =>
    .malformedInput ("invalid config.toml: " ++ message)
  checkTomlDepth root
  let policy ← policyOfRoot root
  return (root, policy)

def readManagedPolicyFromToml [Field R] [LinearOrder R] (config : Option StoredFile)
    : Except (LearningError R) (TomlTable R × ManagedRankingPolicy R) :=
  match config with
  | none => .ok ([], .baseline)
  | some file => do
      let text ← file.read configFileBytes "configuration"
      parseManagedPolicy formats text

variable {policy : ManagedRankingPolicy R}

theorem parseManagedPolicy_eq_ok [Field R] [LinearOrder R] {text : String} {root : TomlTable R}
    : parseManagedPolicy formats text = .ok (root, policy)
      ↔ formats.parseToml text = .ok root
        ∧ checkTomlDepth root = .ok ()
        ∧ policyOfRoot root = .ok policy := by
  simp only [parseManagedPolicy, bind_eq_ok, mapError_eq_ok, pure_eq_ok, Prod.mk.injEq]
  constructor
  · rintro ⟨_, parsed, _, fits, _, set, rfl, rfl⟩
    exact ⟨parsed, fits, set⟩
  · rintro ⟨parsed, fits, set⟩
    exact ⟨root, parsed, (), fits, policy, set, rfl, rfl⟩

/-- The policy of a configuration that stands there is the one its text sets. -/
theorem readManagedPolicyFromToml_eq_ok [Field R] [LinearOrder R] {file : StoredFile}
    {root : TomlTable R}
    : readManagedPolicyFromToml formats (some file) = .ok (root, policy)
      ↔ ∃ text,
          file.read (R := R) configFileBytes "configuration" = .ok text
          ∧ formats.parseToml text = .ok root
          ∧ checkTomlDepth root = .ok ()
          ∧ policyOfRoot root = .ok policy := by
  simp only [readManagedPolicyFromToml, bind_eq_ok, parseManagedPolicy_eq_ok]

/-- `load_active_prior_snapshot`; a snapshot with no cell counts as none. -/
def loadActivePriorSnapshot (prior : Option StoredFile)
    : Except (LearningError R) (Option PriorSnapshot) :=
  match prior with
  | none => .ok none
  | some file => do
      let text ← file.read configFileBytes "prior snapshot"
      let raw ← (formats.decodeSnapshot text).mapError fun
        | .json => .malformedInput "corrupt or duplicate-key prior snapshot"
        | .schema message => .malformedInput ("invalid prior snapshot schema: " ++ message)
      let snapshot ← PriorSnapshot.fromSerialized raw
      return if snapshot.IsEmpty then none else some snapshot

def loadMonitorState (file : StoredFile) : Except (LearningError R) SavedMonitor := do
  let text ← file.read evaluationDatasetBytes "monitor state"
  (formats.decodeMonitor text).mapError fun
    | .json => .monitorInvalid "corrupt or duplicate-key monitor state"
    | .schema message => .monitorInvalid ("invalid monitor state schema: " ++ message)

def checkMonitor (monitor : Option StoredFile) : Except (LearningError R) Unit :=
  match monitor with
  | none => .ok ()
  | some file => do
      let state ← loadMonitorState formats file
      ensure (¬(state.alarmTriggered ∨ state.status = "alarmed" ∨ state.status = "invalidated"))
        (.notPromotable
          ("sequential risk monitor status is '" ++ state.status ++ "' (alarm_triggered="
            ++ toString state.alarmTriggered
            ++ "); return to baseline/shadow before promoting a policy"))

def decodeRevision (file : StoredFile) : Except (LearningError R) (PolicyRevisionRecord R) := do
  let text ← file.read configFileBytes "policy revision"
  (formats.decodeRevision text).mapError fun
    | .json => .incompatibleRevision "malformed revision JSON"
    | .schema message => .incompatibleRevision ("incompatible revision schema: " ++ message)

end Values

-- Accesses

/-- A computation on the store. What it has written stays written when it fails. -/
abbrev PolicyUpdate (R : Type) : Type → Type := EStateM (LearningError R) PolicyStore

section Accesses

variable (formats : PolicyFormats R) (host : PolicyHost)

/-- An access that the disk may refuse. -/
def attempt (access : PolicyAccess) : PolicyUpdate R Unit :=
  match host.fails access with
  | none => pure ()
  | some message => throw (.storage message)

def attemptRead (access : PolicyAccess) (file : Option StoredFile) : PolicyUpdate R Unit :=
  match file with
  | none => pure ()
  | some _ => attempt host access

def standingConfig (access : ConfigAccess) : PolicyUpdate R (Option StoredFile) := do
  modify fun store => { store with config := host.meanwhile access store.config }
  let store ← get
  attemptRead host (.config access) store.config
  return store.config

def saveActivePriorSnapshot (snapshot : PriorSnapshot) : PolicyUpdate R Unit := do
  attempt host .stateDirectory
  let bytes ← settle ((formats.encodeSnapshot snapshot.toSerialized).mapError .storage)
  attempt host .snapshot
  modify fun store => { store with prior := some (.text bytes) }

def writeManagedPolicyToToml [Field R] [LinearOrder R] (root : TomlTable R)
    (policy : ManagedRankingPolicy R) (expectedBaseDigest : String)
    : PolicyUpdate R Unit := do
  settle policy.validate
  let config ← standingConfig host .recheck
  let current ← settle (configText config)
  settle (ensure (formats.contentHash current = expectedBaseDigest)
    (.policyConflict "config.toml changed on disk before managed policy replacement"))
  settle policy.managedPolicyMutation
  let installed ← settle (installPolicy root policy)
  let rendered ← settle ((formats.renderToml installed).mapError fun message =>
    .storage ("serialize config.toml: " ++ message))
  modify fun store => { store with config := host.meanwhile .replacement store.config }
  attempt host (.config .replacement)
  modify fun store => { store with config := some (.text rendered) }

end Accesses

end SkillRanker.Learning
