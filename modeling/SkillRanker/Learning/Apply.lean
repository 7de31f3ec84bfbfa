import Mathlib.Logic.Relation
import SkillRanker.Learning.PolicyStore

/-! Applying a calibrated policy, and rolling it back. -/

namespace SkillRanker.Learning

open SkillRanker.Library SkillRanker.Recommendation

section

variable {R : Type} [Field R] [LinearOrder R]
  (formats : PolicyFormats R) (host : PolicyHost)
variable {done : Unit} {report : CalibrationReport R}

def revisionRecord (report : CalibrationReport R) (currentPolicy : ManagedRankingPolicy R)
    (previousPriorSnapshot : Option SerializedPriorSnapshot)
    : PolicyRevisionRecord R :=
  {
    schemaVersion := policyRevisionSchemaVersion
    revisionId := report.revisionId
    evaluationDigest := report.evaluationDigest
    previousPolicy := currentPolicy
    appliedPolicy := report.selectedPolicy
    expectedManagedDigest := formats.policyDigest report.selectedPolicy
    previousPriorSnapshot := previousPriorSnapshot
    appliedPriorSnapshot := report.priorSnapshot
  }

/-- Keeps the text of a configuration that is not empty. -/
def saveBackup (report : CalibrationReport R) (baseText : String) : PolicyUpdate R Unit :=
  if baseText = "" then pure ()
  else do
    attempt host .backup
    modify fun store =>
      { store with
        backups := Function.update store.backups report.revisionId (some (.text baseText)) }

/-- The checks of an apply and what it saves for a rollback: the root table and the digest of
the configuration that it starts from.
-/
def saveRevision (report : CalibrationReport R) : PolicyUpdate R (TomlTable R × String) := do
  settle (ensure report.promotable (.notPromotable report.promotionReason))
  let store ← get
  attemptRead host .monitor store.monitor
  settle (checkMonitor formats store.monitor)
  let base ← standingConfig host .base
  let baseText ← settle (configText base)
  let baseDigest := formats.contentHash baseText
  let config ← standingConfig host .policy
  let (root, currentPolicy) ← settle (readManagedPolicyFromToml formats config)
  attemptRead host .prior store.prior
  let previous ← settle (loadActivePriorSnapshot formats store.prior)
  attempt host .revisionsDirectory
  saveBackup host report baseText
  let record :=
    revisionRecord formats report currentPolicy (previous.map PriorSnapshot.toSerialized)
  let bytes ← settle ((formats.encodeRevision record).mapError .storage)
  attempt host .saveRevision
  modify fun store =>
    { store with
      revisions := Function.update store.revisions report.revisionId (some (.text bytes)) }
  return (root, baseDigest)

def activateSnapshot (raw : SerializedPriorSnapshot) : PolicyUpdate R Unit := do
  let snapshot ← settle (PriorSnapshot.fromSerialized raw)
  saveActivePriorSnapshot formats host snapshot

def clearSnapshot : PolicyUpdate R Unit := do
  let store ← get
  match store.prior with
  | none => pure ()
  | some _ => saveActivePriorSnapshot formats host .default

/-- Puts the prior snapshot of a report in force where its policy weighs one. -/
def installSnapshot (report : CalibrationReport R) : PolicyUpdate R Unit :=
  if 0 < report.selectedPolicy.wPrior then
    match report.priorSnapshot with
    | none => pure ()
    | some raw => activateSnapshot formats host raw
  else clearSnapshot formats host

/-- Puts the selected policy in force, on the root table and the digest that it starts from. -/
def installSelected (report : CalibrationReport R) (root : TomlTable R) (baseDigest : String)
    : PolicyUpdate R (CalibrationReport R) := do
  installSnapshot formats host report
  writeManagedPolicyToToml formats host root report.selectedPolicy baseDigest
  return { report with mode := "applied", applied := true }

def applyCalibratedPolicy (report : CalibrationReport R)
    : PolicyUpdate R (CalibrationReport R) := do
  let start ← saveRevision formats host report
  installSelected formats host report start.1 start.2

structure PolicyRollbackReport (R : Type) where
  schema : String
  mode : String
  applied : Bool
  revisionId : String
  currentPolicy : ManagedRankingPolicy R
  restoredPolicy : ManagedRankingPolicy R
  preservedUnrelatedSections : List String

def NamesRevision (revisionId : String) : Prop :=
  isBlank revisionId = false ∧ (∀ separator ∈ "/\\".toList, separator ∉ revisionId.toList)
  ∧ ¬"..".toList <:+: revisionId.toList

instance (revisionId : String) : Decidable (NamesRevision revisionId) :=
  inferInstanceAs (Decidable (_ ∧ _ ∧ _))

def checkRevision (record : PolicyRevisionRecord R) : Except (LearningError R) Unit := do
  ensure (record.schemaVersion = policyRevisionSchemaVersion)
    (.incompatibleRevision
      ("unsupported policy revision schema_version " ++ toString record.schemaVersion))
  record.previousPolicy.validate
  record.appliedPolicy.validate
  ensure (formats.policyDigest record.appliedPolicy = record.expectedManagedDigest)
    (.incompatibleRevision "recorded revision digest mismatch")

def restoreSnapshot (record : PolicyRevisionRecord R) : PolicyUpdate R Unit :=
  match record.previousPriorSnapshot with
  | some raw =>
      if 0 < record.previousPolicy.wPrior then activateSnapshot formats host raw
      else clearSnapshot formats host
  | none => clearSnapshot formats host

/-- Restores the previous policy of a record and its prior snapshot; a preview does not. -/
def restoreRevision (apply : Bool) (root : TomlTable R) (record : PolicyRevisionRecord R)
    (baseDigest : String)
    : PolicyUpdate R Unit :=
  if apply then do
    writeManagedPolicyToToml formats host root record.previousPolicy baseDigest
    restoreSnapshot formats host record
  else pure ()

def rollbackManagedPolicy (revisionId : String) (apply : Bool)
    : PolicyUpdate R (PolicyRollbackReport R) := do
  settle (ensure (NamesRevision revisionId)
    (.malformedInput "invalid policy revision identifier"))
  let store ← get
  let file ← settle (require (store.revisions revisionId)
    (.incompatibleRevision ("policy revision " ++ revisionId ++ " does not exist")))
  attempt host .readRevision
  let record ← settle (decodeRevision formats file)
  settle (checkRevision formats record)
  let base ← standingConfig host .base
  let baseText ← settle (configText base)
  let baseDigest := formats.contentHash baseText
  let config ← standingConfig host .policy
  let (root, currentPolicy) ← settle (readManagedPolicyFromToml formats config)
  settle (ensure (formats.policyDigest currentPolicy = record.expectedManagedDigest)
    (.policyConflict
      ("current managed ranking policy digest (" ++ formats.policyDigest currentPolicy
        ++ ") does not match revision " ++ revisionId ++ " expected digest ("
        ++ record.expectedManagedDigest ++ "); refusing conflicting rollback")))
  restoreRevision formats host apply root record baseDigest
  return {
    schema := calibrationSchema
    mode := if apply then "rollback-applied" else "rollback-preview"
    applied := apply
    revisionId := revisionId
    currentPolicy := currentPolicy
    restoredPolicy := record.previousPolicy
    preservedUnrelatedSections := (root.map Prod.fst).filter (· ≠ "ranking")
  }

end

-- What an apply finds before it saves, and what it leaves alone when it fails

variable {R : Type}

-- Accesses

section Accesses

variable {formats : PolicyFormats R} {host : PolicyHost} {before after : PolicyStore}
variable {access : PolicyAccess}

/-- An access passes when the disk does not refuse it. -/
@[simp]
theorem run_attempt_eq_ok
    : (attempt (R := R) host access).run before = .ok done after
      ↔ host.fails access = none ∧ before = after := by
  unfold attempt
  split <;> simp_all

@[simp]
theorem run_attemptRead_eq_ok {file : Option StoredFile}
    : (attemptRead (R := R) host access file).run before = .ok done after
      ↔ (file.isSome → host.fails access = none) ∧ before = after := by
  cases file <;> simp [attemptRead]

def PolicyStore.seenAt (store : PolicyStore) (host : PolicyHost) (access : ConfigAccess)
    : PolicyStore :=
  { store with config := host.meanwhile access store.config }

@[simp]
theorem run_standingConfig_eq_ok {access : ConfigAccess} {config : Option StoredFile}
    : (standingConfig (R := R) host access).run before = .ok config after
      ↔ config = (before.seenAt host access).config
        ∧ (config.isSome → host.fails (.config access) = none)
        ∧ after = before.seenAt host access := by
  simp only [standingConfig, run_bind_eq_ok, run_modify_eq_ok, run_get_eq_ok,
    run_attemptRead_eq_ok, run_pure_eq_ok]
  constructor
  · rintro ⟨_, _, rfl, _, _, ⟨rfl, rfl⟩, _, _, ⟨allowed, rfl⟩, rfl, rfl⟩
    exact ⟨rfl, allowed, rfl⟩
  · rintro ⟨rfl, allowed, rfl⟩
    exact ⟨(), _, rfl, _, _, ⟨rfl, rfl⟩, (), _, ⟨allowed, rfl⟩, rfl, rfl⟩

structure SnapshotSaved (formats : PolicyFormats R) (host : PolicyHost)
    (snapshot : PriorSnapshot) (bytes : String)
    : Prop where
  directory : host.fails .stateDirectory = none
  encoded : formats.encodeSnapshot snapshot.toSerialized = .ok bytes
  written : host.fails .snapshot = none

@[simp]
theorem run_saveActivePriorSnapshot_eq_ok {snapshot : PriorSnapshot}
    : (saveActivePriorSnapshot formats host snapshot).run before = .ok done after
      ↔ ∃ bytes, SnapshotSaved formats host snapshot bytes
        ∧ after = { before with prior := some (.text bytes) } := by
  simp only [saveActivePriorSnapshot, run_bind_eq_ok, run_attempt_eq_ok, run_settle_eq_ok,
    run_modify_eq_ok, mapError_eq_ok, and_assoc, exists_and_left, exists_eq_left',
    exists_const]
  constructor
  · rintro ⟨directory, bytes, encoded, written, rfl⟩
    exact ⟨bytes, ⟨directory, encoded, written⟩, rfl⟩
  · rintro ⟨bytes, saved, rfl⟩
    exact ⟨saved.directory, bytes, saved.encoded, saved.written, rfl⟩

def SnapshotActivated (formats : PolicyFormats R) (host : PolicyHost)
    (raw : SerializedPriorSnapshot) (prior : Option StoredFile)
    : Prop :=
  ∃ snapshot bytes,
    PriorSnapshot.fromSerialized (R := R) raw = .ok snapshot
    ∧ SnapshotSaved formats host snapshot bytes
    ∧ prior = some (.text bytes)

def SnapshotCleared (formats : PolicyFormats R) (host : PolicyHost)
    (standing prior : Option StoredFile)
    : Prop :=
  match standing with
  | none => prior = none
  | some _ => ∃ bytes, SnapshotSaved formats host .default bytes ∧ prior = some (.text bytes)

theorem run_activateSnapshot_eq_ok {raw : SerializedPriorSnapshot}
    : (activateSnapshot formats host raw).run before = .ok done after
      ↔ ∃ prior,
          SnapshotActivated formats host raw prior ∧ after = { before with prior := prior } := by
  simp only [activateSnapshot, run_bind_eq_ok, run_settle_eq_ok,
    run_saveActivePriorSnapshot_eq_ok]
  constructor
  · rintro ⟨snapshot, _, ⟨read, rfl⟩, bytes, saved, rfl⟩
    exact ⟨_, ⟨snapshot, bytes, read, saved, rfl⟩, rfl⟩
  · rintro ⟨_, ⟨snapshot, bytes, read, saved, rfl⟩, rfl⟩
    exact ⟨snapshot, _, ⟨read, rfl⟩, bytes, saved, rfl⟩

theorem run_clearSnapshot_eq_ok
    : (clearSnapshot formats host).run before = .ok done after
      ↔ ∃ prior,
          SnapshotCleared formats host before.prior prior
          ∧ after = { before with prior := prior } := by
  have run
      : (clearSnapshot formats host).run before
        = (match before.prior with
            | none => pure ()
            | some _ => saveActivePriorSnapshot formats host .default).run before := rfl
  rw [run]
  cases standing : before.prior with
  | none =>
      rw [run_pure_eq_ok]
      constructor
      · rintro ⟨_, rfl⟩
        exact ⟨none, rfl, by rw [← standing]⟩
      · rintro ⟨_, rfl, rfl⟩
        exact ⟨rfl, by rw [← standing]⟩
  | some file =>
      rw [run_saveActivePriorSnapshot_eq_ok]
      constructor
      · rintro ⟨bytes, saved, rfl⟩
        exact ⟨_, ⟨bytes, saved, rfl⟩, rfl⟩
      · rintro ⟨_, ⟨bytes, saved, rfl⟩, rfl⟩
        exact ⟨bytes, saved, rfl⟩

end Accesses

section Policies

variable [Field R] [LinearOrder R] {formats : PolicyFormats R} {host : PolicyHost}
  {before after : PolicyStore}

/-- What the replacement of a policy needs: the policy is valid, no one else changed the
configuration, the policy has its place in it, and the disk takes the rendered text.
-/
structure PolicyWrites (formats : PolicyFormats R) (host : PolicyHost)
    (config : Option StoredFile) (root : TomlTable R) (policy : ManagedRankingPolicy R)
    (expectedBaseDigest : String) (rendered : String)
    : Prop where
  valid : policy.Valid
  reread : (host.meanwhile .recheck config).isSome → host.fails (.config .recheck) = none
  unchanged
    : ∃ current,
        configText (R := R) (host.meanwhile .recheck config) = .ok current
        ∧ formats.contentHash current = expectedBaseDigest
  installed
    : ∃ installed,
        installPolicy root policy = .ok installed ∧ formats.renderToml installed = .ok rendered
  replaced : host.fails (.config .replacement) = none

theorem run_writeManagedPolicyToToml_eq_ok {root : TomlTable R} {policy : ManagedRankingPolicy R}
    {expectedBaseDigest : String}
    : (writeManagedPolicyToToml formats host root policy expectedBaseDigest).run before
        = .ok done after
      ↔ ∃ rendered,
          PolicyWrites formats host before.config root policy expectedBaseDigest rendered
          ∧ after = { before with config := some (.text rendered) } := by
  simp only [writeManagedPolicyToToml, run_bind_eq_ok, run_settle_eq_ok,
    run_standingConfig_eq_ok, run_modify_eq_ok, run_attempt_eq_ok, mapError_eq_ok,
    ensure_eq_ok, and_assoc, exists_and_left, exists_eq_left, exists_eq_left', exists_const]
  constructor
  · rintro ⟨_, accepted, reread, current, read, same, _, _, installed, placed, rendered, wrote,
      replaced, rfl⟩
    exact ⟨rendered,
      ⟨policy.validate_eq_ok.mp accepted, reread, ⟨current, read, same⟩,
        ⟨installed, placed, wrote⟩, replaced⟩, rfl⟩
  · rintro ⟨rendered, writes, rfl⟩
    obtain ⟨valid, reread, ⟨current, read, same⟩, ⟨installed, placed, wrote⟩, replaced⟩ := writes
    exact ⟨(), policy.validate_eq_ok.mpr valid, reread, current, read, same, (),
      ManagedRankingPolicy.managedPolicyMutation_of_valid valid, installed, placed, rendered,
      wrote, replaced, rfl⟩

structure Findings (R : Type) where
  baseText : String
  root : TomlTable R
  currentPolicy : ManagedRankingPolicy R
  previous : Option PriorSnapshot
  bytes : String

def Findings.record (found : Findings R) (formats : PolicyFormats R)
    (report : CalibrationReport R)
    : PolicyRevisionRecord R :=
  revisionRecord formats report found.currentPolicy (found.previous.map PriorSnapshot.toSerialized)

def PolicyStore.surveyed (store : PolicyStore) (host : PolicyHost) : PolicyStore :=
  (store.seenAt host .base).seenAt host .policy

/-- The apply comes to save its record: every check before that passes. -/
structure Saves (formats : PolicyFormats R) (host : PolicyHost) (report : CalibrationReport R)
    (store : PolicyStore) (found : Findings R)
    : Prop where
  promotable : report.promotable
  monitorRead : store.monitor.isSome → host.fails .monitor = none
  monitor : checkMonitor formats store.monitor = .ok ()
  baseRead : (store.seenAt host .base).config.isSome → host.fails (.config .base) = none
  base : configText (R := R) (store.seenAt host .base).config = .ok found.baseText
  policyRead : (store.surveyed host).config.isSome → host.fails (.config .policy) = none
  policy
    : readManagedPolicyFromToml formats (store.surveyed host).config
      = .ok (found.root, found.currentPolicy)
  priorRead : store.prior.isSome → host.fails .prior = none
  prior : loadActivePriorSnapshot formats store.prior = .ok found.previous
  directory : host.fails .revisionsDirectory = none
  backup : found.baseText ≠ "" → host.fails .backup = none
  encoded : formats.encodeRevision (found.record formats report) = .ok found.bytes
  saved : host.fails .saveRevision = none

/-- What an apply finds is determined by the store. -/
theorem Saves.unique {store : PolicyStore} {found other : Findings R}
    (saves : Saves formats host report store found) (again : Saves formats host report store other)
    : found = other := by
  obtain ⟨baseText, root, currentPolicy, previous, bytes⟩ := found
  obtain ⟨baseText', root', currentPolicy', previous', bytes'⟩ := other
  obtain rfl := Except.ok.inj (saves.base.symm.trans again.base)
  obtain ⟨rfl, rfl⟩ := Prod.ext_iff.mp (Except.ok.inj (saves.policy.symm.trans again.policy))
  obtain rfl := Except.ok.inj (saves.prior.symm.trans again.prior)
  obtain rfl := Except.ok.inj (saves.encoded.symm.trans again.encoded)
  rfl

def PolicyStore.withRevision (store : PolicyStore) (host : PolicyHost) (revisionId : String)
    (found : Findings R)
    : PolicyStore :=
  { store.surveyed host with
    backups :=
      if found.baseText = "" then store.backups
      else Function.update store.backups revisionId (some (.text found.baseText))
    revisions := Function.update store.revisions revisionId (some (.text found.bytes))
  }

omit [Field R] [LinearOrder R] in
theorem run_saveBackup_eq_ok {baseText : String}
    : (saveBackup host report baseText).run before = .ok done after
      ↔ (baseText ≠ "" → host.fails .backup = none)
        ∧ after
          = { before with
              backups :=
                if baseText = "" then before.backups
                else Function.update before.backups report.revisionId (some (.text baseText)) } := by
  unfold saveBackup
  split
  · next empty =>
      rw [run_pure_eq_ok]
      constructor
      · rintro ⟨_, rfl⟩
        exact ⟨fun filled => absurd empty filled, rfl⟩
      · rintro ⟨_, rfl⟩
        exact ⟨rfl, rfl⟩
  · next filled =>
      simp only [run_bind_eq_ok, run_attempt_eq_ok, run_modify_eq_ok]
      constructor
      · rintro ⟨_, _, ⟨allowed, rfl⟩, rfl⟩
        exact ⟨fun _ => allowed, rfl⟩
      · rintro ⟨allowed, rfl⟩
        exact ⟨(), _, ⟨allowed filled, rfl⟩, rfl⟩

/-- The first part of an apply ends well exactly when its record is saved. -/
theorem run_saveRevision_eq_ok {start : TomlTable R × String}
    : (saveRevision formats host report).run before = .ok start after
      ↔ ∃ found,
          Saves formats host report before found
          ∧ start = (found.root, formats.contentHash found.baseText)
          ∧ after = before.withRevision host report.revisionId found := by
  simp only [saveRevision, run_bind_eq_ok, run_settle_eq_ok, run_get_eq_ok, ensure_eq_ok,
    run_attemptRead_eq_ok, run_standingConfig_eq_ok, run_attempt_eq_ok, run_saveBackup_eq_ok,
    run_modify_eq_ok, run_pure_eq_ok, mapError_eq_ok, Prod.exists, and_assoc, exists_and_left,
    exists_eq_left, exists_eq_left', exists_const]
  constructor
  · rintro ⟨promotable, monitorRead, _, monitor, baseRead, baseText, base, policyRead, root,
      currentPolicy, policy, priorRead, previous, prior, directory, backup, bytes, encoded,
      saved, rfl, rfl⟩
    exact ⟨⟨baseText, root, currentPolicy, previous, bytes⟩,
      ⟨promotable, monitorRead, monitor, baseRead, base, policyRead, policy, priorRead, prior,
        directory, backup, encoded, saved⟩, rfl, rfl⟩
  · rintro ⟨found, saves, rfl, rfl⟩
    exact ⟨saves.promotable, saves.monitorRead, (), saves.monitor, saves.baseRead, found.baseText,
      saves.base, saves.policyRead, found.root, found.currentPolicy, saves.policy,
      saves.priorRead, found.previous, saves.prior, saves.directory, saves.backup, found.bytes,
      saves.encoded, saves.saved, rfl, rfl⟩

-- The steps after the record

def SnapshotInstalled (formats : PolicyFormats R) (host : PolicyHost)
    (report : CalibrationReport R) (standing prior : Option StoredFile)
    : Prop :=
  if 0 < report.selectedPolicy.wPrior then
    match report.priorSnapshot with
    | none => prior = standing
    | some raw => SnapshotActivated formats host raw prior
  else SnapshotCleared formats host standing prior

theorem run_installSnapshot_eq_ok
    : (installSnapshot formats host report).run before = .ok done after
      ↔ ∃ prior,
          SnapshotInstalled formats host report before.prior prior
          ∧ after = { before with prior := prior } := by
  unfold installSnapshot SnapshotInstalled
  split
  · cases report.priorSnapshot with
    | none =>
        rw [run_pure_eq_ok]
        constructor
        · rintro ⟨_, rfl⟩
          exact ⟨_, rfl, rfl⟩
        · rintro ⟨_, rfl, rfl⟩
          exact ⟨rfl, rfl⟩
    | some raw => exact run_activateSnapshot_eq_ok
  · exact run_clearSnapshot_eq_ok

/-- The steps after the record pass. -/
def Finishes (formats : PolicyFormats R) (host : PolicyHost) (report : CalibrationReport R)
    (store : PolicyStore) (root : TomlTable R) (baseDigest : String)
    : Prop :=
  (∃ prior, SnapshotInstalled formats host report store.prior prior)
  ∧ ∃ rendered,
      PolicyWrites formats host store.config root report.selectedPolicy baseDigest rendered

variable {applied : CalibrationReport R}

theorem run_installSelected_eq_ok {root : TomlTable R} {baseDigest : String}
    : (installSelected formats host report root baseDigest).run before = .ok applied after
      ↔ ∃ prior rendered,
          SnapshotInstalled formats host report before.prior prior
          ∧ PolicyWrites formats host before.config root report.selectedPolicy baseDigest
            rendered
          ∧ applied = { report with mode := "applied", applied := true }
          ∧ after = { before with prior := prior, config := some (.text rendered) } := by
  simp only [installSelected, run_bind_eq_ok, run_installSnapshot_eq_ok,
    run_writeManagedPolicyToToml_eq_ok, run_pure_eq_ok]
  constructor
  · rintro ⟨_, _, ⟨prior, installed, rfl⟩, _, _, ⟨rendered, writes, rfl⟩, rfl, rfl⟩
    exact ⟨prior, rendered, installed, writes, rfl, rfl⟩
  · rintro ⟨prior, rendered, installed, writes, rfl, rfl⟩
    exact ⟨(), _, ⟨prior, installed, rfl⟩, (), _, ⟨rendered, writes, rfl⟩, rfl, rfl⟩

/-- An apply ends well when it saves its record and every step after that passes too. -/
theorem run_applyCalibratedPolicy_eq_ok
    : (applyCalibratedPolicy formats host report).run before = .ok applied after
      ↔ ∃ found prior rendered,
          Saves formats host report before found
          ∧ SnapshotInstalled formats host report before.prior prior
          ∧ PolicyWrites formats host (before.surveyed host).config found.root
            report.selectedPolicy (formats.contentHash found.baseText) rendered
          ∧ applied = { report with mode := "applied", applied := true }
          ∧ after
            = { before.withRevision host report.revisionId found with
                prior := prior, config := some (.text rendered) } := by
  simp only [applyCalibratedPolicy, run_bind_eq_ok, run_saveRevision_eq_ok,
    run_installSelected_eq_ok]
  constructor
  · rintro ⟨_, _, ⟨found, saves, rfl, rfl⟩, prior, rendered, installed, writes, rfl, rfl⟩
    exact ⟨found, prior, rendered, saves, installed, writes, rfl, rfl⟩
  · rintro ⟨found, prior, rendered, saves, installed, writes, rfl, rfl⟩
    exact ⟨_, _, ⟨found, saves, rfl, rfl⟩, prior, rendered, installed, writes, rfl, rfl⟩

-- What a failing apply leaves alone

def LeftToOthers (host : PolicyHost) : Option StoredFile → Option StoredFile → Prop :=
  Relation.ReflTransGen fun config next => ∃ access, next = host.meanwhile access config

def ConfigLeft (host : PolicyHost) (start : Option StoredFile) (store : PolicyStore) : Prop :=
  LeftToOthers host start store.config

/-- The invariant of a call that writes no record. -/
def RevisionsKept (revisions : String → Option StoredFile) (store : PolicyStore) : Prop :=
  store.revisions = revisions

variable {start : Option StoredFile} {revisions : String → Option StoredFile}
  {Invariant : PolicyStore → Prop}

omit [Field R] [LinearOrder R] in
theorem attempt_keeps (access : PolicyAccess)
    : Keeps Invariant (attempt (R := R) host access) := by
  unfold attempt
  split
  · exact .pure ()
  · exact .throw _

omit [Field R] [LinearOrder R] in
theorem attemptRead_keeps (access : PolicyAccess) (file : Option StoredFile)
    : Keeps Invariant (attemptRead (R := R) host access file) := by
  cases file with
  | none => exact .pure ()
  | some _ => exact attempt_keeps access

omit [Field R] [LinearOrder R] in
theorem standingConfig_keeps (access : ConfigAccess)
    (kept : ∀ store, Invariant store → Invariant (store.seenAt host access))
    : Keeps Invariant (standingConfig (R := R) host access) := by
  refine .bind (.modify kept) fun _ => ?_
  refine .bind .get fun store => ?_
  refine .bind (attemptRead_keeps _ _) fun _ => ?_
  exact .pure _

/-- Others' changes of the configuration keep both invariants. -/
theorem ConfigLeft.seenAt (store : PolicyStore) (access : ConfigAccess)
    (left : ConfigLeft host start store)
    : ConfigLeft host start (store.seenAt host access) :=
  left.tail ⟨access, rfl⟩

omit [Field R] [LinearOrder R] in
theorem saveActivePriorSnapshot_keeps (snapshot : PriorSnapshot)
    (kept : ∀ store prior, Invariant store → Invariant { store with prior := prior })
    : Keeps Invariant (saveActivePriorSnapshot formats host snapshot) := by
  refine .bind (attempt_keeps _) fun _ => ?_
  refine .bind (.settle _) fun bytes => ?_
  refine .bind (attempt_keeps _) fun _ => ?_
  exact .modify fun store => kept store _

omit [Field R] [LinearOrder R] in
theorem activateSnapshot_keeps (raw : SerializedPriorSnapshot)
    (kept : ∀ store prior, Invariant store → Invariant { store with prior := prior })
    : Keeps Invariant (activateSnapshot formats host raw) :=
  .bind (.settle _) fun snapshot => saveActivePriorSnapshot_keeps snapshot kept

omit [Field R] [LinearOrder R] in
theorem clearSnapshot_keeps
    (kept : ∀ store prior, Invariant store → Invariant { store with prior := prior })
    : Keeps Invariant (clearSnapshot formats host) := by
  refine .bind .get fun store => ?_
  cases store.prior with
  | none => exact .pure ()
  | some file => exact saveActivePriorSnapshot_keeps _ kept

variable (report : CalibrationReport R)

theorem installSnapshot_keeps
    (kept : ∀ store prior, Invariant store → Invariant { store with prior := prior })
    : Keeps Invariant (installSnapshot formats host report) := by
  unfold installSnapshot
  refine .ite ?_ (clearSnapshot_keeps kept)
  cases report.priorSnapshot with
  | none => exact .pure ()
  | some raw => exact activateSnapshot_keeps raw kept

/-- The checks and the backup of an apply write neither the configuration nor a record, and
saving the record is their last write.
-/
theorem saveRevision_keeps
    (kept : ∀ store access, Invariant store → Invariant (store.seenAt host access))
    (backups : ∀ store backups, Invariant store → Invariant { store with backups := backups })
    : FailsKeeping Invariant (saveRevision formats host report) := by
  unfold saveRevision
  refine .bind (.settle _) fun _ => ?_
  refine .bind .get fun store => ?_
  refine .bind (attemptRead_keeps _ _) fun _ => ?_
  refine .bind (.settle _) fun _ => ?_
  refine .bind (standingConfig_keeps _ fun store => kept store _) fun base => ?_
  refine .bind (.settle _) fun baseText => ?_
  refine .bind (standingConfig_keeps _ fun store => kept store _) fun config => ?_
  refine .bind (.settle _) fun read => ?_
  refine .bind (attemptRead_keeps _ _) fun _ => ?_
  refine .bind (.settle _) fun previous => ?_
  refine .bind (attempt_keeps _) fun _ => ?_
  refine .bind ?_ fun _ => ?_
  · unfold saveBackup
    refine .ite (.pure ()) ?_
    exact .bind (attempt_keeps _) fun _ => .modify fun store => backups store _
  · refine .bind (.settle _) fun bytes => ?_
    refine .bind (attempt_keeps _) fun _ => ?_
    exact .map (.modify _) fun _ => (read.1, formats.contentHash baseText)

theorem writeManagedPolicyToToml_keeps (root : TomlTable R) (policy : ManagedRankingPolicy R)
    (expectedBaseDigest : String)
    (kept : ∀ store access, Invariant store → Invariant (store.seenAt host access))
    : FailsKeeping Invariant
        (writeManagedPolicyToToml formats host root policy expectedBaseDigest) := by
  unfold writeManagedPolicyToToml
  refine .bind (.settle _) fun _ => ?_
  refine .bind (standingConfig_keeps _ fun store => kept store _) fun config => ?_
  refine .bind (.settle _) fun current => ?_
  refine .bind (.settle _) fun _ => ?_
  refine .bind (.settle _) fun _ => ?_
  refine .bind (.settle _) fun installed => ?_
  refine .bind (.settle _) fun rendered => ?_
  refine .bind (.modify fun store => kept store _) fun _ => ?_
  exact .bind (attempt_keeps _) fun _ => .modify _

theorem installSelected_keeps (root : TomlTable R) (baseDigest : String)
    (kept : ∀ store access, Invariant store → Invariant (store.seenAt host access))
    (prior : ∀ store prior, Invariant store → Invariant { store with prior := prior })
    : FailsKeeping Invariant (installSelected formats host report root baseDigest) :=
  .bind (installSnapshot_keeps report prior) fun _ =>
    .map (writeManagedPolicyToToml_keeps root _ baseDigest kept) _

end Policies

end SkillRanker.Learning
