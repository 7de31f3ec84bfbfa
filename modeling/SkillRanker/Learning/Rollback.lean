import SkillRanker.Learning.Apply

/-! What a rollback needs to restore the policy of a record. -/

namespace SkillRanker.Learning

open SkillRanker.Library SkillRanker.Recommendation

variable {R : Type}
variable {root : TomlTable R} {policy : ManagedRankingPolicy R}

/-- What the formats of third parties promise: values are read back as they were written, and
tables are read with their keys in order.
-/
structure PolicyFormats.RoundTrips (formats : PolicyFormats R) : Prop where
  parsed
    : ∀ root text,
        entriesOrdered root → formats.renderToml root = .ok text → formats.parseToml text = .ok root
  ordered : ∀ text root, formats.parseToml text = .ok root → entriesOrdered root
  snapshots : ∀ raw, ∃ text, formats.encodeSnapshot raw = .ok text
  revisions
    : ∀ record text,
        formats.encodeRevision record = .ok text → formats.decodeRevision text = .ok record

/-- A text that is no longer than a configuration may be. -/
def FitsFile (text : String) : Prop := text.utf8ByteSize ≤ configFileBytes

theorem read_text {text what : String} (fits : FitsFile text)
    : (StoredFile.text text).read (R := R) configFileBytes what = .ok text := by
  rw [StoredFile.read, if_neg (Nat.not_lt.mpr fits)]

variable [Field R] [LinearOrder R] {formats : PolicyFormats R}

def PolicyStore.policyInForce (store : PolicyStore) (formats : PolicyFormats R)
    : Except (LearningError R) (ManagedRankingPolicy R) := do
  let read ← readManagedPolicyFromToml formats store.config
  return read.2

/-- On a quiet disk, the rollback of a revision puts a policy in force. -/
def Restores (formats : PolicyFormats R) (store : PolicyStore) (revisionId : String)
    (policy : ManagedRankingPolicy R)
    : Prop :=
  ∃ report after,
    (rollbackManagedPolicy formats .quiet revisionId true).run store = .ok report after
    ∧ after.policyInForce formats = .ok policy

/-- A configuration stands in force: its text is read back to its root table and policy. -/
structure Standing (formats : PolicyFormats R) (config : Option StoredFile) (root : TomlTable R)
    (policy : ManagedRankingPolicy R)
    : Prop where
  text : ∃ text, config = some (.text text) ∧ FitsFile text ∧ formats.parseToml text = .ok root
  depth : checkTomlDepth root = .ok ()
  policy : policyOfRoot root = .ok policy

variable {config : Option StoredFile}

theorem Standing.read (standing : Standing formats config root policy)
    : readManagedPolicyFromToml formats config = .ok (root, policy) := by
  obtain ⟨text, rfl, fits, parsed⟩ := standing.text
  exact (readManagedPolicyFromToml_eq_ok formats).mpr
    ⟨text, read_text fits, parsed, standing.depth, standing.policy⟩

section

variable (roundTrips : formats.RoundTrips)
include roundTrips

/-- What an apply or a rollback has written stands in force. -/
theorem standing_of_installed {installed : TomlTable R} {rendered : String}
    (ordered : entriesOrdered root) (depth : checkTomlDepth root = .ok ()) (valid : policy.Valid)
    (placed : installPolicy root policy = .ok installed)
    (wrote : formats.renderToml installed = .ok rendered) (fits : FitsFile rendered)
    : Standing formats (some (.text rendered)) installed policy where
  text :=
    ⟨rendered, rfl, fits,
      roundTrips.parsed installed rendered (installPolicy_ordered ordered placed) wrote⟩
  depth := checkTomlDepth_installPolicy depth placed
  policy := policyOfRoot_installPolicy valid placed

omit roundTrips in
theorem policyOfRoot_valid (set : policyOfRoot root = .ok policy)
    : policy.Valid := by
  simp only [policyOfRoot, bind_eq_ok, pure_eq_ok] at set
  obtain ⟨_, _, _, accepted, rfl⟩ := set
  exact (ManagedRankingPolicy.validate_eq_ok _).mp accepted

/-- Whatever policy is read from a store is valid, its table in order and not too deep. -/
theorem readManagedPolicyFromToml_sound [IsStrictOrderedRing R]
    (read : readManagedPolicyFromToml formats config = .ok (root, policy))
    : policy.Valid ∧ entriesOrdered root ∧ checkTomlDepth root = .ok () := by
  cases config with
  | none =>
      cases read
      exact ⟨ManagedRankingPolicy.baseline_valid, rfl, rfl⟩
  | some file =>
      obtain ⟨text, _, parsed, depth, set⟩ := (readManagedPolicyFromToml_eq_ok formats).mp read
      exact ⟨policyOfRoot_valid set, roundTrips.ordered text root parsed, depth⟩

structure Acceptable (formats : PolicyFormats R) (revisionId : String)
    (record : PolicyRevisionRecord R) (file : Option StoredFile)
    : Prop where
  named : NamesRevision revisionId
  text
    : ∃ text,
        file = some (.text text) ∧ FitsFile text ∧ formats.decodeRevision text = .ok record
  schema : record.schemaVersion = policyRevisionSchemaVersion
  previous : record.previousPolicy.Valid
  applied : record.appliedPolicy.Valid
  digest : formats.policyDigest record.appliedPolicy = record.expectedManagedDigest
  snapshot
    : ∀ raw,
        record.previousPriorSnapshot = some raw
        → ∃ snapshot, PriorSnapshot.fromSerialized (R := R) raw = .ok snapshot

omit [Field R] [LinearOrder R] in
theorem snapshotSaved_quiet (snapshot : PriorSnapshot)
    : ∃ bytes, SnapshotSaved formats .quiet snapshot bytes := by
  obtain ⟨bytes, encoded⟩ := roundTrips.snapshots snapshot.toSerialized
  exact ⟨bytes, rfl, encoded, rfl⟩

omit [Field R] [LinearOrder R] in
theorem clearSnapshot_quiet (store : PolicyStore)
    : ∃ prior,
        (clearSnapshot formats .quiet).run store = .ok () { store with prior := prior } := by
  obtain ⟨bytes, saved⟩ := snapshotSaved_quiet roundTrips .default
  cases standing : store.prior with
  | none => exact ⟨none, run_clearSnapshot_eq_ok.mpr ⟨none, by rw [standing]; rfl, rfl⟩⟩
  | some file =>
      exact ⟨_, run_clearSnapshot_eq_ok.mpr ⟨_, by rw [standing]; exact ⟨bytes, saved, rfl⟩, rfl⟩⟩

end

variable {record : PolicyRevisionRecord R}

theorem restoreSnapshot_quiet (roundTrips : formats.RoundTrips)
    (readable
      : ∀ raw,
          record.previousPriorSnapshot = some raw
          → ∃ snapshot, PriorSnapshot.fromSerialized (R := R) raw = .ok snapshot)
    (store : PolicyStore)
    : ∃ prior,
        (restoreSnapshot formats .quiet record).run store
          = .ok () { store with prior := prior } := by
  cases kept : record.previousPriorSnapshot with
  | none =>
      simp only [restoreSnapshot, kept]
      exact clearSnapshot_quiet roundTrips store
  | some raw =>
      by_cases weighs : 0 < record.previousPolicy.wPrior
      · simp only [restoreSnapshot, kept, if_pos weighs]
        obtain ⟨snapshot, read⟩ := readable raw kept
        obtain ⟨bytes, saved⟩ := snapshotSaved_quiet roundTrips snapshot
        exact ⟨_, run_activateSnapshot_eq_ok.mpr ⟨_, ⟨snapshot, bytes, read, saved, rfl⟩, rfl⟩⟩
      · simp only [restoreSnapshot, kept, if_neg weighs]
        exact clearSnapshot_quiet roundTrips store

section

variable {store : PolicyStore} {revisionId : String} {restored : TomlTable R} {again : String}
  (acceptable : Acceptable formats revisionId record (store.revisions revisionId))
  (standing : Standing formats store.config root record.appliedPolicy)
  (placed : installPolicy root record.previousPolicy = .ok restored)
  (wrote : formats.renderToml restored = .ok again)
include acceptable standing placed wrote

/-- A rollback of an acceptable record whose applied policy is in force writes the configuration
with the previous policy, and restores the snapshot.
-/
theorem rolledBack_of_acceptable {prior : Option StoredFile}
    (snapshot
      : (restoreSnapshot formats .quiet record).run { store with config := some (.text again) }
        = .ok () { store with config := some (.text again), prior := prior })
    : ∃ report,
        (rollbackManagedPolicy formats .quiet revisionId true).run store
          = .ok report { store with config := some (.text again), prior := prior } := by
  obtain ⟨bytes, saved, room, decoded⟩ := acceptable.text
  obtain ⟨text, config, textFits, parsed⟩ := standing.text
  have textRead : configText (R := R) store.config = .ok text := by
    rw [config, configText]
    exact read_text textFits
  have writes
      : PolicyWrites formats .quiet store.config root record.previousPolicy
          (formats.contentHash text) again :=
    {
      valid := acceptable.previous
      reread := fun _ => rfl
      unchanged := ⟨text, textRead, rfl⟩
      installed := ⟨restored, placed, wrote⟩
      replaced := rfl
    }
  have checked : checkRevision formats record = .ok () := by
    simp only [checkRevision, bind_eq_ok, ensure_eq_ok]
    exact ⟨(), acceptable.schema, (), (ManagedRankingPolicy.validate_eq_ok _).mpr
      acceptable.previous, (), (ManagedRankingPolicy.validate_eq_ok _).mpr acceptable.applied,
      acceptable.digest⟩
  have restored
      : (restoreRevision formats .quiet true root record (formats.contentHash text)).run store
        = .ok () { store with config := some (.text again), prior := prior } :=
    run_bind_eq_ok.mpr
      ⟨(), _, run_writeManagedPolicyToToml_eq_ok.mpr ⟨again, writes, rfl⟩, snapshot⟩
  have accepted : decodeRevision formats (.text bytes) = .ok record := by
    simp only [decodeRevision, bind_eq_ok, mapError_eq_ok]
    exact ⟨bytes, read_text room, decoded⟩
  simp only [rollbackManagedPolicy, run_bind_eq_ok, run_settle_eq_ok, run_get_eq_ok,
    run_attempt_eq_ok, run_standingConfig_eq_ok, run_pure_eq_ok, ensure_eq_ok, require_eq_ok,
    and_assoc, exists_and_left, exists_eq_left, exists_eq_left', exists_const, Prod.exists]
  exact ⟨acceptable.named, _, .text bytes, saved, rfl, record, accepted, (), checked,
    fun _ => rfl, text, textRead, fun _ => rfl, root, record.appliedPolicy, standing.read,
    acceptable.digest, (), _, restored, rfl, rfl⟩

/-- A rollback restores the previous policy of an acceptable record whose applied policy is in
force, where the restored configuration is not too long.
-/
theorem restores_of_acceptable (roundTrips : formats.RoundTrips) (fits : FitsFile again)
    : Restores formats store revisionId record.previousPolicy := by
  obtain ⟨text, config, _, parsed⟩ := standing.text
  have ordered := roundTrips.ordered text root parsed
  have stands :=
    standing_of_installed roundTrips ordered standing.depth acceptable.previous placed wrote fits
  obtain ⟨prior, snapshot⟩ :=
    restoreSnapshot_quiet roundTrips acceptable.snapshot
      { store with config := some (.text again) }
  obtain ⟨report, rolled⟩ := rolledBack_of_acceptable acceptable standing placed wrote snapshot
  refine ⟨report, _, rolled, ?_⟩
  rw [PolicyStore.policyInForce, stands.read]
  rfl

end

end SkillRanker.Learning
