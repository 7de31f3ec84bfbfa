import SkillRanker.Learning.ApplyAtomicity
import SkillRanker.Learning.Rollback
import SkillRanker.Library.Machine

/-! Runs of applies and rollbacks: when the rollback of the last apply restores the policy that
was in force before its report first was.
-/

namespace SkillRanker.Learning

open SkillRanker.Library SkillRanker.Recommendation

variable {revisionId : String} {store before after : PolicyStore}

-- The store as a machine

/-- A disk with no one else on it during a call. -/
def PolicyHost.alone (fails : PolicyAccess → Option String) : PolicyHost :=
  {
    fails := fails
    meanwhile := fun _ config => config
  }

/-- The calls of a run, and what happens to the other files between them. -/
inductive PolicyOperation (R : Type)
  | apply (report : CalibrationReport R) (fails : PolicyAccess → Option String)
  | rollback (revisionId : String) (apply : Bool) (fails : PolicyAccess → Option String)
  | outside (config monitor prior : Option StoredFile)

section Runs

variable {R : Type} [Field R] [LinearOrder R] {formats : PolicyFormats R}

/-- The store under the calls of a run. -/
def policies (formats : PolicyFormats R)
    : Machine PolicyStore (PolicyOperation R) (Except (LearningError R) Unit) where
  next store operation :=
    match operation with
    | .apply report fails =>
        concluded ((applyCalibratedPolicy formats (.alone fails) report).run store)
    | .rollback revisionId apply fails =>
        concluded ((rollbackManagedPolicy formats (.alone fails) revisionId apply).run store)
    | .outside config monitor prior =>
        ({ store with config := config, monitor := monitor, prior := prior }, .ok ())

abbrev PolicyStep (R : Type) : Type :=
  Transition PolicyStore (PolicyOperation R) (Except (LearningError R) Unit)

def appliedReport (step : PolicyStep R) : Option (CalibrationReport R) :=
  match step.event, step.output with
  | .apply report _, .ok _ => some report
  | _, _ => none

def putsInForce (revisionId : String) (step : PolicyStep R) : Bool :=
  (appliedReport step).any fun report => report.revisionId = revisionId

omit [Field R] [LinearOrder R] in
theorem putsInForce_iff {step : PolicyStep R}
    : putsInForce revisionId step
      ↔ ∃ report, appliedReport step = some report ∧ report.revisionId = revisionId := by
  cases done : appliedReport step <;> simp [putsInForce, done]

/-- What a run is to keep: its last apply can be rolled back to the policy before the first
apply of its revision, and every saved record stays.
-/
structure RollbackLawful (formats : PolicyFormats R) (history : List (PolicyStep R))
    (final : PolicyStore)
    : Prop where
  restores
    : ∀ earlier last report,
        history = earlier ++ [last]
        → appliedReport last = some report
        → ∃ first policy,
            history.find? (putsInForce report.revisionId) = some first
            ∧ first.before.policyInForce formats = .ok policy
            ∧ Restores formats final report.revisionId policy
  kept
    : ∀ step ∈ history, ∀ revisionId file,
        step.before.revisions revisionId = some file → final.revisions revisionId = some file

/-- A rollback can read the record of an apply and put the policy back that it found: the
identifier is accepted, and neither the record nor the configuration is too long, under the new
policy or the one it replaces.
-/
structure Reversible (formats : PolicyFormats R) (report : CalibrationReport R)
    (found : Findings R)
    : Prop where
  named : NamesRevision report.revisionId
  short : FitsFile found.bytes
  rendered
    : ∀ installed text,
        installPolicy found.root report.selectedPolicy = .ok installed
        → formats.renderToml installed = .ok text
        → FitsFile text
          ∧ ∃ restored again,
              installPolicy installed found.currentPolicy = .ok restored
              ∧ formats.renderToml restored = .ok again
              ∧ FitsFile again

/-- The record that an apply comes to save is reversible, and takes no other record's place. -/
structure Recordable (formats : PolicyFormats R) (report : CalibrationReport R)
    (store : PolicyStore) (found : Findings R)
    : Prop where
  reversible : Reversible formats report found
  same
    : store.revisions report.revisionId = none
      ∨ store.revisions report.revisionId = some (.text found.bytes)

def SavesSteadily (formats : PolicyFormats R) (step : PolicyStep R) : Prop :=
  ∀ report fails found,
    step.event = .apply report fails
    → Saves formats (.alone fails) report step.before found
    → Recordable formats report step.before found

-- Records stay

section Keeping

variable {host : PolicyHost} {revisions : String → Option StoredFile}

omit [Field R] [LinearOrder R] in
theorem standingConfig_saves (access : ConfigAccess)
    : Keeps (RevisionsKept revisions) (standingConfig (R := R) host access) :=
  standingConfig_keeps access fun _ kept => kept

theorem writeManagedPolicyToToml_saves (root : TomlTable R) (policy : ManagedRankingPolicy R)
    (expectedBaseDigest : String)
    : Keeps (RevisionsKept revisions)
        (writeManagedPolicyToToml formats host root policy expectedBaseDigest) := by
  unfold writeManagedPolicyToToml
  refine .bind (.settle _) fun _ => ?_
  refine .bind (standingConfig_saves _) fun config => ?_
  refine .bind (.settle _) fun current => ?_
  refine .bind (.settle _) fun _ => ?_
  refine .bind (.settle _) fun _ => ?_
  refine .bind (.settle _) fun installed => ?_
  refine .bind (.settle _) fun rendered => ?_
  refine .bind (.modify fun store kept => kept) fun _ => ?_
  refine .bind (attempt_keeps _) fun _ => ?_
  exact .modify fun store kept => kept

theorem restoreRevision_saves (apply : Bool) (root : TomlTable R)
    (record : PolicyRevisionRecord R) (baseDigest : String)
    : Keeps (RevisionsKept revisions)
        (restoreRevision formats host apply root record baseDigest) := by
  have cleared : Keeps (RevisionsKept revisions) (clearSnapshot formats host) :=
    clearSnapshot_keeps fun _ _ kept => kept
  have activated (raw : SerializedPriorSnapshot)
      : Keeps (RevisionsKept revisions) (activateSnapshot formats host raw) :=
    activateSnapshot_keeps raw fun _ _ kept => kept
  unfold restoreRevision
  refine .ite (.bind (writeManagedPolicyToToml_saves _ _ _) fun _ => ?_) (.pure ())
  unfold restoreSnapshot
  cases record.previousPriorSnapshot with
  | none => exact cleared
  | some raw => exact .ite (activated raw) cleared

theorem rollbackManagedPolicy_saves (revisionId : String) (apply : Bool)
    : Keeps (RevisionsKept revisions)
        (rollbackManagedPolicy formats host revisionId apply) := by
  unfold rollbackManagedPolicy
  refine .bind (.settle _) fun _ => ?_
  refine .bind .get fun store => ?_
  refine .bind (.settle _) fun file => ?_
  refine .bind (attempt_keeps _) fun _ => ?_
  refine .bind (.settle _) fun record => ?_
  refine .bind (.settle _) fun _ => ?_
  refine .bind (standingConfig_saves _) fun base => ?_
  refine .bind (.settle _) fun baseText => ?_
  refine .bind (standingConfig_saves _) fun config => ?_
  refine .bind (.settle _) fun read => ?_
  refine .bind (.settle _) fun _ => ?_
  exact .bind (restoreRevision_saves _ _ _ _) fun _ => .pure _

end Keeping

omit [Field R] [LinearOrder R] in
/-- A computation that keeps the records leaves them in the machine's next state. -/
theorem revisions_concluded {α : Type} {action : PolicyUpdate R α}
    (keeps : Keeps (RevisionsKept store.revisions) action)
    : (concluded (action.run store)).1.revisions = store.revisions := by
  have kept := keeps store rfl
  cases ended : action.run store with
  | ok value after =>
      rw [ended] at kept
      exact kept
  | error error after =>
      rw [ended] at kept
      exact kept

/-- An apply leaves the records as they were, or puts its own in its place. -/
theorem apply_revisions (formats : PolicyFormats R) (host : PolicyHost)
    (report : CalibrationReport R) (store : PolicyStore)
    : (concluded ((applyCalibratedPolicy formats host report).run store)).1.revisions
        = store.revisions
      ∨ ∃ found,
          Saves formats host report store found
          ∧ (concluded ((applyCalibratedPolicy formats host report).run store)).1.revisions
            = Function.update store.revisions report.revisionId (some (.text found.bytes)) := by
  cases ended : (applyCalibratedPolicy formats host report).run store with
  | ok applied after =>
      obtain ⟨found, prior, rendered, saves, _, _, _, rfl⟩ :=
        run_applyCalibratedPolicy_eq_ok.mp ended
      exact .inr ⟨found, saves, rfl⟩
  | error error after =>
      rcases run_bind_eq_error.mp ended with early | ⟨start, between, saved, late⟩
      · exact .inl (untouched_of_early early).revisions
      · obtain ⟨found, saves, rfl, rfl⟩ := run_saveRevision_eq_ok.mp saved
        exact .inr ⟨found, saves, (untouched_of_late late).revisions⟩

variable {operation : PolicyOperation R}

/-- A steady step keeps the records. -/
theorem revisions_next
    (steady : SavesSteadily formats ((policies formats).transition store operation))
    {file : StoredFile} (saved : store.revisions revisionId = some file)
    : ((policies formats).next store operation).1.revisions revisionId = some file := by
  cases operation with
  | outside config monitor prior => exact saved
  | rollback other apply fails =>
      have kept : ((policies formats).next store (.rollback other apply fails)).1.revisions
          = store.revisions :=
        revisions_concluded (rollbackManagedPolicy_saves other apply)
      rw [kept]
      exact saved
  | apply report fails =>
      change (concluded ((applyCalibratedPolicy formats (.alone fails) report).run store)
        ).1.revisions revisionId = some file
      rcases apply_revisions formats (.alone fails) report store with
        kept | ⟨found, saves, wrote⟩
      · rw [kept]
        exact saved
      · rw [wrote]
        by_cases own : revisionId = report.revisionId
        · subst own
          rcases (steady report fails found rfl saves).same with missing | same
          · exact absurd (saved.symm.trans missing) (Option.some_ne_none file)
          · rw [Function.update_self]
            exact same.symm.trans saved
        · rw [Function.update_of_ne own]
          exact saved

/-- A steady run keeps the records, by induction on its calls. -/
theorem revisions_final {operations : List (PolicyOperation R)}
    (steady : ∀ step ∈ (policies formats).history store operations, SavesSteadily formats step)
    {file : StoredFile} (saved : store.revisions revisionId = some file)
    : ((policies formats).final store operations).revisions revisionId = some file := by
  induction operations generalizing store with
  | nil => exact saved
  | cons operation rest ih =>
      have first := revisions_next (steady _ List.mem_cons_self) saved
      exact ih (fun step mem => steady step (List.mem_cons_of_mem _ mem)) first

/-- What a successful apply leaves: its record, and its policy in the configuration. -/
structure Applied (formats : PolicyFormats R) (report : CalibrationReport R)
    (before after : PolicyStore) (found : Findings R)
    : Prop where
  read
    : readManagedPolicyFromToml formats before.config = .ok (found.root, found.currentPolicy)
  valid : report.selectedPolicy.Valid
  encoded : formats.encodeRevision (found.record formats report) = .ok found.bytes
  saved : after.revisions report.revisionId = some (.text found.bytes)
  installed
    : ∃ installed rendered,
        installPolicy found.root report.selectedPolicy = .ok installed
        ∧ formats.renderToml installed = .ok rendered
        ∧ after.config = some (.text rendered)

variable {report : CalibrationReport R}

theorem applied_of_step
    (done : appliedReport ((policies formats).transition store operation) = some report)
    : ∃ fails found,
        operation = .apply report fails
        ∧ Saves formats (.alone fails) report store found
        ∧ Applied formats report store ((policies formats).next store operation).1 found := by
  cases operation with
  | outside config monitor prior => cases done
  | rollback other apply fails => cases done
  | apply other fails =>
      cases ended : (applyCalibratedPolicy formats (.alone fails) other).run store with
      | error error after =>
          simp [appliedReport, Machine.transition, policies, ended, concluded] at done
      | ok applied after =>
          have same : other = report := by
            simpa [appliedReport, Machine.transition, policies, ended, concluded] using done
          subst same
          obtain ⟨found, prior, rendered, saves, _, writes, _, rfl⟩ :=
            run_applyCalibratedPolicy_eq_ok.mp ended
          obtain ⟨installed, placed, wrote⟩ := writes.installed
          have next
              : ((policies formats).next store (.apply other fails)).1
                = { store.withRevision (.alone fails) other.revisionId found with
                    prior := prior, config := some (.text rendered) } := by
            simp only [policies, ended, concluded]
          rw [next]
          exact ⟨fails, found, rfl, saves, saves.policy, writes.valid, saves.encoded,
            Function.update_self _ _ _, installed, rendered, placed, wrote, rfl⟩

-- The last apply is rolled back

variable {found : Findings R}

section

variable (roundTrips : formats.RoundTrips)
include roundTrips

theorem Applied.acceptable [IsStrictOrderedRing R]
    (applied : Applied formats report before after found)
    (reversible : Reversible formats report found)
    : Acceptable formats report.revisionId (found.record formats report)
        (after.revisions report.revisionId) where
  named := reversible.named
  text :=
    ⟨found.bytes, applied.saved, reversible.short,
      roundTrips.revisions (found.record formats report) found.bytes applied.encoded⟩
  schema := rfl
  previous := (readManagedPolicyFromToml_sound roundTrips applied.read).1
  applied := applied.valid
  digest := rfl
  snapshot := by
    intro raw kept
    obtain ⟨snapshot, _, rfl⟩ := Option.map_eq_some_iff.mp kept
    exact snapshot.fromSerialized_toSerialized

/-- An apply can be rolled back to the policy it found. -/
theorem Applied.restores [IsStrictOrderedRing R]
    (applied : Applied formats report before after found)
    (reversible : Reversible formats report found)
    : Restores formats after report.revisionId found.currentPolicy := by
  obtain ⟨_, ordered, depth⟩ := readManagedPolicyFromToml_sound roundTrips applied.read
  obtain ⟨installed, rendered, placed, wrote, config⟩ := applied.installed
  obtain ⟨short, restored, again, replaced, rewrote, room⟩ :=
    reversible.rendered installed rendered placed wrote
  have standing : Standing formats after.config installed report.selectedPolicy := by
    rw [config]
    exact standing_of_installed roundTrips ordered depth applied.valid placed wrote short
  exact restores_of_acceptable (applied.acceptable roundTrips reversible) standing replaced
    rewrote roundTrips room

/-- Two applies of one revision that left one record found one policy in force. -/
theorem Applied.policy_eq {other : CalibrationReport R} {before' after' : PolicyStore}
    {found' : Findings R} (applied : Applied formats report before after found)
    (again : Applied formats other before' after' found') (same : found.bytes = found'.bytes)
    : found.currentPolicy = found'.currentPolicy := by
  have decoded := roundTrips.revisions _ _ applied.encoded
  rw [same, roundTrips.revisions _ _ again.encoded] at decoded
  exact (congrArg PolicyRevisionRecord.previousPolicy (Except.ok.inj decoded)).symm

/-- An apply that ends a steady run can be rolled back to the policy that was in force before
its revision first was.
-/
theorem last_restores [IsStrictOrderedRing R] {start : PolicyStore}
    {before : List (PolicyOperation R)}
    (steady
      : ∀ step ∈ (policies formats).history start (before ++ [operation]),
          SavesSteadily formats step)
    (done
      : appliedReport
          ((policies formats).transition ((policies formats).final start before) operation)
        = some report)
    : ∃ first policy,
        ((policies formats).history start (before ++ [operation])).find?
            (putsInForce report.revisionId)
          = some first
        ∧ first.before.policyInForce formats = .ok policy
        ∧ Restores formats ((policies formats).final start (before ++ [operation]))
          report.revisionId policy := by
  have lastMem
      : (policies formats).transition ((policies formats).final start before) operation
        ∈ (policies formats).history start (before ++ [operation]) := by
    simp
  obtain ⟨fails, found, rfl, saves, applied⟩ := applied_of_step done
  have recordable := steady _ lastMem report fails found rfl saves
  -- The revision was put in force in this step at the latest.
  have forced : (((policies formats).history start (before ++ [.apply report fails])).find?
      (putsInForce report.revisionId)).isSome := by
    rw [List.find?_isSome]
    exact ⟨_, lastMem, putsInForce_iff.mpr ⟨report, done, rfl⟩⟩
  obtain ⟨first, isFirst⟩ := Option.isSome_iff_exists.mp forced
  obtain ⟨earlier, chosen, later, split, rfl⟩ :=
    (policies formats).mem_history (List.mem_of_find?_eq_some isFirst)
  obtain ⟨other, reported, named⟩ := putsInForce_iff.mp (List.find?_some isFirst)
  obtain ⟨_, original, _, _, originally⟩ := applied_of_step reported
  -- What it left then still stands, so it is what the last apply left too.
  have stays
      : ((policies formats).final start (before ++ [.apply report fails])).revisions
          report.revisionId
        = .some (.text original.bytes) := by
    rw [split, Machine.final_append, ← named]
    rw [split, Machine.history_append] at steady
    have afterwards
        : ∀ step ∈ (policies formats).history
            ((policies formats).next ((policies formats).final start earlier) chosen).1 later,
            SavesSteadily formats step :=
      fun step mem => steady step (List.mem_append_right _ (List.mem_cons_of_mem _ mem))
    exact revisions_final afterwards originally.saved
  have sameBytes : original.bytes = found.bytes := by
    rw [Machine.final_snoc, applied.saved] at stays
    exact (StoredFile.text.inj (Option.some.inj stays)).symm
  refine ⟨_, original.currentPolicy, isFirst, ?_, ?_⟩
  · rw [Machine.transition, PolicyStore.policyInForce, originally.read]
    rfl
  · rw [originally.policy_eq roundTrips applied sameBytes, Machine.final_snoc]
    exact applied.restores roundTrips recordable.reversible

end

/-- In a run whose applies all save steadily, the last apply is rolled back to the policy that
was in force before its revision first was, and no saved record is lost.
-/
theorem rollbacks_restore [IsStrictOrderedRing R] (roundTrips : formats.RoundTrips)
    (start : PolicyStore) (operations : List (PolicyOperation R))
    (steady
      : ∀ step ∈ (policies formats).history start operations, SavesSteadily formats step)
    : RollbackLawful formats ((policies formats).history start operations)
        ((policies formats).final start operations) := by
  constructor
  · intro earlier last report split done
    rcases List.eq_nil_or_concat operations with rfl | ⟨before, operation, rfl⟩
    · exact absurd split.symm (List.append_ne_nil_of_right_ne_nil _ (List.cons_ne_nil _ _))
    · rw [List.concat_eq_append] at split steady ⊢
      have ends := split
      rw [Machine.history_snoc] at ends
      obtain ⟨_, same⟩ := List.append_inj' ends rfl
      obtain rfl := (List.cons.inj same).1
      exact last_restores roundTrips steady done
  · intro step mem revisionId file saved
    obtain ⟨before, operation, rest, rfl, rfl⟩ := (policies formats).mem_history mem
    rw [Machine.final_append]
    rw [Machine.history_append] at steady
    exact revisions_final (fun step mem => steady step (List.mem_append_right _ mem)) saved

end Runs

-- One report, applied once and applied twice

def managedRoot (policy : ManagedRankingPolicy ℚ) : TomlTable ℚ :=
  [("ranking",
    .table
      [
        ("fits", .float policy.fitThreshold),
        ("gate", .float policy.gateThreshold),
        ("shortlist", .integer policy.shortlistM),
        ("top", .integer policy.topK),
        ("w_fit", .float policy.wFit),
        ("w_phase", .float policy.wPhase),
        ("w_prior", .float policy.wPrior)
      ])]

def managedPolicyOf : TomlTable ℚ → Option (ManagedRankingPolicy ℚ)
  | [("ranking",
      .table
        [
          ("fits", .float fitThreshold),
          ("gate", .float gateThreshold),
          ("shortlist", .integer (.ofNat shortlistM)),
          ("top", .integer (.ofNat topK)),
          ("w_fit", .float wFit),
          ("w_phase", .float wPhase),
          ("w_prior", .float wPrior)
        ])] => some { gateThreshold, fitThreshold, wFit, wPrior, wPhase, topK, shortlistM }
  | _ => none

variable {root : TomlTable ℚ}

theorem managedRoot_of_eq {policy : ManagedRankingPolicy ℚ}
    (managed : managedPolicyOf root = some policy)
    : root = managedRoot policy := by
  unfold managedPolicyOf at managed
  split at managed
  · cases managed
    rfl
  · cases managed

def gateToml (gate : String) : String :=
  "[ranking]\nfits = 0.3\ngate = " ++ gate
    ++ "\nshortlist = 8\ntop = 5\nw_fit = 1.0\nw_phase = 0.0\nw_prior = 0.0\n"

def otherSettingsJson : String :=
  ",\n    \"fit_threshold\": 0.3,\n    \"w_fit\": 1.0,\n    \"w_prior\": 0.0"
    ++ ",\n    \"w_phase\": 0.0,\n    \"top_k\": 5,\n    \"shortlist_m\": 8\n  \x7d"

def recordStartJson : String :=
  "\x7b\n  \"schema_version\": 1,\n  \"revision_id\": \"pol-0123456789abcdef\""
    ++ ",\n  \"evaluation_digest\": \"e0\",\n  \"previous_policy\": \x7b"
    ++ "\n    \"gate_threshold\": "

def recordEndJson : String :=
  otherSettingsJson ++ ",\n  \"applied_policy\": \x7b\n    \"gate_threshold\": 0.25"
    ++ otherSettingsJson ++ ",\n  \"expected_managed_digest\": \"d1\"\n\x7d"

def recordJson (previousGate : String) : String :=
  recordStartJson ++ previousGate ++ recordEndJson

def gateDigest (policy : ManagedRankingPolicy ℚ) : String :=
  if policy = openGate then "d1" else "d0"

def openGateRecord (previous : ManagedRankingPolicy ℚ) : PolicyRevisionRecord ℚ :=
  {
    schemaVersion := 1
    revisionId := "pol-0123456789abcdef"
    evaluationDigest := "e0"
    previousPolicy := previous
    appliedPolicy := openGate
    expectedManagedDigest := "d1"
    previousPriorSnapshot := none
    appliedPriorSnapshot := none
  }

def openGateFormats : PolicyFormats ℚ :=
  {
    parseToml := fun text =>
      if text = gateToml "0.25" then .ok (managedRoot openGate)
      else if text = gateToml "0.3" then .ok (managedRoot .baseline)
      else .error "expected a key"
    renderToml := fun root =>
      match managedPolicyOf root with
      | some policy =>
          if policy = openGate then .ok (gateToml "0.25")
          else if policy = .baseline then .ok (gateToml "0.3")
          else .error "another policy"
      | none => .error "another table"
    decodeMonitor := fun _ => .error .json
    decodeSnapshot := fun _ => .error .json
    encodeSnapshot := fun _ => .ok "\x7b\x7d"
    decodeRevision := fun text =>
      if text = recordJson "0.3" then .ok (openGateRecord .baseline)
      else if text = recordJson "0.25" then .ok (openGateRecord openGate)
      else .error .json
    encodeRevision := fun record =>
      if record = openGateRecord .baseline then .ok (recordJson "0.3")
      else if record = openGateRecord openGate then .ok (recordJson "0.25")
      else .error "another record"
    policyDigest := gateDigest
    contentHash := id
  }

theorem openGate_ne_baseline : openGate ≠ .baseline := by
  intro same
  have gates := congrArg ManagedRankingPolicy.gateThreshold same
  norm_num [openGate, ManagedRankingPolicy.baseline] at gates

theorem recordJson_ne : recordJson "0.25" ≠ recordJson "0.3" := by
  intro same
  rw [recordJson, recordJson, String.append_left_inj, String.append_right_inj] at same
  exact absurd same (by decide)

theorem recordJson_fits {previousGate : String} (short : previousGate.utf8ByteSize ≤ 8)
    : FitsFile (recordJson previousGate) := by
  have start : recordStartJson.utf8ByteSize ≤ 1000 := by decide +kernel
  have finish : recordEndJson.utf8ByteSize ≤ 1000 := by decide +kernel
  simp only [FitsFile, recordJson, String.utf8ByteSize_append, configFileBytes]
  omega

theorem openGateFormats_roundTrips : openGateFormats.RoundTrips where
  parsed := by
    intro root text _ wrote
    simp only [openGateFormats] at wrote ⊢
    split at wrote
    · next policy managed =>
        obtain rfl := managedRoot_of_eq managed
        split at wrote
        · next same =>
            cases wrote
            subst same
            rfl
        · split at wrote
          · next same =>
              cases wrote
              subst same
              rfl
          · cases wrote
    · cases wrote
  ordered := by
    intro text root parsed
    simp only [openGateFormats] at parsed
    split at parsed
    · cases parsed
      rfl
    · split at parsed
      · cases parsed
        rfl
      · cases parsed
  snapshots := fun _ => ⟨_, rfl⟩
  revisions := by
    intro record text wrote
    simp only [openGateFormats] at wrote ⊢
    split at wrote
    · next same =>
        cases wrote
        rw [if_pos rfl, same]
    · split at wrote
      · next same =>
          cases wrote
          rw [if_neg recordJson_ne, if_pos rfl, same]
      · cases wrote

theorem openGate_valid : openGate.Valid where
  gate := by norm_num [openGate, Within]
  fit := by norm_num [openGate, ManagedRankingPolicy.baseline, Within]
  weights := by
    norm_num [openGate, ManagedRankingPolicy.baseline, Within, wFitMax, wPriorMax, wPhaseMax]
  sizes := by norm_num [openGate, ManagedRankingPolicy.baseline, maxTopK]

def nothingFails (_ : PolicyAccess) : Option String := none

def emptyStore : PolicyStore :=
  {
    config := none
    monitor := none
    prior := none
    revisions := fun _ => none
    backups := fun _ => none
  }

def emptyFindings : Findings ℚ :=
  {
    baseText := ""
    root := []
    currentPolicy := .baseline
    previous := none
    bytes := recordJson "0.3"
  }

def openGateStore : PolicyStore :=
  { emptyStore.withRevision (.alone nothingFails) openGateReport.revisionId emptyFindings with
    config := some (.text (gateToml "0.25")) }

def openGateFindings : Findings ℚ :=
  {
    baseText := gateToml "0.25"
    root := managedRoot openGate
    currentPolicy := openGate
    previous := none
    bytes := recordJson "0.25"
  }

theorem record_openGate (found : Findings ℚ) (previous : found.previous = none)
    : found.record openGateFormats openGateReport = openGateRecord found.currentPolicy := by
  have digest : gateDigest openGate = "d1" := if_pos rfl
  simp only [Findings.record, revisionRecord, previous, Option.map_none, openGateRecord,
    openGateFormats, openGateReport, digest, policyRevisionSchemaVersion]

theorem encode_baselineRecord
    : openGateFormats.encodeRevision (openGateRecord .baseline) = .ok (recordJson "0.3") :=
  if_pos rfl

theorem encode_openGateRecord
    : openGateFormats.encodeRevision (openGateRecord openGate) = .ok (recordJson "0.25") := by
  have other : openGateRecord openGate ≠ openGateRecord .baseline :=
    fun same => openGate_ne_baseline (congrArg PolicyRevisionRecord.previousPolicy same)
  exact (if_neg other).trans (if_pos rfl)

theorem parse_openGate
    : openGateFormats.parseToml (gateToml "0.25") = .ok (managedRoot openGate) := by
  simp only [openGateFormats, ↓reduceIte]

theorem gateToml_fits : FitsFile (gateToml "0.25") := by
  unfold FitsFile
  decide

theorem render_openGate
    : openGateFormats.renderToml (managedRoot openGate) = .ok (gateToml "0.25") := by
  change (if openGate = openGate then _ else _) = _
  exact if_pos rfl

theorem render_baseline
    : openGateFormats.renderToml (managedRoot .baseline) = .ok (gateToml "0.3") := by
  change (if ManagedRankingPolicy.baseline = openGate then _ else _) = _
  rw [if_neg openGate_ne_baseline.symm, if_pos rfl]

theorem empty_saves
    : Saves openGateFormats (.alone nothingFails) openGateReport emptyStore emptyFindings where
  promotable := rfl
  monitorRead := fun _ => rfl
  monitor := rfl
  baseRead := fun _ => rfl
  base := rfl
  policyRead := fun _ => rfl
  policy := rfl
  priorRead := fun _ => rfl
  prior := rfl
  directory := rfl
  backup := fun _ => rfl
  encoded := by
    rw [record_openGate emptyFindings rfl]
    exact encode_baselineRecord
  saved := rfl

theorem openGate_standing
    : Standing openGateFormats openGateStore.config (managedRoot openGate) openGate where
  text := ⟨gateToml "0.25", rfl, gateToml_fits, parse_openGate⟩
  depth := rfl
  policy :=
    policyOfRoot_installPolicy openGate_valid
      (rfl : installPolicy [] openGate = .ok (managedRoot openGate))

theorem openGate_saves
    : Saves openGateFormats (.alone nothingFails) openGateReport openGateStore
        openGateFindings where
  promotable := rfl
  monitorRead := fun _ => rfl
  monitor := rfl
  baseRead := fun _ => rfl
  base := by
    change (StoredFile.text (gateToml "0.25")).read configFileBytes "configuration" = _
    exact read_text gateToml_fits
  policyRead := fun _ => rfl
  policy := openGate_standing.read
  priorRead := fun _ => rfl
  prior := rfl
  directory := rfl
  backup := fun _ => rfl
  encoded := by
    rw [record_openGate openGateFindings rfl]
    exact encode_openGateRecord
  saved := rfl

theorem openGate_writes {config : Option StoredFile} {text : String}
    (read : configText (R := ℚ) config = .ok text)
    (placed : installPolicy root openGate = .ok (managedRoot openGate))
    : PolicyWrites openGateFormats (.alone nothingFails) config root openGate text
        (gateToml "0.25") where
  valid := openGate_valid
  reread := fun _ => rfl
  unchanged := ⟨text, read, rfl⟩
  installed := ⟨managedRoot openGate, placed, render_openGate⟩
  replaced := rfl

theorem run_openGate {found : Findings ℚ}
    (saves : Saves openGateFormats (.alone nothingFails) openGateReport store found)
    (placed : installPolicy found.root openGate = .ok (managedRoot openGate))
    (unread : store.prior = none)
    : (applyCalibratedPolicy openGateFormats (.alone nothingFails) openGateReport).run store
      = .ok { openGateReport with mode := "applied", applied := true }
          { store.withRevision (.alone nothingFails) openGateReport.revisionId found with
            prior := none, config := some (.text (gateToml "0.25")) } := by
  have cleared : SnapshotInstalled openGateFormats (.alone nothingFails) openGateReport
      store.prior none := by
    rw [SnapshotInstalled, if_neg (by norm_num [openGateReport, openGate,
      ManagedRankingPolicy.baseline]), unread]
    rfl
  exact run_applyCalibratedPolicy_eq_ok.mpr
    ⟨found, none, gateToml "0.25", saves, cleared, openGate_writes saves.base placed, rfl, rfl⟩

def applyOpenGate : PolicyOperation ℚ := .apply openGateReport nothingFails

theorem empty_applied
    : (policies openGateFormats).next emptyStore applyOpenGate = (openGateStore, .ok ()) := by
  simp only [policies, applyOpenGate, run_openGate empty_saves rfl rfl]
  rfl

theorem openGate_applied
    : appliedReport ((policies openGateFormats).transition openGateStore applyOpenGate)
      = some openGateReport := by
  simp only [Machine.transition, policies, applyOpenGate, appliedReport,
    run_openGate openGate_saves rfl rfl, concluded]

/-- One rollback puts one policy in force. -/
theorem Restores.unique {R : Type} [Field R] [LinearOrder R] {formats : PolicyFormats R}
    {policy other : ManagedRankingPolicy R} (restores : Restores formats store revisionId policy)
    (again : Restores formats store revisionId other)
    : policy = other := by
  obtain ⟨_, after, ran, inForce⟩ := restores
  obtain ⟨_, after', ran', inForce'⟩ := again
  rw [ran] at ran'
  obtain ⟨rfl, rfl⟩ := ran'
  exact Except.ok.inj (inForce.symm.trans inForce')

theorem named_openGate : NamesRevision "pol-0123456789abcdef" := by
  have chars
      : "pol-0123456789abcdef".toList
        = ['p', 'o', 'l', '-', '0', '1', '2', '3', '4', '5', '6', '7', '8', '9', 'a', 'b', 'c',
          'd', 'e', 'f'] := rfl
  refine ⟨?_, ?_, fun inside => ?_⟩
  · rw [isBlank, chars]
    rfl
  · simp [chars]
  · have dot : '.' ∈ "pol-0123456789abcdef".toList := inside.subset List.mem_cons_self
    rw [chars] at dot
    simp at dot

/-- The open gate's record is reversible where its configuration and its record are short. -/
theorem openGate_reversible {found : Findings ℚ} {again : String}
    (placed : installPolicy found.root openGate = .ok (managedRoot openGate))
    (rewrote : openGateFormats.renderToml (managedRoot found.currentPolicy) = .ok again)
    (short : FitsFile found.bytes) (room : FitsFile again)
    : Reversible openGateFormats openGateReport found where
  named := named_openGate
  short := short
  rendered := by
    intro installed text installs wrote
    obtain rfl := Except.ok.inj (placed.symm.trans installs)
    obtain rfl := Except.ok.inj (render_openGate.symm.trans wrote)
    exact ⟨gateToml_fits, managedRoot found.currentPolicy, again, rfl, rewrote, room⟩

def rollbackOpenGate : PolicyOperation ℚ :=
  .rollback openGateReport.revisionId true nothingFails

def rolledBackStore : PolicyStore :=
  { openGateStore with config := some (.text (gateToml "0.3")), prior := none }

def rolledBackFindings : Findings ℚ :=
  { emptyFindings with baseText := gateToml "0.3", root := managedRoot .baseline }

theorem short_record : FitsFile (recordJson "0.3") := recordJson_fits (by decide)

theorem short_baseline : FitsFile (gateToml "0.3") := by
  unfold FitsFile
  decide

/-- What the first apply leaves. -/
theorem empty_recorded
    : Applied openGateFormats openGateReport emptyStore openGateStore emptyFindings := by
  have done
      : appliedReport ((policies openGateFormats).transition emptyStore applyOpenGate)
        = some openGateReport := by
    rw [Machine.transition, empty_applied]
    rfl
  obtain ⟨fails, found, called, saves, applied⟩ := applied_of_step done
  obtain ⟨_, rfl⟩ := PolicyOperation.apply.inj called
  obtain rfl := empty_saves.unique saves
  rw [empty_applied] at applied
  exact applied

theorem openGate_rolledBack
    : (policies openGateFormats).next openGateStore rollbackOpenGate
      = (rolledBackStore, .ok ()) := by
  have reversible : Reversible openGateFormats openGateReport emptyFindings :=
    openGate_reversible rfl render_baseline short_record short_baseline
  have acceptable := empty_recorded.acceptable openGateFormats_roundTrips reversible
  rw [record_openGate emptyFindings rfl] at acceptable
  have placed : installPolicy (managedRoot openGate) .baseline = .ok (managedRoot .baseline) := rfl
  have cleared
      : (restoreSnapshot openGateFormats .quiet (openGateRecord emptyFindings.currentPolicy)).run
          { openGateStore with config := some (.text (gateToml "0.3")) }
        = .ok () rolledBackStore :=
    run_clearSnapshot_eq_ok.mpr ⟨none, rfl, rfl⟩
  obtain ⟨report, rolled⟩ :=
    rolledBack_of_acceptable acceptable openGate_standing placed render_baseline cleared
  have quiet : PolicyHost.alone nothingFails = .quiet := rfl
  simp only [policies, rollbackOpenGate, quiet, rolled]
  rfl

theorem rolledBack_saves
    : Saves openGateFormats (.alone nothingFails) openGateReport rolledBackStore
        rolledBackFindings where
  promotable := rfl
  monitorRead := fun _ => rfl
  monitor := rfl
  baseRead := fun _ => rfl
  base := by
    change (StoredFile.text (gateToml "0.3")).read configFileBytes "configuration" = _
    exact read_text short_baseline
  policyRead := fun _ => rfl
  policy := by
    have standing
        : Standing openGateFormats rolledBackStore.config (managedRoot .baseline) .baseline :=
      {
        text := ⟨gateToml "0.3", rfl, short_baseline, rfl⟩
        depth := rfl
        policy :=
          policyOfRoot_installPolicy ManagedRankingPolicy.baseline_valid
            (rfl : installPolicy [] .baseline = .ok (managedRoot .baseline))
      }
    exact standing.read
  priorRead := fun _ => rfl
  prior := rfl
  directory := rfl
  backup := fun _ => rfl
  encoded := by
    rw [record_openGate rolledBackFindings rfl]
    exact encode_baselineRecord
  saved := rfl

/-- An apply that is rolled back and made again is lawful, and is made again. -/
theorem rollbacks_restore_openGate
    : RollbackLawful openGateFormats
        ((policies openGateFormats).history emptyStore
          [applyOpenGate, rollbackOpenGate, applyOpenGate])
        ((policies openGateFormats).final emptyStore
          [applyOpenGate, rollbackOpenGate, applyOpenGate])
      ∧ appliedReport ((policies openGateFormats).transition rolledBackStore applyOpenGate)
        = some openGateReport := by
  have steps
      : (policies openGateFormats).history emptyStore
          [applyOpenGate, rollbackOpenGate, applyOpenGate]
        = [(policies openGateFormats).transition emptyStore applyOpenGate,
          (policies openGateFormats).transition openGateStore rollbackOpenGate,
          (policies openGateFormats).transition rolledBackStore applyOpenGate] := by
    simp [Machine.history, empty_applied, openGate_rolledBack]
  constructor
  · refine rollbacks_restore openGateFormats_roundTrips emptyStore _ ?_
    rw [steps]
    intro step mem report fails found called saves
    rcases List.mem_cons.mp mem with rfl | mem
    · obtain ⟨rfl, rfl⟩ := PolicyOperation.apply.inj called
      obtain rfl := empty_saves.unique saves
      exact ⟨openGate_reversible rfl render_baseline short_record short_baseline, .inl rfl⟩
    rcases List.mem_cons.mp mem with rfl | mem
    · cases called
    · obtain rfl := List.mem_singleton.mp mem
      obtain ⟨rfl, rfl⟩ := PolicyOperation.apply.inj called
      obtain rfl := rolledBack_saves.unique saves
      -- The record that the first apply saved is the one to save.
      have same := empty_recorded.saved
      exact ⟨openGate_reversible rfl render_baseline short_record short_baseline, .inr same⟩
  · simp only [Machine.transition, policies, applyOpenGate, appliedReport,
      run_openGate rolledBack_saves rfl rfl, concluded]

/-- The second apply of one report takes the first record away: the rollback restores the
policy that the report itself had put in force.
-/
theorem applied_twice_not_lawful
    : ¬RollbackLawful openGateFormats
        ((policies openGateFormats).history emptyStore [applyOpenGate, applyOpenGate])
        ((policies openGateFormats).final emptyStore [applyOpenGate, applyOpenGate]) := by
  intro lawful
  have steps
      : (policies openGateFormats).history emptyStore [applyOpenGate, applyOpenGate]
        = [(policies openGateFormats).transition emptyStore applyOpenGate]
          ++ [(policies openGateFormats).transition openGateStore applyOpenGate] := by
    simp [Machine.history, empty_applied]
  have final
      : (policies openGateFormats).final emptyStore [applyOpenGate, applyOpenGate]
        = ((policies openGateFormats).next openGateStore applyOpenGate).1 := by
    simp [Machine.final, empty_applied]
  obtain ⟨first, policy, isFirst, inForce, restores⟩ :=
    lawful.restores _ _ openGateReport steps openGate_applied
  -- Before the first apply the baseline was in force.
  have forced
      : putsInForce openGateReport.revisionId
          ((policies openGateFormats).transition emptyStore applyOpenGate) := by
    refine putsInForce_iff.mpr ⟨openGateReport, ?_, rfl⟩
    rw [Machine.transition, empty_applied]
    rfl
  rw [steps, List.singleton_append, List.find?_cons_of_pos forced] at isFirst
  obtain rfl := Option.some.inj isFirst
  have baseline : policy = .baseline := Except.ok.inj inForce.symm
  -- The record that the second apply left names the open gate itself.
  obtain ⟨fails, found, called, saves, applied⟩ := applied_of_step openGate_applied
  obtain ⟨_, rfl⟩ := PolicyOperation.apply.inj called
  obtain rfl := openGate_saves.unique saves
  have short : FitsFile (recordJson "0.25") := recordJson_fits (by decide)
  have undone :=
    applied.restores openGateFormats_roundTrips
      (openGate_reversible rfl render_openGate short gateToml_fits)
  rw [final] at restores
  exact openGate_ne_baseline ((undone.unique restores).trans baseline)

end SkillRanker.Learning
