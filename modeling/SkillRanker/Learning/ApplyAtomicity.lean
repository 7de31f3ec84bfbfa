import Mathlib.Algebra.Order.Ring.Rat
import Mathlib.Algebra.Field.Rat
import SkillRanker.Learning.Apply

/-! When a policy apply that fails has left no trace: it saves its record before it rewrites the
configuration, so every check that comes after the record comes too late.
-/

namespace SkillRanker.Learning

open SkillRanker.Library SkillRanker.Recommendation

section Atomicity

variable {R : Type} [Field R] [LinearOrder R] {formats : PolicyFormats R} {host : PolicyHost}
  {report : CalibrationReport R} {store after : PolicyStore}

/-- A call left the configuration to others and the saved records as they were. -/
structure Untouched (host : PolicyHost) (before after : PolicyStore) : Prop where
  config : LeftToOthers host before.config after.config
  revisions : after.revisions = before.revisions

def AtomicApply (formats : PolicyFormats R) (host : PolicyHost) (report : CalibrationReport R)
    (store : PolicyStore)
    : Prop :=
  ∀ error after,
    (applyCalibratedPolicy formats host report).run store = .error error after
    → Untouched host store after

variable {error : LearningError R}

/-- An apply that fails before its record is saved has touched nothing. -/
theorem untouched_of_early
    (failed : (saveRevision formats host report).run store = .error error after)
    : Untouched host store after := by
  constructor
  · have left
        : FailsKeeping (ConfigLeft host store.config) (saveRevision formats host report) :=
      saveRevision_keeps report (fun other access left => left.seenAt other access)
        fun _ _ left => left
    exact left store error after .refl failed
  · have kept
        : FailsKeeping (RevisionsKept store.revisions) (saveRevision formats host report) :=
      saveRevision_keeps report (fun _ _ kept => kept) fun _ _ kept => kept
    exact kept store error after rfl failed

/-- An apply that fails after its record was saved leaves the record and no configuration. -/
theorem untouched_of_late {root : TomlTable R} {baseDigest : String}
    (failed : (installSelected formats host report root baseDigest).run store = .error error after)
    : Untouched host store after := by
  constructor
  · have left
        : FailsKeeping (ConfigLeft host store.config)
            (installSelected formats host report root baseDigest) :=
      installSelected_keeps report root baseDigest
        (fun other access left => left.seenAt other access) fun _ _ left => left
    exact left store error after .refl failed
  · have kept
        : FailsKeeping (RevisionsKept store.revisions)
            (installSelected formats host report root baseDigest) :=
      installSelected_keeps report root baseDigest (fun _ _ kept => kept) fun _ _ kept => kept
    exact kept store error after rfl failed

/-- An apply is atomic exactly when what follows a saved record passes, or the record that was
there is the one it saves.
-/
theorem apply_atomic_iff
    : AtomicApply formats host report store
      ↔ ∀ found,
          Saves formats host report store found
          → Finishes formats host report (store.surveyed host) found.root
              (formats.contentHash found.baseText)
            ∨ store.revisions report.revisionId = some (.text found.bytes) := by
  constructor
  · intro atomic found saves
    have saved
        : (saveRevision formats host report).run store
          = .ok (found.root, formats.contentHash found.baseText)
              (store.withRevision host report.revisionId found) :=
      run_saveRevision_eq_ok.mpr ⟨found, saves, rfl, rfl⟩
    cases ended
        : (installSelected formats host report found.root
            (formats.contentHash found.baseText)).run
          (store.withRevision host report.revisionId found) with
    | ok applied done =>
        obtain ⟨prior, rendered, installed, writes, _, _⟩ := run_installSelected_eq_ok.mp ended
        exact .inl ⟨⟨prior, installed⟩, rendered, writes⟩
    | error error after =>
        have failed
            : (applyCalibratedPolicy formats host report).run store = .error error after :=
          run_bind_eq_error.mpr (.inr ⟨_, _, saved, ended⟩)
        have kept := (untouched_of_late ended).revisions
        rw [(atomic error after failed).revisions] at kept
        right
        rw [kept]
        exact Function.update_self _ _ _
  · intro enough error after failed
    rcases run_bind_eq_error.mp failed with early | ⟨start, between, saved, late⟩
    · exact untouched_of_early early
    · obtain ⟨found, saves, rfl, rfl⟩ := run_saveRevision_eq_ok.mp saved
      rcases enough found saves with ⟨⟨prior, installed⟩, rendered, writes⟩ | standing
      · have ended :=
          run_applyCalibratedPolicy_eq_ok.mpr
            ⟨found, prior, rendered, saves, installed, writes, rfl, rfl⟩
        rw [failed] at ended
        cases ended
      · have untouched := untouched_of_late late
        constructor
        · have base : LeftToOthers host store.config (store.seenAt host .base).config :=
            .single ⟨.base, rfl⟩
          exact (base.tail ⟨.policy, rfl⟩).trans untouched.config
        · rw [untouched.revisions]
          show Function.update store.revisions report.revisionId (some (.text found.bytes)) = _
          rw [← standing, Function.update_eq_self]

end Atomicity

-- A configuration whose `ranking` is a number

def rankingNumberFormats : PolicyFormats ℚ :=
  {
    parseToml := fun text =>
      if text = "ranking = 5" then .ok [("ranking", .integer 5)] else .error "expected a table"
    renderToml := fun _ => .ok "ranking = 5\n"
    decodeMonitor := fun _ => .error .json
    decodeSnapshot := fun _ => .error .json
    encodeSnapshot := fun _ => .ok "\x7b\x7d"
    decodeRevision := fun _ => .error .json
    encodeRevision := fun record => .ok ("revision " ++ record.revisionId)
    policyDigest := fun policy => toString policy.topK
    contentHash := id
  }

def openGate : ManagedRankingPolicy ℚ := { ManagedRankingPolicy.baseline with gateThreshold := 1 / 4 }

def splitOf (loss : Nat) : SplitLossSummary ℚ :=
  {
    totalCases := 4
    positiveCases := 2
    negativeCases := 2
    nearMissCases := 1
    operationalFailures := 0
    totalLoss := loss
    meanLoss := loss / 4
    normalizedBoundedLoss := loss / 8
    estimable := true
  }

def openGateReport : CalibrationReport ℚ :=
  {
    schema := calibrationSchema
    mode := "preview"
    applied := false
    promotable := true
    revisionId := "pol-0123456789abcdef"
    evaluationDigest := "e0"
    priorAsOfUnixMs := 100
    baselinePolicy := .baseline
    selectedPolicy := openGate
    baselineValidation := splitOf 2
    selectedValidation := splitOf 1
    baselineHoldout := splitOf 2
    selectedHoldout := splitOf 1
    nonEstimableCandidates := 0
    promotionReason := "held_out_loss_improved_over_baseline"
    priorSnapshot := none
  }

def rankingNumberStore : PolicyStore :=
  {
    config := some (.text "ranking = 5")
    monitor := none
    prior := none
    revisions := fun _ => none
    backups := fun _ => none
  }

def rankingNumberFindings : Findings ℚ :=
  {
    baseText := "ranking = 5"
    root := [("ranking", .integer 5)]
    currentPolicy := .baseline
    previous := none
    bytes := "revision pol-0123456789abcdef"
  }

theorem rankingNumber_saves
    : Saves rankingNumberFormats .quiet openGateReport rankingNumberStore
        rankingNumberFindings where
  promotable := rfl
  monitorRead := fun _ => rfl
  monitor := rfl
  baseRead := fun _ => rfl
  base := rfl
  policyRead := fun _ => rfl
  policy := by
    have accepted := (ManagedRankingPolicy.validate_eq_ok _).mpr
      (ManagedRankingPolicy.baseline_valid (R := ℚ))
    refine (readManagedPolicyFromToml_eq_ok _).mpr ⟨"ranking = 5", rfl, rfl, rfl, ?_⟩
    simp [policyOfRoot, settingsOfRoot, rankingNumberFindings, accepted]
  priorRead := fun _ => rfl
  prior := rfl
  directory := rfl
  backup := fun _ => rfl
  encoded := rfl
  saved := rfl

/-- The apply refuses the configuration, and leaves its record. -/
theorem apply_leaves_record
    : ¬AtomicApply rankingNumberFormats .quiet openGateReport rankingNumberStore := by
  intro atomic
  have saved := run_saveRevision_eq_ok.mpr ⟨_, rankingNumber_saves, rfl, rfl⟩
  cases ended
      : (installSelected rankingNumberFormats .quiet openGateReport rankingNumberFindings.root
          "ranking = 5").run
        (rankingNumberStore.withRevision .quiet openGateReport.revisionId
          rankingNumberFindings) with
  | ok applied done =>
      obtain ⟨_, _, _, writes, _, _⟩ := run_installSelected_eq_ok.mp ended
      obtain ⟨_, refused, _⟩ := writes.installed
      cases refused
  | error error after =>
      have failed := atomic error after (run_bind_eq_error.mpr (.inr ⟨_, _, saved, ended⟩))
      have kept := (untouched_of_late ended).revisions
      rw [failed.revisions] at kept
      have missing := congrFun kept "pol-0123456789abcdef"
      cases missing

end SkillRanker.Learning
