import Mathlib.Algebra.Order.Field.Rat
import SkillRanker.Library.Totals
import SkillRanker.Evaluation.Labels

/-! The join of the cases of a frame with their judged labels, and the manifest that reconciles it.
-/

namespace SkillRanker.Evaluation
open SkillRanker.Library

-- Resolved cases

inductive LabelStatus
  | resolved (label : JudgedLabel)
  | unmatched
  | nullKey
  | ambiguous (revisions : List Nat)
deriving DecidableEq

def LabelStatus.isResolved : LabelStatus → Bool
  | resolved _ => true
  | _ => false

inductive RelevanceClass
  | explicitMatch
  | explicitMismatch
  | truePositive
  | falsePositive
  | needlessSuggestion
  | trueAbstain
  | falseAbstain
  | operationalFailure
  | unjudged
deriving DecidableEq, Repr

structure ResolvedEvaluationCase where
  record : EvaluationCaseRecord
  labelStatus : LabelStatus
  relevanceClass : RelevanceClass
  top1Match : Bool
  candidateCoverage : Bool
  setRecall : Option ℚ
deriving DecidableEq

structure ReconciliationManifest where
  preJoinCaseCount : Nat
  postJoinCaseCount : Nat
  resolvedLabelsCount : Nat
  unmatchedCasesCount : Nat
  nullKeyCasesCount : Nat
  familiesCount : Nat
  splitsDistribution : List (String × Nat)
  reconciled : Bool
deriving DecidableEq, Repr

-- Classification

structure CaseClassification where
  relevanceClass : RelevanceClass
  top1Match : Bool
  candidateCoverage : Bool
  setRecall : Option ℚ
deriving DecidableEq

def JudgedLabel.acceptsNone (label : JudgedLabel) : Bool :=
  label.acceptableSkills = ∅ || label.noSkillNeeded

def EvaluationCaseRecord.abstains (case : EvaluationCaseRecord) : Bool :=
  case.relevanceAbstention || case.decision = "abstain"

/-- How many of the suggestions of a case a label accepts, each as often as it is repeated. -/
def acceptedSuggestions (case : EvaluationCaseRecord) (label : JudgedLabel) : Nat :=
  (case.suggestedSkills.filter (· ∈ label.acceptableSkills)).length

def classifyRelevance (case : EvaluationCaseRecord) (label : JudgedLabel) : CaseClassification :=
  if case.operationalFailure then
    { relevanceClass := .operationalFailure, top1Match := false, candidateCoverage := false,
      setRecall := none }
  else
    match label.explicitDirective with
    | some directive =>
        let isMatch := case.suggestedSkills.head? = some directive
          || (case.decision = "explicit" && directive ∈ case.suggestedSkills)
        { relevanceClass := if isMatch then .explicitMatch else .explicitMismatch
          top1Match := isMatch
          candidateCoverage := isMatch
          setRecall := some (if isMatch then 1 else 0) }
    | none =>
        let top1 := case.suggestedSkills.head?
        let top1InY := top1.any (· ∈ label.acceptableSkills)
        let setRecall : Option ℚ :=
          if label.acceptsNone then none
          else some (acceptedSuggestions case label / label.acceptableSkills.card)
        let relevanceClass : RelevanceClass :=
          if label.acceptsNone then
            if top1.isSome then .needlessSuggestion else .trueAbstain
          else if top1InY then .truePositive
          else if case.abstains then .falseAbstain
          else .falsePositive
        { relevanceClass := relevanceClass
          top1Match := top1InY
          candidateCoverage := case.suggestedSkills.any (· ∈ label.acceptableSkills)
          setRecall := setRecall }

-- The join

structure JoinState where
  resolvedCases : List ResolvedEvaluationCase
  unmatchedCasesCount : Nat
  nullKeyCasesCount : Nat
  distinctFamilies : Finset String
  splitsDistribution : List (String × Nat)

def JoinState.start : JoinState where
  resolvedCases := []
  unmatchedCasesCount := 0
  nullKeyCasesCount := 0
  distinctFamilies := ∅
  splitsDistribution := []

def JoinState.join (resolvedLabels : List (String × JudgedLabel)) (state : JoinState)
    (case : EvaluationCaseRecord)
    : JoinState :=
  let split := case.split.asStr
  let splitsDistribution :=
    insertEntry split ((state.splitsDistribution.lookup split).getD 0 + 1) state.splitsDistribution
  if case.key.isNull then
    { state with
      nullKeyCasesCount := state.nullKeyCasesCount + 1
      splitsDistribution := splitsDistribution
      resolvedCases := state.resolvedCases ++ [{
        record := case
        labelStatus := .nullKey
        relevanceClass := .unjudged
        top1Match := false
        candidateCoverage := false
        setRecall := none }] }
  else
    let distinctFamilies := insert case.key.familyId state.distinctFamilies
    match resolvedLabels.lookup case.key.caseId with
    | some label =>
        let outcome := classifyRelevance case label
        { state with
          distinctFamilies := distinctFamilies
          splitsDistribution := splitsDistribution
          resolvedCases := state.resolvedCases ++ [{
            record := case
            labelStatus := .resolved label
            relevanceClass := outcome.relevanceClass
            top1Match := outcome.top1Match
            candidateCoverage := outcome.candidateCoverage
            setRecall := outcome.setRecall }] }
    | none =>
        { state with
          unmatchedCasesCount := state.unmatchedCasesCount + 1
          distinctFamilies := distinctFamilies
          splitsDistribution := splitsDistribution
          resolvedCases := state.resolvedCases ++ [{
            record := case
            labelStatus := .unmatched
            relevanceClass := if case.operationalFailure then .operationalFailure else .unjudged
            top1Match := false
            candidateCoverage := false
            setRecall := none }] }

def JoinState.manifest (joined : JoinState) (preJoinCaseCount resolvedLabelsCount : Nat)
    : ReconciliationManifest where
  preJoinCaseCount := preJoinCaseCount
  postJoinCaseCount := joined.resolvedCases.length
  resolvedLabelsCount := resolvedLabelsCount
  unmatchedCasesCount := joined.unmatchedCasesCount
  nullKeyCasesCount := joined.nullKeyCasesCount
  familiesCount := joined.distinctFamilies.card
  splitsDistribution := joined.splitsDistribution
  reconciled := preJoinCaseCount = joined.resolvedCases.length

def joinEvaluationFrame (cases : List EvaluationCaseRecord) (labels : List JudgedLabel)
    : Except EvaluationError (List ResolvedEvaluationCase × ReconciliationManifest) := do
  verifySplitIsolation cases
  let resolvedLabels ← resolveLabelRevisions labels
  let joined := cases.foldl (·.join resolvedLabels) JoinState.start
  return (joined.resolvedCases, joined.manifest cases.length resolvedLabels.length)

-- What a case becomes

def statusOf (label : Option JudgedLabel) (case : EvaluationCaseRecord) : LabelStatus :=
  if case.key.isNull then .nullKey
  else
    match label with
    | some label => .resolved label
    | none => .unmatched

def outcomeOf (status : LabelStatus) (case : EvaluationCaseRecord) : CaseClassification :=
  match status with
  | .resolved label => classifyRelevance case label
  | .unmatched =>
      { relevanceClass := if case.operationalFailure then .operationalFailure else .unjudged
        top1Match := false, candidateCoverage := false, setRecall := none }
  | _ =>
      { relevanceClass := .unjudged, top1Match := false, candidateCoverage := false,
        setRecall := none }

def resolvedCase (label : Option JudgedLabel) (case : EvaluationCaseRecord)
    : ResolvedEvaluationCase :=
  let status := statusOf label case
  let outcome := outcomeOf status case
  { record := case
    labelStatus := status
    relevanceClass := outcome.relevanceClass
    top1Match := outcome.top1Match
    candidateCoverage := outcome.candidateCoverage
    setRecall := outcome.setRecall }

theorem EvaluationSplit.asStr_injective : Function.Injective EvaluationSplit.asStr := by
  intro left right same
  revert same
  cases left <;> cases right <;> decide

variable {resolvedLabels : List (String × JudgedLabel)} {cases : List EvaluationCaseRecord}

/-- The state after some cases: each is joined in its place, and counted by its status, its family
and its split.
-/
structure Joined (resolvedLabels : List (String × JudgedLabel))
    (cases : List EvaluationCaseRecord) (state : JoinState)
    : Prop where
  resolvedCases
    : state.resolvedCases
      = cases.map fun case => resolvedCase (resolvedLabels.lookup case.key.caseId) case
  unmatched
    : state.unmatchedCasesCount
      = cases.countP fun case =>
          statusOf (resolvedLabels.lookup case.key.caseId) case = .unmatched
  nullKey : state.nullKeyCasesCount = cases.countP (·.key.isNull)
  families
    : state.distinctFamilies
      = ((cases.filter fun case => !case.key.isNull).map (·.key.familyId)).toFinset
  ordered : Ordered state.splitsDistribution
  total : totalOf state.splitsDistribution = cases.length
  bySplit
    : ∀ split : EvaluationSplit,
      (state.splitsDistribution.lookup split.asStr).getD 0 = cases.countP (·.split = split)

theorem Joined.start : Joined resolvedLabels [] JoinState.start where
  resolvedCases := rfl
  unmatched := rfl
  nullKey := rfl
  families := rfl
  ordered := .nil
  total := rfl
  bySplit _ := rfl

/-- What the splits count after one more case. -/
theorem JoinState.join_splits (state : JoinState) (case : EvaluationCaseRecord)
    : (state.join resolvedLabels case).splitsDistribution
      = insertEntry case.split.asStr
          ((state.splitsDistribution.lookup case.split.asStr).getD 0 + 1)
          state.splitsDistribution := by
  unfold JoinState.join
  split
  · rfl
  · dsimp only
    split <;> rfl

theorem Joined.join {state : JoinState} (joined : Joined resolvedLabels cases state)
    (case : EvaluationCaseRecord)
    : Joined resolvedLabels (cases ++ [case]) (state.join resolvedLabels case) where
  resolvedCases := by
    rw [List.map_append, ← joined.resolvedCases, List.map_singleton]
    unfold JoinState.join resolvedCase statusOf
    split
    · rfl
    · dsimp only
      cases resolvedLabels.lookup case.key.caseId <;> rfl
  unmatched := by
    rw [List.countP_append, ← joined.unmatched, List.countP_singleton]
    unfold JoinState.join statusOf
    split
    · rfl
    · dsimp only
      cases resolvedLabels.lookup case.key.caseId <;> rfl
  nullKey := by
    rw [List.countP_append, ← joined.nullKey, List.countP_singleton]
    unfold JoinState.join
    split
    · rfl
    · dsimp only
      cases resolvedLabels.lookup case.key.caseId <;> rfl
  families := by
    rw [List.filter_append, List.map_append, List.toFinset_append, ← joined.families]
    unfold JoinState.join
    split
    · next null => simp [null]
    · next complete =>
      dsimp only
      cases resolvedLabels.lookup case.key.caseId <;> simp [complete]
  ordered := by
    rw [JoinState.join_splits]
    exact joined.ordered.insertEntry _ _
  total := by
    have inserted := totalOf_insertEntry joined.ordered case.split.asStr
      ((state.splitsDistribution.lookup case.split.asStr).getD 0 + 1)
    rw [JoinState.join_splits, List.length_append, ← joined.total, List.length_singleton]
    omega
  bySplit split := by
    rw [JoinState.join_splits, List.countP_append, ← joined.bySplit, List.countP_singleton]
    by_cases own : case.split = split
    · simp [own, lookup_insertEntry_self]
    · have other : split.asStr ≠ case.split.asStr :=
        fun same => own (EvaluationSplit.asStr_injective same).symm
      simp [own, lookup_insertEntry_of_ne other]

theorem joined_all (resolvedLabels : List (String × JudgedLabel))
    (cases : List EvaluationCaseRecord)
    : Joined resolvedLabels cases (cases.foldl (·.join resolvedLabels) JoinState.start) := by
  induction cases using List.reverseRecOn with
  | nil => exact Joined.start
  | append_singleton before case ih =>
      rw [List.foldl_append]
      exact ih.join case

variable {labels : List JudgedLabel} {result : List ResolvedEvaluationCase × ReconciliationManifest}

/-- A join succeeds on isolated splits and labels that can be resolved. -/
theorem joinEvaluationFrame_eq_ok
    : joinEvaluationFrame cases labels = .ok result
      ↔ verifySplitIsolation cases = .ok ()
        ∧ ∃ resolvedLabels, resolveLabelRevisions labels = .ok resolvedLabels
          ∧ ∃ state, cases.foldl (·.join resolvedLabels) JoinState.start = state
            ∧ (state.resolvedCases, state.manifest cases.length resolvedLabels.length) = result := by
  unfold joinEvaluationFrame
  rw [bind_eq_ok]
  refine ⟨?_, ?_⟩
  · rintro ⟨_, isolated, rest⟩
    obtain ⟨resolvedLabels, ran, done⟩ := bind_eq_ok.mp rest
    exact ⟨isolated, resolvedLabels, ran, _, rfl, pure_eq_ok.mp done⟩
  · rintro ⟨isolated, resolvedLabels, ran, _, rfl, done⟩
    exact ⟨(), isolated, bind_eq_ok.mpr ⟨resolvedLabels, ran, pure_eq_ok.mpr done⟩⟩

variable {resolved : List ResolvedEvaluationCase}

/-- A join that succeeds has consistent labels, and gives every case with its latest label. -/
theorem of_joinEvaluationFrame {manifest : ReconciliationManifest}
    (joined : joinEvaluationFrame cases labels = .ok (resolved, manifest))
    : Consistent labels
      ∧ resolved
        = cases.map fun case => resolvedCase (latestLabel labels case.key.caseId) case := by
  obtain ⟨_, resolvedLabels, ran, _, rfl, done⟩ := joinEvaluationFrame_eq_ok.mp joined
  obtain ⟨consistent, _, lookups⟩ := resolveLabelRevisions_eq_ok.mp ran
  have all := (joined_all resolvedLabels cases).resolvedCases
  simp only [lookups] at all
  exact ⟨consistent, (congrArg Prod.fst done).symm.trans all⟩

/-- The order of the labels does not matter to a join. -/
theorem joinEvaluationFrame_perm {permuted : List JudgedLabel}
    (joined : joinEvaluationFrame cases labels = .ok result) (perm : permuted.Perm labels)
    : joinEvaluationFrame cases permuted = .ok result := by
  obtain ⟨isolated, resolvedLabels, ran, done⟩ := joinEvaluationFrame_eq_ok.mp joined
  exact joinEvaluationFrame_eq_ok.mpr
    ⟨isolated, resolvedLabels, resolveLabelRevisions_perm ran perm, done⟩

/-- The status of a case tells whether its key is complete, and its label if it is. -/
theorem statusOf_spec (consistent : Consistent labels) (case : EvaluationCaseRecord)
    : let status := statusOf (latestLabel labels case.key.caseId) case
      (status = .nullKey ↔ case.key.isNull = true)
      ∧ (status = .unmatched
          ↔ case.key.isNull = false ∧ ∀ label ∈ labels, label.caseId ≠ case.key.caseId)
      ∧ (∀ label, status = .resolved label
          ↔ case.key.isNull = false ∧ IsLatest labels case.key.caseId label)
      ∧ ∀ revisions, status ≠ .ambiguous revisions := by
  simp only [← latestLabel_eq_none, ← latestLabel_eq_some consistent]
  unfold statusOf
  cases null : case.key.isNull with
  | true => simp
  | false =>
      cases latestLabel labels case.key.caseId with
      | some label => simp
      | none => simp

theorem statuses_partition (label : EvaluationCaseRecord → Option JudgedLabel)
    (cases : List EvaluationCaseRecord)
    : let resolved := cases.map fun case => resolvedCase (label case) case
      resolved.countP (fun c => c.labelStatus = .unmatched)
          + resolved.countP (fun c => c.labelStatus = .nullKey)
          + resolved.countP (·.labelStatus.isResolved)
        = cases.length := by
  induction cases with
  | nil => rfl
  | cons case rest ih =>
      have one : (if decide ((resolvedCase (label case) case).labelStatus = .unmatched) then 1 else 0)
          + (if decide ((resolvedCase (label case) case).labelStatus = .nullKey) then 1 else 0)
          + (if (resolvedCase (label case) case).labelStatus.isResolved then 1 else 0) = 1 := by
        unfold resolvedCase statusOf
        cases case.key.isNull with
        | true => rfl
        | false => cases label case <;> rfl
      dsimp only at ih ⊢
      rw [List.map_cons, List.countP_cons, List.countP_cons, List.countP_cons, List.length_cons,
        ← ih]
      omega

theorem manifest_counts {manifest : ReconciliationManifest}
    (joined : joinEvaluationFrame cases labels = .ok (resolved, manifest))
    : manifest.preJoinCaseCount = cases.length
      ∧ manifest.postJoinCaseCount = cases.length
      ∧ manifest.reconciled = true
      ∧ manifest.unmatchedCasesCount = resolved.countP (fun c => c.labelStatus = .unmatched)
      ∧ manifest.nullKeyCasesCount = resolved.countP (fun c => c.labelStatus = .nullKey)
      ∧ totalOf manifest.splitsDistribution = cases.length
      ∧ ∀ split : EvaluationSplit,
          (manifest.splitsDistribution.lookup split.asStr).getD 0
            = cases.countP (·.split = split) := by
  obtain ⟨_, resolvedLabels, _, _, rfl, done⟩ := joinEvaluationFrame_eq_ok.mp joined
  obtain ⟨rfl, rfl⟩ := Prod.mk.inj done
  have all := joined_all resolvedLabels cases
  have length : (cases.foldl (·.join resolvedLabels) JoinState.start).resolvedCases.length
      = cases.length := by
    rw [all.resolvedCases, List.length_map]
  have nullStatus (label : Option JudgedLabel) (case : EvaluationCaseRecord)
      : statusOf label case = .nullKey ↔ case.key.isNull = true := by
    unfold statusOf
    cases case.key.isNull with
    | true => simp
    | false => cases label <;> simp
  refine ⟨rfl, length, decide_eq_true length.symm, ?_, ?_, all.total, all.bySplit⟩
  · rw [all.resolvedCases, List.countP_map]
    exact all.unmatched
  · rw [all.resolvedCases, List.countP_map]
    refine all.nullKey.trans (List.countP_congr fun case _ => ?_)
    rw [Function.comp_apply, decide_eq_true_iff]
    exact (nullStatus _ case).symm

end SkillRanker.Evaluation
