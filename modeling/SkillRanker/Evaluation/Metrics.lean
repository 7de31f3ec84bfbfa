import Mathlib.Tactic.Linarith
import SkillRanker.Evaluation.Join

/-! The metrics of joined cases: what they count, that their rates are rates, and when they count the
emitted suggestions.
-/

namespace SkillRanker.Evaluation
open SkillRanker.Library

-- Counts

structure MetricCounts where
  totalCases : Nat
  judgedCases : Nat
  unjudgedCases : Nat
  operationalFailures : Nat
  explicitCases : Nat
  advisoryCases : Nat
  positiveAdvisoryCases : Nat
  noMatchAdvisoryCases : Nat
  coveredPositiveCases : Nat
  emittedAdvisorySuggestions : Nat
  emittedTruePositives : Nat
  positiveSuggestionsEmitted : Nat
  needlessSuggestions : Nat
  falseAbstentions : Nat
deriving DecidableEq, Repr

def MetricCounts.start : MetricCounts := ⟨0, 0, 0, 0, 0, 0, 0, 0, 0, 0, 0, 0, 0, 0⟩

structure EvaluationMetrics where
  totalCases : Nat
  judgedCases : Nat
  unjudgedCases : Nat
  operationalFailures : Nat
  explicitCases : Nat
  advisoryCases : Nat
  positiveAdvisoryCases : Nat
  noMatchAdvisoryCases : Nat
  candidateCoverageRate : Option ℚ
  top1Precision : Option ℚ
  positiveSuggestionRate : Option ℚ
  needlessSuggestionRate : Option ℚ
  falseAbstentionRate : Option ℚ
deriving DecidableEq

def ResolvedEvaluationCase.isJudged (resolved : ResolvedEvaluationCase) : Bool :=
  match resolved.labelStatus with
  | .unmatched | .nullKey => false
  | _ => true

def MetricCounts.countAdvice (counts : MetricCounts) (c : ResolvedEvaluationCase) : MetricCounts :=
  let covered := if c.candidateCoverage then 1 else 0
  match c.relevanceClass with
  | .truePositive =>
      { counts with
        positiveAdvisoryCases := counts.positiveAdvisoryCases + 1
        emittedAdvisorySuggestions := counts.emittedAdvisorySuggestions + 1
        emittedTruePositives := counts.emittedTruePositives + 1
        positiveSuggestionsEmitted := counts.positiveSuggestionsEmitted + 1
        coveredPositiveCases := counts.coveredPositiveCases + covered }
  | .falsePositive =>
      { counts with
        positiveAdvisoryCases := counts.positiveAdvisoryCases + 1
        emittedAdvisorySuggestions := counts.emittedAdvisorySuggestions + 1
        coveredPositiveCases := counts.coveredPositiveCases + covered }
  | .falseAbstain =>
      { counts with
        positiveAdvisoryCases := counts.positiveAdvisoryCases + 1
        falseAbstentions := counts.falseAbstentions + 1
        coveredPositiveCases := counts.coveredPositiveCases + covered }
  | .needlessSuggestion =>
      { counts with
        noMatchAdvisoryCases := counts.noMatchAdvisoryCases + 1
        emittedAdvisorySuggestions := counts.emittedAdvisorySuggestions + 1
        needlessSuggestions := counts.needlessSuggestions + 1 }
  | .trueAbstain => { counts with noMatchAdvisoryCases := counts.noMatchAdvisoryCases + 1 }
  | _ => counts

def MetricCounts.count (counts : MetricCounts) (c : ResolvedEvaluationCase) : MetricCounts :=
  let counts := { counts with totalCases := counts.totalCases + 1 }
  if c.isJudged = false then
    { counts with
      unjudgedCases := counts.unjudgedCases + 1
      operationalFailures :=
        counts.operationalFailures + if c.record.operationalFailure then 1 else 0 }
  else
    let counts := { counts with judgedCases := counts.judgedCases + 1 }
    if c.record.operationalFailure then
      { counts with operationalFailures := counts.operationalFailures + 1 }
    else if c.relevanceClass = .explicitMatch ∨ c.relevanceClass = .explicitMismatch then
      { counts with explicitCases := counts.explicitCases + 1 }
    else { counts with advisoryCases := counts.advisoryCases + 1 }.countAdvice c

def countCases (resolved : List ResolvedEvaluationCase) : MetricCounts :=
  resolved.foldl .count .start

/-- A share of a number of cases, if there are any. -/
def rate (successes denominator : Nat) : Option ℚ :=
  if 0 < denominator then some (successes / denominator) else none

def computeMetrics (resolved : List ResolvedEvaluationCase) : EvaluationMetrics :=
  let counts := countCases resolved
  {
    totalCases := counts.totalCases
    judgedCases := counts.judgedCases
    unjudgedCases := counts.unjudgedCases
    operationalFailures := counts.operationalFailures
    explicitCases := counts.explicitCases
    advisoryCases := counts.advisoryCases
    positiveAdvisoryCases := counts.positiveAdvisoryCases
    noMatchAdvisoryCases := counts.noMatchAdvisoryCases
    candidateCoverageRate := rate counts.coveredPositiveCases counts.positiveAdvisoryCases
    top1Precision := rate counts.emittedTruePositives counts.emittedAdvisorySuggestions
    positiveSuggestionRate :=
      rate counts.positiveSuggestionsEmitted counts.positiveAdvisoryCases
    needlessSuggestionRate := rate counts.needlessSuggestions counts.noMatchAdvisoryCases
    falseAbstentionRate := rate counts.falseAbstentions counts.positiveAdvisoryCases
  }

-- What is counted

def ResolvedEvaluationCase.counted (c : ResolvedEvaluationCase) : Option RelevanceClass :=
  if c.isJudged ∧ c.record.operationalFailure = false then some c.relevanceClass else none

def ResolvedEvaluationCase.countedIn (classes : List RelevanceClass) (c : ResolvedEvaluationCase)
    : Bool :=
  c.counted.any (· ∈ classes)

/-- A number that one case raises exactly if it has a property counts the cases that have it, by
induction on the cases.
-/
theorem foldl_count {field : MetricCounts → Nat} {property : ResolvedEvaluationCase → Bool}
    (step
      : ∀ counts c, field (MetricCounts.count counts c)
          = field counts + if property c then 1 else 0)
    (resolved : List ResolvedEvaluationCase) (start : MetricCounts)
    : field (resolved.foldl .count start) = field start + resolved.countP property := by
  induction resolved generalizing start with
  | nil => rfl
  | cons first rest ih =>
      rw [List.foldl_cons, ih, step, List.countP_cons, Nat.add_assoc, Nat.add_comm (ite _ _ _)]

/-- What one case adds to the numbers of judged and unjudged cases. -/
theorem MetricCounts.count_judged (counts : MetricCounts) (c : ResolvedEvaluationCase)
    : (counts.count c).totalCases = counts.totalCases + 1
      ∧ (counts.count c).judgedCases = counts.judgedCases + (if c.isJudged then 1 else 0)
      ∧ (counts.count c).unjudgedCases
        = counts.unjudgedCases + (if !c.isJudged then 1 else 0) := by
  unfold count
  cases c.isJudged with
  | false => exact ⟨rfl, rfl, rfl⟩
  | true =>
      cases c.record.operationalFailure with
      | true => exact ⟨rfl, rfl, rfl⟩
      | false =>
          unfold countAdvice
          cases c.relevanceClass <;> exact ⟨rfl, rfl, rfl⟩

theorem MetricCounts.count_class (counts : MetricCounts) (c : ResolvedEvaluationCase)
    : (counts.count c).explicitCases
        = counts.explicitCases
          + (if c.countedIn [.explicitMatch, .explicitMismatch] then 1 else 0)
      ∧ (counts.count c).positiveAdvisoryCases
        = counts.positiveAdvisoryCases
          + (if c.countedIn [.truePositive, .falsePositive, .falseAbstain] then 1 else 0)
      ∧ (counts.count c).noMatchAdvisoryCases
        = counts.noMatchAdvisoryCases
          + (if c.countedIn [.needlessSuggestion, .trueAbstain] then 1 else 0)
      ∧ (counts.count c).emittedAdvisorySuggestions
        = counts.emittedAdvisorySuggestions
          + (if c.countedIn [.truePositive, .falsePositive, .needlessSuggestion] then 1
            else 0) := by
  unfold count ResolvedEvaluationCase.countedIn ResolvedEvaluationCase.counted
  cases c.isJudged with
  | false => exact ⟨rfl, rfl, rfl, rfl⟩
  | true =>
      cases c.record.operationalFailure with
      | true => exact ⟨rfl, rfl, rfl, rfl⟩
      | false =>
          unfold countAdvice
          cases c.relevanceClass <;> exact ⟨rfl, rfl, rfl, rfl⟩

theorem countCases_judged (resolved : List ResolvedEvaluationCase)
    : (countCases resolved).totalCases = resolved.length
      ∧ (countCases resolved).judgedCases = resolved.countP (·.isJudged)
      ∧ (countCases resolved).unjudgedCases = resolved.countP fun c => !c.isJudged := by
  have total := @foldl_count _ (fun _ => true) (fun counts c => (counts.count_judged c).1)
    resolved .start
  have judged := foldl_count (fun counts c => (counts.count_judged c).2.1) resolved .start
  have unjudged := foldl_count (fun counts c => (counts.count_judged c).2.2) resolved .start
  rw [List.countP_true] at total
  exact ⟨total.trans (Nat.zero_add _), judged.trans (Nat.zero_add _),
    unjudged.trans (Nat.zero_add _)⟩

/-- The cases of each kind are those counted under its classes. -/
theorem countCases_class (resolved : List ResolvedEvaluationCase)
    : (countCases resolved).explicitCases
        = resolved.countP (·.countedIn [.explicitMatch, .explicitMismatch])
      ∧ (countCases resolved).positiveAdvisoryCases
        = resolved.countP (·.countedIn [.truePositive, .falsePositive, .falseAbstain])
      ∧ (countCases resolved).noMatchAdvisoryCases
        = resolved.countP (·.countedIn [.needlessSuggestion, .trueAbstain])
      ∧ (countCases resolved).emittedAdvisorySuggestions
        = resolved.countP (·.countedIn [.truePositive, .falsePositive, .needlessSuggestion]) := by
  have explicit := foldl_count (fun counts c => (counts.count_class c).1) resolved .start
  have positive := foldl_count (fun counts c => (counts.count_class c).2.1) resolved .start
  have noMatch := foldl_count (fun counts c => (counts.count_class c).2.2.1) resolved .start
  have emitted := foldl_count (fun counts c => (counts.count_class c).2.2.2) resolved .start
  exact ⟨explicit.trans (Nat.zero_add _), positive.trans (Nat.zero_add _),
    noMatch.trans (Nat.zero_add _), emitted.trans (Nat.zero_add _)⟩

variable {case : EvaluationCaseRecord}

/-- A case that is judged and did not fail is classified by its label. -/
theorem counted_resolvedCase {label : Option JudgedLabel} {relevanceClass : RelevanceClass}
    (counted : (resolvedCase label case).counted = some relevanceClass)
    : ∃ judged, label = some judged ∧ case.key.isNull = false ∧ case.operationalFailure = false
      ∧ relevanceClass = (classifyRelevance case judged).relevanceClass := by
  unfold ResolvedEvaluationCase.counted ResolvedEvaluationCase.isJudged resolvedCase statusOf
    at counted
  cases null : case.key.isNull with
  | true => simp [null] at counted
  | false =>
      cases label with
      | none => simp [null] at counted
      | some judged =>
          simp only [null, Bool.false_eq_true, if_false, true_and] at counted
          split at counted
          · next succeeded => exact ⟨judged, rfl, rfl, succeeded, (Option.some.inj counted).symm⟩
          · cases counted

/-- A case that did not fail is classified as explicit, as positive or as without a match. -/
theorem classifyRelevance_class (label : JudgedLabel) (succeeded : case.operationalFailure = false)
    : (classifyRelevance case label).relevanceClass ∉ [.operationalFailure, .unjudged] := by
  unfold classifyRelevance
  rw [succeeded, if_neg Bool.false_ne_true]
  cases label.explicitDirective with
  | some directive =>
      dsimp only
      split <;> decide
  | none =>
      dsimp only
      split
      · split <;> decide
      · split
        · decide
        · split <;> decide

/-- A joined case that is judged and did not fail is of one kind. -/
theorem countedIn_kinds (label : Option JudgedLabel) (case : EvaluationCaseRecord)
    : let c := resolvedCase label case
      (if c.counted.isSome then 1 else 0)
        = (if c.countedIn [.explicitMatch, .explicitMismatch] then 1 else 0)
          + (if c.countedIn [.truePositive, .falsePositive, .falseAbstain] then 1 else 0)
          + (if c.countedIn [.needlessSuggestion, .trueAbstain] then 1 else 0) := by
  unfold ResolvedEvaluationCase.countedIn
  dsimp only
  cases is : (resolvedCase label case).counted with
  | none => rfl
  | some relevanceClass =>
      obtain ⟨judged, _, _, succeeded, rfl⟩ := counted_resolvedCase is
      have known := classifyRelevance_class judged succeeded
      revert known
      cases (classifyRelevance case judged).relevanceClass <;> decide

/-- The joined cases that are judged and did not fail are explicit, positive or without a match, by
induction on the cases.
-/
theorem countP_counted (label : EvaluationCaseRecord → Option JudgedLabel)
    (cases : List EvaluationCaseRecord)
    : let resolved := cases.map fun case => resolvedCase (label case) case
      resolved.countP (·.counted.isSome)
        = resolved.countP (·.countedIn [.explicitMatch, .explicitMismatch])
          + resolved.countP (·.countedIn [.truePositive, .falsePositive, .falseAbstain])
          + resolved.countP (·.countedIn [.needlessSuggestion, .trueAbstain]) := by
  induction cases with
  | nil => rfl
  | cons case rest ih =>
      have kinds := countedIn_kinds (label case) case
      dsimp only at ih kinds ⊢
      rw [List.map_cons, List.countP_cons, List.countP_cons, List.countP_cons, List.countP_cons, ih,
        kinds]
      omega

-- Reconciliation

/-- A join that succeeds keeps the cases in order, each with the label of the highest revision for
its case, counts them without remainder, does not depend on the order of the labels, and its metrics
account for every case.
-/
theorem join_reconciles {cases : List EvaluationCaseRecord} {labels : List JudgedLabel}
    {resolved : List ResolvedEvaluationCase} {manifest : ReconciliationManifest}
    (joined : joinEvaluationFrame cases labels = .ok (resolved, manifest))
    : resolved.map (·.record) = cases
      ∧ (∀ c ∈ resolved,
          (c.labelStatus = .nullKey ↔ c.record.key.isNull = true)
          ∧ (c.labelStatus = .unmatched
              ↔ c.record.key.isNull = false
                ∧ ∀ label ∈ labels, label.caseId ≠ c.record.key.caseId)
          ∧ ∀ label, c.labelStatus = .resolved label
              ↔ c.record.key.isNull = false ∧ IsLatest labels c.record.key.caseId label)
      ∧ (manifest.preJoinCaseCount = cases.length
          ∧ manifest.postJoinCaseCount = cases.length
          ∧ manifest.reconciled = true
          ∧ manifest.unmatchedCasesCount
            = resolved.countP (fun c => c.labelStatus = .unmatched)
          ∧ manifest.nullKeyCasesCount = resolved.countP (fun c => c.labelStatus = .nullKey)
          ∧ manifest.unmatchedCasesCount + manifest.nullKeyCasesCount
              + resolved.countP (·.labelStatus.isResolved)
            = cases.length
          ∧ totalOf manifest.splitsDistribution = cases.length
          ∧ ∀ split : EvaluationSplit,
              (manifest.splitsDistribution.lookup split.asStr).getD 0
                = cases.countP (·.split = split))
      ∧ (∀ permuted, permuted.Perm labels
          → joinEvaluationFrame cases permuted = .ok (resolved, manifest))
      ∧ (let metrics := computeMetrics resolved
        metrics.totalCases = cases.length
          ∧ metrics.totalCases = metrics.judgedCases + metrics.unjudgedCases
          ∧ resolved.countP (fun c => c.isJudged && !c.record.operationalFailure)
            = metrics.explicitCases + metrics.positiveAdvisoryCases
              + metrics.noMatchAdvisoryCases) := by
  obtain ⟨consistent, rfl⟩ := of_joinEvaluationFrame joined
  obtain ⟨preJoin, postJoin, reconciled, unmatched, nullKey, total, bySplit⟩ :=
    manifest_counts joined
  obtain ⟨totalCases, judged, unjudged⟩ := countCases_judged
    (cases.map fun case => resolvedCase (latestLabel labels case.key.caseId) case)
  obtain ⟨explicit, positive, noMatch, _⟩ := countCases_class
    (cases.map fun case => resolvedCase (latestLabel labels case.key.caseId) case)
  refine ⟨?_, ?_, ⟨preJoin, postJoin, reconciled, unmatched, nullKey, ?_, total, bySplit⟩,
    fun permuted => joinEvaluationFrame_perm joined, ?_, ?_, ?_⟩
  · rw [List.map_map]
    exact List.map_id cases
  · intro c mem
    obtain ⟨case, _, rfl⟩ := List.mem_map.mp mem
    obtain ⟨null, missing, latest, _⟩ := statusOf_spec consistent case
    exact ⟨null, missing, latest⟩
  · rw [unmatched, nullKey]
    exact statuses_partition _ cases
  · exact totalCases.trans (List.length_map _)
  · refine totalCases.trans ((List.length_eq_countP_add_countP (·.isJudged)).trans ?_)
    refine congrArg₂ _ judged.symm (Eq.trans ?_ unjudged.symm)
    exact List.countP_congr fun c _ => by simp
  · refine Eq.trans (List.countP_congr fun c _ => ?_) ((countP_counted _ cases).trans ?_)
    · unfold ResolvedEvaluationCase.counted
      cases c.isJudged <;> cases c.record.operationalFailure <;> simp
    · rw [← explicit, ← positive, ← noMatch]
      rfl

def suggestingCase (caseId : String) (suggestedSkills : List String) : EvaluationCaseRecord where
  schemaVersion := 1
  key := {
    frameId := "frame-1"
    familyId := caseId
    caseId := caseId
    replicate := 0
    policyId := "policy-1" }
  split := .holdout
  promptSummary := some "fix the tests"
  rosterSkills := ["testing"]
  decision := "suggest"
  suggestedSkills := suggestedSkills
  fits := []
  gateScore := none
  relevanceAbstention := false
  operationalFailure := false

def testingLabel (caseId : String) (revision : Nat) : JudgedLabel where
  schemaVersion := 1
  caseId := caseId
  revision := revision
  acceptableSkills := {"testing"}
  explicitDirective := none
  noSkillNeeded := false
  constraints := []
  adjudicator := "judge-1"
  createdAtUnixMs := 0
  notes := none

/-- A case whose label was revised is joined with the revision. -/
theorem revised_reconciles
    : ∃ resolved manifest,
        joinEvaluationFrame [suggestingCase "case-1" ["testing"], suggestingCase "case-2" []]
            [testingLabel "case-1" 1, testingLabel "case-1" 2]
          = .ok (resolved, manifest)
        ∧ resolved.map (·.record)
          = [suggestingCase "case-1" ["testing"], suggestingCase "case-2" []] := by
  have joined : joinEvaluationFrame
        [suggestingCase "case-1" ["testing"], suggestingCase "case-2" []]
        [testingLabel "case-1" 1, testingLabel "case-1" 2]
      = .ok _ := rfl
  exact ⟨_, _, joined, (join_reconciles joined).1⟩

end SkillRanker.Evaluation
