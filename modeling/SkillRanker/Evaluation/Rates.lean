import Mathlib.Algebra.Order.Field.Basic
import Mathlib.Tactic.NormNum
import SkillRanker.Evaluation.Metrics

/-! The ratios of the metrics: which of them are rates, and when the precision is taken over the
cases that emitted a suggestion.
-/

namespace SkillRanker.Evaluation
open SkillRanker.Library

-- Rates

def IsRate (value : ℚ) : Prop := 0 ≤ value ∧ value ≤ 1

/-- A share of natural numbers is a rate exactly if it is not above the whole. -/
theorem isRate_div_iff {part whole : Nat} (positive : 0 < whole)
    : IsRate ((part : ℚ) / whole) ↔ part ≤ whole := by
  have wholePositive : (0 : ℚ) < whole := by exact_mod_cast positive
  unfold IsRate
  rw [div_le_one wholePositive, Nat.cast_le]
  exact and_iff_right (by positivity)

theorem isRate_of_rate {successes denominator : Nat} (within : successes ≤ denominator)
    {value : ℚ} (is : rate successes denominator = some value)
    : IsRate value := by
  unfold rate at is
  split at is
  · next positive =>
    rw [← Option.some.inj is, isRate_div_iff positive]
    exact within
  · cases is

structure MetricCounts.Within (counts : MetricCounts) : Prop where
  covered : counts.coveredPositiveCases ≤ counts.positiveAdvisoryCases
  truePositives : counts.emittedTruePositives ≤ counts.emittedAdvisorySuggestions
  positiveSuggestions : counts.positiveSuggestionsEmitted ≤ counts.positiveAdvisoryCases
  needless : counts.needlessSuggestions ≤ counts.noMatchAdvisoryCases
  falseAbstentions : counts.falseAbstentions ≤ counts.positiveAdvisoryCases

/-- One case keeps the shares within their wholes. -/
theorem MetricCounts.Within.count {counts : MetricCounts} (within : counts.Within)
    (c : ResolvedEvaluationCase)
    : (counts.count c).Within := by
  obtain ⟨covered, truePositives, positiveSuggestions, needless, falseAbstentions⟩ := within
  have one : (if c.candidateCoverage then 1 else 0) ≤ 1 := by split <;> omega
  unfold MetricCounts.count
  cases c.isJudged with
  | false => exact ⟨covered, truePositives, positiveSuggestions, needless, falseAbstentions⟩
  | true =>
      cases c.record.operationalFailure with
      | true => exact ⟨covered, truePositives, positiveSuggestions, needless, falseAbstentions⟩
      | false =>
          unfold MetricCounts.countAdvice
          cases c.relevanceClass
          all_goals
            constructor
            all_goals
              simp
              omega

/-- The shares of counted cases are within their wholes, by induction on the cases. -/
theorem countCases_within (resolved : List ResolvedEvaluationCase)
    : (countCases resolved).Within := by
  have all {counts : MetricCounts} (within : counts.Within)
      : (resolved.foldl .count counts).Within := by
    induction resolved generalizing counts with
    | nil => exact within
    | cons first rest ih => exact ih (within.count first)
  exact all ⟨le_rfl, le_rfl, le_rfl, le_rfl, le_rfl⟩

def EvaluationMetrics.rates (metrics : EvaluationMetrics) : List (Option ℚ) :=
  [metrics.candidateCoverageRate, metrics.top1Precision, metrics.positiveSuggestionRate,
    metrics.needlessSuggestionRate, metrics.falseAbstentionRate]

theorem computeMetrics_rates (resolved : List ResolvedEvaluationCase) (value : ℚ)
    (reported : some value ∈ (computeMetrics resolved).rates)
    : IsRate value := by
  obtain ⟨covered, truePositives, positiveSuggestions, needless, falseAbstentions⟩ :=
    countCases_within resolved
  unfold EvaluationMetrics.rates computeMetrics at reported
  simp only [List.mem_cons, List.not_mem_nil, or_false] at reported
  rcases reported with is | is | is | is | is
  · exact isRate_of_rate covered is.symm
  · exact isRate_of_rate truePositives is.symm
  · exact isRate_of_rate positiveSuggestions is.symm
  · exact isRate_of_rate needless is.symm
  · exact isRate_of_rate falseAbstentions is.symm

-- Advisory cases

/-- The label by which a case is judged as advice: the latest one, if the key is complete, the case
did not fail and the label names no skill that was asked for.
-/
def adviceLabel (labels : List JudgedLabel) (case : EvaluationCaseRecord) : Option JudgedLabel :=
  if case.key.isNull || case.operationalFailure then none
  else (latestLabel labels case.key.caseId).filter (·.explicitDirective = none)

def emitsAdvice (labels : List JudgedLabel) (case : EvaluationCaseRecord) : Bool :=
  (adviceLabel labels case).isSome && !case.suggestedSkills.isEmpty

/-- A positive case neither suggests a skill nor says that it abstains. -/
def isSilent (labels : List JudgedLabel) (case : EvaluationCaseRecord) : Bool :=
  (adviceLabel labels case).any (!·.acceptsNone) && case.suggestedSkills.isEmpty
    && !case.abstains

/-- A positive case says that it abstains, and yet suggests skills of which the first is not
acceptable.
-/
def isMuted (labels : List JudgedLabel) (case : EvaluationCaseRecord) : Bool :=
  (adviceLabel labels case).any (fun label =>
      !label.acceptsNone && case.suggestedSkills.head?.any (· ∉ label.acceptableSkills))
    && case.abstains

/-- No positive case repeats acceptable suggestions beyond the number of acceptable skills. -/
def RepeatsWithin (labels : List JudgedLabel) (case : EvaluationCaseRecord) : Prop :=
  ∀ label ∈ adviceLabel labels case, label.acceptsNone = false
    → case.suggestedSkills.countP (· ∈ label.acceptableSkills) ≤ label.acceptableSkills.card

instance (labels : List JudgedLabel) (case : EvaluationCaseRecord)
    : Decidable (RepeatsWithin labels case) :=
  inferInstanceAs (Decidable (∀ label ∈ adviceLabel labels case, label.acceptsNone = false
    → case.suggestedSkills.countP (· ∈ label.acceptableSkills) ≤ label.acceptableSkills.card))

variable {case : EvaluationCaseRecord} {labels : List JudgedLabel}

/-- A case that is judged as advice is counted as such, and has the recall of its label. -/
theorem resolvedCase_advice {label : JudgedLabel} (advice : adviceLabel labels case = some label)
    : resolvedCase (latestLabel labels case.key.caseId) case
        = {
            record := case
            labelStatus := .resolved label
            relevanceClass := (classifyRelevance case label).relevanceClass
            top1Match := (classifyRelevance case label).top1Match
            candidateCoverage := (classifyRelevance case label).candidateCoverage
            setRecall := (classifyRelevance case label).setRecall }
      ∧ case.operationalFailure = false ∧ label.explicitDirective = none := by
  unfold adviceLabel at advice
  split at advice
  · cases advice
  · next complete =>
    obtain ⟨null, succeeded⟩ := Bool.or_eq_false_iff.mp (Bool.eq_false_iff.mpr complete)
    obtain ⟨latest, noDirective⟩ := Option.filter_eq_some_iff.mp advice
    refine ⟨?_, succeeded, of_decide_eq_true noDirective⟩
    unfold resolvedCase statusOf
    rw [null, latest]
    rfl

/-- A case that is not judged as advice is not counted as such, and has no recall above one. -/
theorem resolvedCase_notAdvice (notAdvice : adviceLabel labels case = none)
    : let c := resolvedCase (latestLabel labels case.key.caseId) case
      c.countedIn [.truePositive, .falsePositive, .needlessSuggestion] = false
      ∧ ∀ share, c.setRecall = some share → IsRate share := by
  have none_rate {share : ℚ} (is : (none : Option ℚ) = some share) : IsRate share := by cases is
  unfold adviceLabel at notAdvice
  unfold ResolvedEvaluationCase.countedIn ResolvedEvaluationCase.counted
    ResolvedEvaluationCase.isJudged resolvedCase statusOf
  dsimp only
  cases null : case.key.isNull with
  | true => exact ⟨rfl, fun _ => none_rate⟩
  | false =>
      cases latest : latestLabel labels case.key.caseId with
      | none => exact ⟨rfl, fun _ => none_rate⟩
      | some label =>
          cases failed : case.operationalFailure with
          | true =>
              refine ⟨by simp, fun share is => ?_⟩
              simp [outcomeOf, classifyRelevance, failed] at is
          | false =>
              cases directive : label.explicitDirective with
              | none => simp [null, failed, latest, directive] at notAdvice
              | some skill =>
                  simp only [Bool.false_eq_true, if_false, outcomeOf, classifyRelevance, failed,
                    directive, true_and, if_true]
                  refine ⟨?_, fun share is => ?_⟩
                  · split <;> rfl
                  · rw [← Option.some.inj is]
                    unfold IsRate
                    split <;> norm_num

variable (labels)

/-- The recall of a case is a rate exactly if the case does not repeat acceptable suggestions beyond
the acceptable skills.
-/
theorem setRecall_isRate_iff (case : EvaluationCaseRecord)
    : (∀ share, (resolvedCase (latestLabel labels case.key.caseId) case).setRecall = some share
        → IsRate share)
      ↔ RepeatsWithin labels case := by
  unfold RepeatsWithin
  cases advice : adviceLabel labels case with
  | none => exact iff_of_true (resolvedCase_notAdvice advice).2 nofun
  | some label =>
      obtain ⟨same, succeeded, noDirective⟩ := resolvedCase_advice advice
      rw [same]
      unfold classifyRelevance
      rw [succeeded, if_neg Bool.false_ne_true, noDirective]
      dsimp only
      cases accepts : label.acceptsNone with
      | true =>
          rw [if_pos rfl]
          refine iff_of_true nofun fun other is => ?_
          rw [← Option.some.inj is, accepts]
          exact nofun
      | false =>
          have some_acceptable : 0 < label.acceptableSkills.card := by
            rw [Finset.card_pos, Finset.nonempty_iff_ne_empty]
            intro none
            simp [JudgedLabel.acceptsNone, none] at accepts
          have share
              : IsRate ((acceptedSuggestions case label : ℚ) / label.acceptableSkills.card)
                ↔ case.suggestedSkills.countP (· ∈ label.acceptableSkills)
                  ≤ label.acceptableSkills.card := by
            rw [isRate_div_iff some_acceptable, acceptedSuggestions,
              ← List.countP_eq_length_filter]
          rw [if_neg Bool.false_ne_true]
          refine ⟨fun rates other is _ => ?_, fun within value is => ?_⟩
          · rw [← Option.some.inj is]
            exact share.mp (rates _ rfl)
          · rw [← Option.some.inj is]
            exact share.mpr (within label rfl accepts)

/-- A case is counted as emitted if it emits or is silent, except where it is muted. -/
theorem counted_emitted (case : EvaluationCaseRecord)
    : (if (resolvedCase (latestLabel labels case.key.caseId) case).countedIn
          [.truePositive, .falsePositive, .needlessSuggestion] then 1 else 0)
        + (if isMuted labels case then 1 else 0)
      = (if emitsAdvice labels case then 1 else 0)
        + (if isSilent labels case then 1 else 0) := by
  unfold isMuted emitsAdvice isSilent
  cases advice : adviceLabel labels case with
  | none =>
      rw [(resolvedCase_notAdvice advice).1]
      rfl
  | some label =>
      obtain ⟨same, succeeded, noDirective⟩ := resolvedCase_advice advice
      rw [same]
      unfold ResolvedEvaluationCase.countedIn ResolvedEvaluationCase.counted
        ResolvedEvaluationCase.isJudged classifyRelevance
      simp only [succeeded, noDirective, Bool.false_eq_true, if_false, if_true, Option.any_some,
        Option.isSome_some, and_self]
      by_cases nothing : case.suggestedSkills = []
      · by_cases accepts : label.acceptsNone
        · simp [accepts, nothing]
        · by_cases abstains : case.abstains <;> simp [accepts, nothing, abstains]
      · obtain ⟨first, rest, suggested⟩ := List.exists_cons_of_ne_nil nothing
        by_cases accepts : label.acceptsNone
        · simp [accepts, suggested]
        · by_cases acceptable : first ∈ label.acceptableSkills
          · simp [accepts, suggested, acceptable]
          · by_cases abstains : case.abstains <;> simp [accepts, suggested, acceptable, abstains]

theorem countP_emitted (cases : List EvaluationCaseRecord)
    : (cases.map fun case => resolvedCase (latestLabel labels case.key.caseId) case).countP
          (·.countedIn [.truePositive, .falsePositive, .needlessSuggestion])
        + cases.countP (isMuted labels)
      = cases.countP (emitsAdvice labels) + cases.countP (isSilent labels) := by
  induction cases with
  | nil => rfl
  | cons case rest ih =>
      have one := counted_emitted labels case
      rw [List.map_cons, List.countP_cons, List.countP_cons, List.countP_cons, List.countP_cons]
      omega

variable {labels}

-- Denominators

/-- Every recall and every rate is between zero and one, and the precision is taken over the advisory
cases that emitted a suggestion, exactly where no positive case repeats acceptable suggestions beyond
its acceptable skills and as many positive cases are silent as are muted.
-/
theorem denominators_exact_iff {cases : List EvaluationCaseRecord} {labels : List JudgedLabel}
    {resolved : List ResolvedEvaluationCase} {manifest : ReconciliationManifest}
    (joined : joinEvaluationFrame cases labels = .ok (resolved, manifest))
    : ((∀ c ∈ resolved, ∀ share, c.setRecall = some share → IsRate share)
        ∧ (∀ value, some value ∈ (computeMetrics resolved).rates → IsRate value)
        ∧ (countCases resolved).emittedAdvisorySuggestions = cases.countP (emitsAdvice labels))
      ↔ (∀ case ∈ cases, RepeatsWithin labels case)
        ∧ cases.countP (isSilent labels) = cases.countP (isMuted labels) := by
  obtain ⟨_, rfl⟩ := of_joinEvaluationFrame joined
  rw [List.forall_mem_map, (countCases_class _).2.2.2]
  simp only [setRecall_isRate_iff]
  have emitted := countP_emitted labels cases
  refine ⟨fun ⟨recalls, _, exact⟩ => ⟨recalls, ?_⟩, fun ⟨recalls, balanced⟩ => ⟨recalls, ?_, ?_⟩⟩
  · omega
  · exact computeMetrics_rates _
  · omega

/-- A frame of one suggestion each meets the condition, so its precision is exact. -/
theorem denominators_exact_revised
    : ∃ resolved manifest,
        joinEvaluationFrame [suggestingCase "case-1" ["testing"], suggestingCase "case-2" []]
            [testingLabel "case-1" 1, testingLabel "case-1" 2]
          = .ok (resolved, manifest)
        ∧ (countCases resolved).emittedAdvisorySuggestions
          = [suggestingCase "case-1" ["testing"], suggestingCase "case-2" []].countP
              (emitsAdvice [testingLabel "case-1" 1, testingLabel "case-1" 2]) := by
  have joined : joinEvaluationFrame
        [suggestingCase "case-1" ["testing"], suggestingCase "case-2" []]
        [testingLabel "case-1" 1, testingLabel "case-1" 2]
      = .ok _ := rfl
  exact ⟨_, _, joined, ((denominators_exact_iff joined).mpr (by decide)).2.2⟩

/-- A skill that is suggested twice makes a recall of two, and a case that suggests nothing without
saying that it abstains counts as having emitted a suggestion.
-/
theorem repeated_and_silent
    : ∃ resolved manifest,
        joinEvaluationFrame
            [suggestingCase "case-1" ["testing", "testing"], suggestingCase "case-2" []]
            [testingLabel "case-1" 1, testingLabel "case-2" 1]
          = .ok (resolved, manifest)
        ∧ (∃ c ∈ resolved, c.setRecall = some 2)
        ∧ (countCases resolved).emittedAdvisorySuggestions = 2
        ∧ [suggestingCase "case-1" ["testing", "testing"], suggestingCase "case-2" []].countP
            (emitsAdvice [testingLabel "case-1" 1, testingLabel "case-2" 1]) = 1 := by
  refine ⟨_, _, rfl, ⟨_, List.mem_cons_self, ?_⟩, by decide, by decide⟩
  rw [show (2 : ℚ) = (2 : Nat) / (1 : Nat) by norm_num]
  rfl

end SkillRanker.Evaluation
