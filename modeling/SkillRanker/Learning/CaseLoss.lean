import SkillRanker.Learning.Policy

/-! The loss of a policy on recorded cases, one by one and over a split. -/

namespace SkillRanker.Learning

open SkillRanker.Library SkillRanker.Recommendation

inductive CalibrationSplit
  | training
  | validation
  | holdout
deriving DecidableEq, Repr

def CalibrationSplit.debug : CalibrationSplit → String
  | .training => "Training"
  | .validation => "Validation"
  | .holdout => "Holdout"

structure CalibrationCandidateInput (R : Type) where
  skillId : String
  contentHash : String
  rerankProbability : R
  fit : R
  eligible : Bool
  phaseMatch : R
deriving DecidableEq

structure CalibrationCaseInput (R : Type) where
  caseId : String
  familyId : String
  split : CalibrationSplit
  timestampUnixMs : Nat
  acceptableSkills : List String
  nearMiss : Bool
  needsSkillGate : R
  noneProbability : R
  stage2Present : Bool
  operationallyUnavailable : Bool
  phase : Option String
  candidates : List (CalibrationCandidateInput R)
deriving DecidableEq

section Losses

variable {R : Type} [Field R] [LinearOrder R] (functions : LogExp R)

def abstentionLoss (case : CalibrationCaseInput R) : Nat :=
  if case.acceptableSkills = [] then 0 else 1

/-- Local eligibility, the sentinel and the fit threshold. -/
def CalibrationCandidateInput.survives (case : CalibrationCaseInput R)
    (policy : ManagedRankingPolicy R) (candidate : CalibrationCandidateInput R)
    : Bool :=
  candidate.eligible
  && !decide (candidate.rerankProbability ≤ case.noneProbability)
  && !decide (candidate.fit < policy.fitThreshold)

def CalibrationCandidateInput.logit (case : CalibrationCaseInput R)
    (policy : ManagedRankingPolicy R) (priors : PriorSnapshot) (policyVersion : String)
    (candidate : CalibrationCandidateInput R)
    : R :=
  let priorDelta :=
    if 0 < policy.wPrior then
      priors.priorDelta functions candidate.skillId candidate.contentHash policyVersion
        case.phase
    else 0
  functions.ln (clamp candidate.rerankProbability epsilon (1 - epsilon))
    + policy.wFit * logOdds functions candidate.fit
    + policy.wPrior * priorDelta
    + policy.wPhase * clamp candidate.phaseMatch 0 1

/-- Higher scores come first, and lower identifiers among equal scores. -/
def scoresBefore : CalibrationCandidateInput R × R → CalibrationCandidateInput R × R → Bool :=
  scoreThenKey (·.2) (·.1.skillId)

def survivorsRanked (case : CalibrationCaseInput R) (policy : ManagedRankingPolicy R)
    (priors : PriorSnapshot) (policyVersion : String)
    : List (CalibrationCandidateInput R × R) :=
  let surviving :=
    (case.candidates.filter (·.survives case policy)).map fun candidate =>
      (candidate, candidate.logit functions case policy priors policyVersion)
  surviving.mergeSort scoresBefore

def survivorLoss (case : CalibrationCaseInput R) (policy : ManagedRankingPolicy R)
    (priors : PriorSnapshot) (policyVersion : String)
    : Nat :=
  match survivorsRanked functions case policy priors policyVersion with
  | [] => abstentionLoss case
  | (top, _) :: _ => if top.skillId ∈ case.acceptableSkills then 0 else 2

/-- The loss of a policy on a case, or none where the policy needs stage-2 evidence that was not
recorded.
-/
def evaluateCaseLoss (case : CalibrationCaseInput R) (policy : ManagedRankingPolicy R)
    (priors : PriorSnapshot) (policyVersion : String)
    : Option Nat :=
  if case.operationallyUnavailable then some 2
  else if ¬policy.gateThreshold ≤ case.needsSkillGate then some (abstentionLoss case)
  else if case.stage2Present = false then none
  else some (survivorLoss functions case policy priors policyVersion)

/-- The losses of the cases of a split, added up. -/
def totalLoss (policy : ManagedRankingPolicy R) (priors : PriorSnapshot)
    (policyVersion : String) (cases : List (CalibrationCaseInput R))
    : Option Nat :=
  cases.foldlM
    (fun total case => do
      let loss ← evaluateCaseLoss functions case policy priors policyVersion
      return saturatingAdd total loss)
    0

def evaluateSplit (cases : List (CalibrationCaseInput R)) (policy : ManagedRankingPolicy R)
    (priors : PriorSnapshot) (policyVersion : String)
    : SplitLossSummary R :=
  let totalCases := cases.length
  let positiveCases := cases.countP fun case => case.acceptableSkills ≠ []
  let negativeCases := totalCases - positiveCases
  let nearMissCases := cases.countP fun case => case.nearMiss
  let operationalFailures := cases.countP fun case => case.operationallyUnavailable
  match totalLoss functions policy priors policyVersion cases with
  | none =>
      -- The source has no number for the means here. Nothing compares them.
      {
        totalCases, positiveCases, negativeCases, nearMissCases, operationalFailures
        totalLoss := 0
        meanLoss := 0
        normalizedBoundedLoss := 0
        estimable := false
      }
  | some total =>
      let meanLoss := if 0 < totalCases then (total : R) / totalCases else 0
      {
        totalCases, positiveCases, negativeCases, nearMissCases, operationalFailures
        totalLoss := total
        meanLoss := meanLoss
        normalizedBoundedLoss := meanLoss / 2
        estimable := true
      }

/-- The mean of an estimable split is its total over the number of its cases. -/
theorem evaluateSplit_meanLoss {cases : List (CalibrationCaseInput R)}
    {policy : ManagedRankingPolicy R} {priors : PriorSnapshot} {policyVersion : String}
    (estimable : (evaluateSplit functions cases policy priors policyVersion).estimable = true)
    : (evaluateSplit functions cases policy priors policyVersion).meanLoss
      = ((evaluateSplit functions cases policy priors policyVersion).totalLoss : R)
        / cases.length := by
  cases losses : totalLoss functions policy priors policyVersion cases with
  | none => simp [evaluateSplit, losses] at estimable
  | some total =>
      simp only [evaluateSplit, losses]
      by_cases filled : 0 < cases.length
      · rw [if_pos filled]
      · have empty : cases.length = 0 := by omega
        rw [if_neg filled, empty, Nat.cast_zero, div_zero]

theorem evaluateSplit_operationalFailures (cases : List (CalibrationCaseInput R))
    (policy : ManagedRankingPolicy R) (priors : PriorSnapshot) (policyVersion : String)
    : (evaluateSplit functions cases policy priors policyVersion).operationalFailures
      = cases.countP fun case => case.operationallyUnavailable := by
  unfold evaluateSplit
  cases totalLoss functions policy priors policyVersion cases <;> rfl

end Losses

end SkillRanker.Learning
