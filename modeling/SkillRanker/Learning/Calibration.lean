import Mathlib.Algebra.Order.Group.Unbundled.Abs
import SkillRanker.Learning.CaseLoss

/-! The offline calibration: from the bytes of an evaluation artifact to a report on the policy
that it selects.
-/

namespace SkillRanker.Learning

open SkillRanker.Library SkillRanker.Recommendation

structure CalibrationArtifact (R : Type) where
  schemaVersion : Nat
  policyVersion : String
  minSplitCases : Nat
  unfinishedCases : Nat
  trainingJudgments : List PriorJudgmentRecord
  candidatePolicies : List (ManagedRankingPolicy R)
  cases : List (CalibrationCaseInput R)
deriving DecidableEq

structure CalibrationFormats (R Value : Type) where
  strictJson : String → Option Value
  decodeArtifact : Value → Except String (CalibrationArtifact R)
  blake3Hex : List UInt8 → String
  policyDigest : ManagedRankingPolicy R → String

section Reading

variable {R Value : Type} (formats : CalibrationFormats R Value)

def readArtifact (bytes : ByteArray) : Except (LearningError R) (CalibrationArtifact R) := do
  ensure (bytes.size ≤ evaluationDatasetBytes)
    (.oversizedInput bytes.size evaluationDatasetBytes)
  let text ← require (String.fromUTF8? bytes)
    (.malformedInput "calibration input is not UTF-8")
  let value ← require (formats.strictJson text)
    (.malformedInput "invalid or duplicate-key JSON")
  (formats.decodeArtifact value).mapError fun message =>
    .malformedInput ("schema decode failed: " ++ message)

def checkFamily (families : List (String × CalibrationSplit)) (case : CalibrationCaseInput R)
    : Except (LearningError R) Unit :=
  match families.lookup case.familyId with
  | none => .ok ()
  | some previous =>
      ensure (previous = case.split)
        (.splitContamination
          ("family " ++ case.familyId ++ " appears in both " ++ previous.debug ++ " and "
            ++ case.split.debug))

/-- The checks of one case after another, with the cases and the families seen before. -/
def checkCases
    : List String → List (String × CalibrationSplit) → List (CalibrationCaseInput R)
      → Except (LearningError R) Unit
  | _, _, [] => .ok ()
  | seenCases, families, case :: rest => do
      ensure (isBlank case.caseId = false ∧ isBlank case.familyId = false)
        (.malformedInput "case_id and family_id must be non-empty")
      ensure (case.caseId ∉ seenCases) (.malformedInput ("duplicate case_id " ++ case.caseId))
      checkFamily families case
      checkCases (case.caseId :: seenCases) ((case.familyId, case.split) :: families) rest

def checkSplit (minSplitCases : Nat) (name : String) (cases : List (CalibrationCaseInput R))
    : Except (LearningError R) Unit := do
  ensure (minSplitCases ≤ cases.length)
    (.insufficientCohort
      (name ++ " split has " ++ toString cases.length ++ " cases, minimum required is "
        ++ toString minSplitCases))
  let positive := cases.countP fun case => case.acceptableSkills ≠ []
  let negative := cases.length - positive
  let nearMisses := cases.countP fun case => case.nearMiss
  ensure (¬(positive = 0 ∨ negative = 0 ∨ nearMisses = 0))
    (.insufficientCohort
      (name ++ " split must include positive (" ++ toString positive ++ "), no-match ("
        ++ toString negative ++ "), and near-miss (" ++ toString nearMisses ++ ") cases"))

namespace CalibrationArtifact

variable (artifact : CalibrationArtifact R)

def inSplit (split : CalibrationSplit) : List (CalibrationCaseInput R) :=
  artifact.cases.filter fun case => case.split = split

def priorAsOfUnixMs : Nat :=
  ((artifact.inSplit .training).map (·.timestampUnixMs)).max?.getD 0

/-- The earliest case outside the training split. -/
def minEvalTs : Nat :=
  ((artifact.inSplit .validation ++ artifact.inSplit .holdout).map (·.timestampUnixMs)).min?.getD 0

def check : Except (LearningError R) Unit := do
  ensure (artifact.schemaVersion = 1)
    (.malformedInput
      ("unsupported calibration schema_version " ++ toString artifact.schemaVersion))
  ensure (artifact.unfinishedCases = 0)
    (.insufficientCohort
      ("evaluation batch has " ++ toString artifact.unfinishedCases
        ++ " unfinished cases; partial batches cannot calibrate a policy"))
  checkCases [] [] artifact.cases
  checkSplit artifact.minSplitCases "training" (artifact.inSplit .training)
  checkSplit artifact.minSplitCases "validation" (artifact.inSplit .validation)
  checkSplit artifact.minSplitCases "holdout" (artifact.inSplit .holdout)
  ensure (artifact.priorAsOfUnixMs < artifact.minEvalTs)
    (.splitContamination
      ("training timestamp cutoff (" ++ toString artifact.priorAsOfUnixMs
        ++ ") must strictly predate validation/holdout (" ++ toString artifact.minEvalTs ++ ")"))

end CalibrationArtifact

end Reading

section Selecting

variable {R : Type} [Field R] [LinearOrder R]

def policyGrid : List (ManagedRankingPolicy R) :=
  [25 / 100, 30 / 100, 35 / 100, 45 / 100].flatMap fun gate =>
    [25 / 100, 30 / 100, 40 / 100, 50 / 100].flatMap fun fit =>
      [0, 25 / 100, 50 / 100].map fun wPrior =>
        {
          gateThreshold := gate
          fitThreshold := fit
          wFit := 1
          wPrior := wPrior
          wPhase := 0
          topK := 5
          shortlistM := 8
        }

def addCandidate (candidates : List (ManagedRankingPolicy R))
    (candidate : ManagedRankingPolicy R)
    : List (ManagedRankingPolicy R) :=
  if candidate ∈ candidates then candidates else candidates ++ [candidate]

def CalibrationArtifact.candidates (artifact : CalibrationArtifact R)
    : Except (LearningError R) (List (ManagedRankingPolicy R)) := do
  let named ← artifact.candidatePolicies.foldlM
    (fun candidates candidate => do
      candidate.validate
      return addCandidate candidates candidate)
    [.baseline]
  return if artifact.candidatePolicies = [] then policyGrid.foldl addCandidate named else named

/-- How much one mean loss must lie below another. -/
def lossSlack : R := 1 / 10 ^ 12

def SplitLossSummary.improves (summary other : SplitLossSummary R) : Bool :=
  decide (summary.meanLoss + lossSlack < other.meanLoss)
  || (decide (|summary.meanLoss - other.meanLoss| ≤ lossSlack)
    && decide (summary.operationalFailures < other.operationalFailures))

structure Selection (R : Type) where
  policy : ManagedRankingPolicy R
  validation : SplitLossSummary R
  nonEstimableCandidates : Nat

def Selection.consider (evaluate : ManagedRankingPolicy R → SplitLossSummary R)
    (selection : Selection R) (candidate : ManagedRankingPolicy R)
    : Selection R :=
  let summary := evaluate candidate
  if summary.estimable = false then
    { selection with nonEstimableCandidates := selection.nonEstimableCandidates + 1 }
  else if summary.improves selection.validation then
    { selection with policy := candidate, validation := summary }
  else selection

def select (evaluate : ManagedRankingPolicy R → SplitLossSummary R)
    (candidates : List (ManagedRankingPolicy R))
    : Selection R :=
  candidates.foldl (Selection.consider evaluate)
    {
      policy := .baseline
      validation := evaluate .baseline
      nonEstimableCandidates := 0
    }

end Selecting

section Running

variable {R Value : Type} [Field R] [LinearOrder R] (formats : CalibrationFormats R Value)
  (functions : LogExp R)

def CalibrationArtifact.evaluate (artifact : CalibrationArtifact R) (priors : PriorSnapshot)
    (split : CalibrationSplit) (policy : ManagedRankingPolicy R)
    : SplitLossSummary R :=
  evaluateSplit functions (artifact.inSplit split) policy priors artifact.policyVersion

def revisionIdOf (evaluationDigest : String) (selected : ManagedRankingPolicy R) : String :=
  let seed := evaluationDigest ++ ":" ++ formats.policyDigest selected
  "pol-" ++ String.ofList ((formats.blake3Hex (utf8 seed)).toList.take 16)

def calibrationReport (bytes : ByteArray) (artifact : CalibrationArtifact R)
    (priors : PriorSnapshot) (selection : Selection R)
    : CalibrationReport R :=
  let onHoldout := artifact.evaluate functions priors .holdout
  let changedFromBaseline := decide (selection.policy ≠ .baseline)
  let holdoutBetter := (onHoldout selection.policy).improves (onHoldout .baseline)
  let evaluationDigest := formats.blake3Hex bytes.data.toList
  {
    schema := calibrationSchema
    mode := "preview"
    applied := false
    promotable := changedFromBaseline && holdoutBetter
    revisionId := revisionIdOf formats evaluationDigest selection.policy
    evaluationDigest := evaluationDigest
    priorAsOfUnixMs := artifact.priorAsOfUnixMs
    baselinePolicy := .baseline
    selectedPolicy := selection.policy
    baselineValidation := artifact.evaluate functions priors .validation .baseline
    selectedValidation := selection.validation
    baselineHoldout := onHoldout .baseline
    selectedHoldout := onHoldout selection.policy
    nonEstimableCandidates := selection.nonEstimableCandidates
    promotionReason :=
      if changedFromBaseline = false then "baseline_retained_on_validation"
      else if holdoutBetter then "held_out_loss_improved_over_baseline"
      else "held_out_benefit_not_demonstrated"
    priorSnapshot := if priors.IsEmpty then none else some priors.toSerialized
  }

def runCalibrationFromBytes (bytes : ByteArray)
    : Except (LearningError R) (CalibrationReport R) := do
  let artifact ← readArtifact formats bytes
  artifact.check
  let priors ← PriorSnapshot.fromJudgments artifact.trainingJudgments artifact.priorAsOfUnixMs
  let onValidation := artifact.evaluate functions priors .validation
  let onHoldout := artifact.evaluate functions priors .holdout
  ensure (onValidation .baseline).estimable
    (.insufficientCohort "baseline policy is not estimable on validation split")
  let candidates ← artifact.candidates
  let selection := select onValidation candidates
  ensure ((onHoldout .baseline).estimable ∧ (onHoldout selection.policy).estimable)
    (.insufficientCohort "selected or baseline policy is not estimable on holdout split")
  return calibrationReport formats functions bytes artifact priors selection

end Running

end SkillRanker.Learning
