import Mathlib.Tactic.NormNum
import SkillRanker.Learning.Priors

/-! The managed ranking policy and the report of a calibration. -/

namespace SkillRanker.Learning

open SkillRanker.Library SkillRanker.Recommendation

variable {R : Type}

def calibrationSchema : String := "sr.calibration.v1"

structure ManagedRankingPolicy (R : Type) where
  gateThreshold : R
  fitThreshold : R
  wFit : R
  wPrior : R
  wPhase : R
  topK : Nat
  shortlistM : Nat
deriving DecidableEq

structure SplitLossSummary (R : Type) where
  totalCases : Nat
  positiveCases : Nat
  negativeCases : Nat
  nearMissCases : Nat
  operationalFailures : Nat
  totalLoss : Nat
  meanLoss : R
  normalizedBoundedLoss : R
  estimable : Bool
deriving DecidableEq

structure CalibrationReport (R : Type) where
  schema : String
  mode : String
  applied : Bool
  promotable : Bool
  revisionId : String
  evaluationDigest : String
  priorAsOfUnixMs : Nat
  baselinePolicy : ManagedRankingPolicy R
  selectedPolicy : ManagedRankingPolicy R
  baselineValidation : SplitLossSummary R
  selectedValidation : SplitLossSummary R
  baselineHoldout : SplitLossSummary R
  selectedHoldout : SplitLossSummary R
  nonEstimableCandidates : Nat
  promotionReason : String
  priorSnapshot : Option SerializedPriorSnapshot
deriving DecidableEq

namespace ManagedRankingPolicy

variable [Field R] [LinearOrder R]

/-- `ManagedRankingPolicy::BASELINE`. -/
def baseline : ManagedRankingPolicy R :=
  {
    gateThreshold := 30 / 100
    fitThreshold := 30 / 100
    wFit := 1
    wPrior := 0
    wPhase := 0
    topK := 5
    shortlistM := 8
  }

variable (policy : ManagedRankingPolicy R)

def validate : Except (LearningError R) Unit := do
  ensure (Within policy.gateThreshold 1)
    (.malformedInput "gate_threshold must be in [0.0, 1.0]")
  ensure (Within policy.fitThreshold 1)
    (.malformedInput "fit_threshold must be in [0.0, 1.0]")
  let _ ← (Weights.new policy.wFit policy.wPrior policy.wPhase).mapError fun _ =>
    .malformedInput "weights out of bounds"
  ensure
    (¬(policy.topK = 0 ∨ policy.shortlistM = 0 ∨ policy.shortlistM < policy.topK
      ∨ maxTopK < policy.shortlistM))
    (.malformedInput "top_k and shortlist_m must satisfy 1 <= top_k <= shortlist_m <= 32")

def managedRanges : List (String × R × R) :=
  [
    ("ranking.gate", policy.gateThreshold, 1),
    ("ranking.fits", policy.fitThreshold, 1),
    ("ranking.w_fit", policy.wFit, 4),
    ("ranking.w_prior", policy.wPrior, 5 / 10),
    ("ranking.w_phase", policy.wPhase, 1)
  ]

/-- `ManagedPolicyMutation::new` on the changes of a policy. -/
def managedPolicyMutation : Except (LearningError R) Unit :=
  let issues := policy.managedRanges.filter fun (_, value, max) => ¬Within value max
  ensure (issues = [])
    (.malformedInput
      ("managed policy mutation rejected: "
        ++ "; ".intercalate
          (issues.map fun (path, _) =>
            "trusted-user: " ++ path ++ ": value is outside its bounds")))

/-- A policy within its bounds. -/
structure Valid : Prop where
  gate : Within policy.gateThreshold 1
  fit : Within policy.fitThreshold 1
  weights : Within policy.wFit wFitMax ∧ Within policy.wPrior wPriorMax
    ∧ Within policy.wPhase wPhaseMax
  sizes : 1 ≤ policy.topK ∧ policy.topK ≤ policy.shortlistM ∧ policy.shortlistM ≤ maxTopK

omit [Field R] [LinearOrder R] in
theorem weights_accepted [Field R] [LinearOrder R] {fit prior phase : R}
    : (∃ weights, Weights.new fit prior phase = .ok weights)
      ↔ Within fit wFitMax ∧ Within prior wPriorMax ∧ Within phase wPhaseMax := by
  unfold Weights.new
  split <;> simp_all

/-- The check accepts exactly the policies within their bounds. -/
theorem validate_eq_ok : policy.validate = .ok () ↔ policy.Valid := by
  simp only [validate, bind_eq_ok, ensure_eq_ok, mapError_eq_ok]
  constructor
  · rintro ⟨_, gate, _, fit, weights, accepted, sizes⟩
    exact ⟨gate, fit, weights_accepted.mp ⟨weights, accepted⟩, by omega⟩
  · rintro ⟨gate, fit, within, sizes⟩
    obtain ⟨weights, accepted⟩ := weights_accepted.mpr within
    exact ⟨(), gate, (), fit, weights, accepted, by omega⟩

theorem managedPolicyMutation_of_valid {policy : ManagedRankingPolicy R} (valid : policy.Valid)
    : policy.managedPolicyMutation = .ok () := by
  have inRange : ∀ entry ∈ policy.managedRanges, Within entry.2.1 entry.2.2 := by
    simpa [managedRanges] using
      ⟨valid.gate, valid.fit, valid.weights.1, valid.weights.2.1, valid.weights.2.2⟩
  have noIssue
      : policy.managedRanges.filter (fun (_, value, max) => ¬Within value max) = [] := by
    apply List.filter_eq_nil_iff.mpr
    intro entry mem
    simpa using inRange entry mem
  simp only [managedPolicyMutation, ensure_eq_ok]
  exact noIssue

theorem baseline_valid [IsStrictOrderedRing R] : (baseline : ManagedRankingPolicy R).Valid := by
  constructor
  · norm_num [baseline, Within]
  · norm_num [baseline, Within]
  · norm_num [baseline, Within, wFitMax, wPriorMax, wPhaseMax]
  · norm_num [baseline, maxTopK]

end ManagedRankingPolicy

end SkillRanker.Learning
