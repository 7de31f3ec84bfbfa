import SkillRanker.Evaluation.Labels
import SkillRanker.Library.Framing
import SkillRanker.Library.Groups
import SkillRanker.Library.Sorting

/-! Stratified samples of families: representatives, strata, allocations, and the frozen manifest of
a draw.
-/

namespace SkillRanker.Evaluation
open SkillRanker.Library

-- Strata

inductive FamilyRepresentativeRule
  | firstByCaseIdReplicate
  | lowestReplicateFirst
deriving DecidableEq, Repr

inductive RetrievalProfile
  | normal
  | overflow
  | unknown
deriving DecidableEq, Repr

inductive InputQuality
  | complete
  | degraded
  | unknown
deriving DecidableEq, Repr

structure ObservableStratum where
  retrieval : RetrievalProfile
  inputQuality : InputQuality
deriving DecidableEq, Repr

namespace ObservableStratum

def classify (case : EvaluationCaseRecord) : ObservableStratum :=
  let retrieval :=
    if case.rosterSkills.isEmpty && case.operationalFailure then .unknown
    else if 254 < case.rosterSkills.length then .overflow
    else .normal
  let inputQuality :=
    match case.promptSummary with
    | some prompt => if prompt.toList.all isWhitespace then .degraded else .complete
    | none =>
        if case.operationalFailure && case.rosterSkills.isEmpty then .unknown else .degraded
  { retrieval, inputQuality }

def retrievalStr (stratum : ObservableStratum) : String :=
  match stratum.retrieval with
  | .normal => "normal"
  | .overflow => "overflow"
  | .unknown => "unknown"

def inputQualityStr (stratum : ObservableStratum) : String :=
  match stratum.inputQuality with
  | .complete => "complete"
  | .degraded => "degraded"
  | .unknown => "unknown"

def key (stratum : ObservableStratum) : String :=
  stratum.retrievalStr ++ ":" ++ stratum.inputQualityStr

end ObservableStratum

def stratumKey (case : EvaluationCaseRecord) : String := (ObservableStratum.classify case).key

-- Representatives

/-- The order in which the cases of a family are considered. -/
def FamilyRepresentativeRule.le (rule : FamilyRepresentativeRule)
    (left right : EvaluationCaseRecord)
    : Bool :=
  let byCase := compare left.key.caseId right.key.caseId
  let byReplicate := compare left.key.replicate right.key.replicate
  match rule with
  | firstByCaseIdReplicate => (byCase.then byReplicate).isLE
  | lowestReplicateFirst => (byReplicate.then byCase).isLE

def checkSplitIsolation (cases : List EvaluationCaseRecord) : Except EvaluationError Unit := do
  let _ ← cases.foldlM
    (fun (known : List (String × EvaluationSplit)) case =>
      match known.lookup case.key.familyId with
      | some existing => do
          ensure (existing = case.split) (.splitContamination
            ("family '" ++ case.key.familyId ++ "' appears in multiple splits: "
              ++ existing.asStr ++ " and " ++ case.split.asStr))
          return known
      | none => return insertEntry case.key.familyId case.split known)
    []

def selectFamilyRepresentatives (cases : List EvaluationCaseRecord) (split : EvaluationSplit)
    (rule : FamilyRepresentativeRule)
    : Except EvaluationError (List EvaluationCaseRecord) := do
  checkSplitIsolation cases
  let familyGroups :=
    groupEntries (fun case : EvaluationCaseRecord => case.key.familyId)
      (cases.filter (·.split = split))
  let representatives := familyGroups.filterMap fun group => (group.2.mergeSort rule.le).head?
  return representatives.mergeSort fun left right =>
    (compare left.key.familyId right.key.familyId).isLE

def partitionStrata (representatives : List EvaluationCaseRecord)
    : List (String × List EvaluationCaseRecord) :=
  (groupEntries stratumKey representatives).map fun group =>
    (group.1, group.2.mergeSort fun left right =>
      (((compare left.key.familyId right.key.familyId).then
        (compare left.key.caseId right.key.caseId)).then
        (compare left.key.replicate right.key.replicate)).isLE)

-- Allocations

inductive AllocationMethod
  | proportional (minFloor : Nat)
  | equalPerStratum (minFloor : Nat)
  | explicit (allocations : List (String × Nat))
deriving DecidableEq, Repr

/-- How much the strata take of a level that none exceeds and that their populations cap. -/
def cappedCount (strataSizes : List (String × Nat)) (level : Nat) : Nat :=
  (strataSizes.map fun stratum => min stratum.2 level).sum

def commonLevel (strataSizes : List (String × Nat)) (target low high : Nat) : Nat :=
  if low < high then
    let gap := high - low
    let mid := low + gap / 2 + gap % 2
    if cappedCount strataSizes mid ≤ target then commonLevel strataSizes target mid high
    else commonLevel strataSizes target low (mid - 1)
  else low
termination_by high - low
decreasing_by all_goals omega

/-- What remains above a level goes to the first strata that have room, one for each. -/
def fillUp (level : Nat) : Nat → List (String × Nat) → List (String × Nat)
  | _, [] => []
  | remaining, (key, population) :: rest =>
      let count := min population level
      if 0 < remaining ∧ count < population then
        (key, count + 1) :: fillUp level (remaining - 1) rest
      else (key, count) :: fillUp level remaining rest

/-- The state of a proportional apportionment: the strata that have their floor, and the others with
what remains for them.
-/
structure Apportionment where
  allocated : List (String × Nat)
  active : List (String × Nat)
  remaining : Nat
  activePopulation : Nat

/-- The proportional quota of a stratum is below its floor. -/
def Apportionment.constrained (floor : Nat) (state : Apportionment) (stratum : String × Nat)
    : Bool :=
  state.remaining * stratum.2 < min floor stratum.2 * state.activePopulation

def Apportionment.fix (floor : Nat) (state : Apportionment) (stratum : String × Nat)
    : Apportionment where
  allocated := insertEntry stratum.1 (min floor stratum.2) state.allocated
  active := removeEntry stratum.1 state.active
  remaining := state.remaining - min floor stratum.2
  activePopulation := state.activePopulation - stratum.2

/-- The strata below their floors get them, until no quota of the others is below. -/
def fixFloors (floor : Nat) : Nat → Apportionment → Apportionment
  | 0, state => state
  | rounds + 1, state =>
      let constrained := state.active.filter (state.constrained floor)
      if constrained.isEmpty then state
      else fixFloors floor rounds (constrained.foldl (·.fix floor) state)

def largestRemainders (state : Apportionment) : List (String × Nat) :=
  let quotas := state.active.map fun stratum =>
    (stratum.1, state.remaining * stratum.2 / state.activePopulation,
      state.remaining * stratum.2 % state.activePopulation)
  let allocated := quotas.foldl (fun allocated quota => insertEntry quota.1 quota.2.1 allocated)
    state.allocated
  let assigned := (quotas.map fun quota => quota.2.1).sum
  let ranked := (quotas.map fun quota => (quota.1, quota.2.2)).mergeSort
    (scoreThenKey Prod.snd Prod.fst)
  (ranked.take (state.remaining - assigned)).foldl
    (fun allocated quota =>
      insertEntry quota.1 ((allocated.lookup quota.1).getD 0 + 1) allocated)
    allocated

def totalPopulation (strataSizes : List (String × Nat)) : Except EvaluationError Nat :=
  strataSizes.foldlM
    (fun sum stratum => require (checkedAdd sum stratum.2)
      (.invalidStratumAllocation "total stratum population overflows usize"))
    0

def allocateExplicitly (strataSizes : List (String × Nat)) (target : Nat)
    (allocations : List (String × Nat))
    : Except EvaluationError (List (String × Nat)) := do
  ensure (allocations.map Prod.fst = strataSizes.map Prod.fst)
    (.invalidStratumAllocation "explicit allocation keys must match represented strata")
  let total ← allocations.foldlM
    (fun total allocation => do
      ensure (allocation.2 ≠ 0 ∧ allocation.2 ≤ (strataSizes.lookup allocation.1).getD 0)
        (.invalidStratumAllocation
          "explicit allocations must be positive and within population")
      require (checkedAdd total allocation.2)
        (.invalidStratumAllocation "total explicit allocation overflows usize"))
    0
  ensure (total = target)
    (.invalidStratumAllocation
      "explicit allocations must sum to the population-capped sample budget")
  return allocations

def checkFloors (strataSizes : List (String × Nat)) (totalSampleSize target floor : Nat)
    : Except EvaluationError Unit :=
  ensure (cappedCount strataSizes floor ≤ target)
    (.insufficientSampleBudgetForStrata totalSampleSize (cappedCount strataSizes floor))

def allocateSampleSizes (strataSizes : List (String × Nat)) (totalSampleSize : Nat)
    (method : AllocationMethod)
    : Except EvaluationError (List (String × Nat)) := do
  ensure (strataSizes ≠ [] ∧ ∀ stratum ∈ strataSizes, stratum.2 ≠ 0)
    (.invalidStratumAllocation "represented strata must have positive populations")
  let population ← totalPopulation strataSizes
  let target := min totalSampleSize population
  match method with
  | .explicit allocations => allocateExplicitly strataSizes target allocations
  | .equalPerStratum minFloor => do
      let floor := max minFloor 1
      checkFloors strataSizes totalSampleSize target floor
      if target = population then return strataSizes
      else
        let largest := (strataSizes.map Prod.snd).foldl max 0
        let level := commonLevel strataSizes target (min floor largest) largest
        return fillUp level (target - cappedCount strataSizes level) strataSizes
  | .proportional minFloor => do
      let floor := max minFloor 1
      checkFloors strataSizes totalSampleSize target floor
      if target = population then return strataSizes
      else
        return largestRemainders (fixFloors floor strataSizes.length
          { allocated := [], active := strataSizes, remaining := target,
            activePopulation := population })

end SkillRanker.Evaluation
