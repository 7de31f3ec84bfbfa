import Mathlib.Algebra.Order.Field.Rat
import SkillRanker.Evaluation.Stratified

/-! Frozen manifests of stratified samples: their digests, the draw that freezes one, its
verification against a frame, and its replay.
-/

namespace SkillRanker.Evaluation
open SkillRanker.Library

-- Manifests

inductive RandomizationProvenance
  | osRandom (entropySource : String) (seed : BitVec 64)
  | suppliedManual (seed : BitVec 64)
  | suppliedImported (seed : BitVec 64) (manifestDigest : String)
  | census
deriving DecidableEq

inductive DesignStatus
  | stratifiedProbabilitySample
  | diagnosticFixed
  | fullCensus
deriving DecidableEq, Repr

inductive EstimandWeighting
  | familyWeighted
  | trafficWeighted
deriving DecidableEq, Repr

structure StratumAllocation where
  stratumKey : String
  populationSize : Nat
  sampleSize : Nat
  weight : ℚ
  inclusionProbability : Option ℚ
deriving DecidableEq

structure SampledCaseEntry where
  caseKey : CaseKey
  stratumKey : String
  inclusionProbability : Option ℚ
  sampleOrder : Nat
deriving DecidableEq

structure FrozenSampleManifest where
  schemaVersion : Nat
  manifestId : String
  frameDigest : String
  split : EvaluationSplit
  designStatus : DesignStatus
  randomizationProvenance : RandomizationProvenance
  samplingAlgorithmVersion : String
  estimandWeighting : EstimandWeighting
  representativeRule : FamilyRepresentativeRule
  totalFrameFamilies : Nat
  totalSampledFamilies : Nat
  strata : List (String × StratumAllocation)
  ordered : Ordered strata
  selectedCases : List SampledCaseEntry
  policyId : String
  createdAtUnixMs : Nat

def schemaVersion : Nat := 1

def samplingVersion : String := "sr-evaluation-sampling-v2"

-- Digests

/-- The digest of bytes as a text, and the bits of a number. -/
structure Hashing where
  hexDigest : List UInt8 → String
  toBits : ℚ → Nat

def sizedText (text : String) : List UInt8 := littleEndian 8 (utf8 text).length ++ utf8 text

def caseKeyBytes (key : CaseKey) : List UInt8 :=
  sizedText key.frameId ++ sizedText key.familyId ++ sizedText key.caseId
    ++ littleEndian 4 key.replicate ++ sizedText key.policyId

def CaseKey.le (left right : CaseKey) : Bool :=
  (((((compare left.frameId right.frameId).then (compare left.familyId right.familyId)).then
    (compare left.caseId right.caseId)).then (compare left.replicate right.replicate)).then
    (compare left.policyId right.policyId)).isLE

variable (hashing : Hashing)

def computeFrameDigest (cases : List EvaluationCaseRecord) : String :=
  let sorted := cases.mergeSort fun left right => left.key.le right.key
  hashing.hexDigest
    (utf8 "skillranker:evaluation:frame:v2\n" ++ littleEndian 8 sorted.length
      ++ sorted.flatMap fun case =>
        caseKeyBytes case.key ++ sizedText case.split.asStr
          ++ littleEndian 8 case.rosterSkills.length ++ sizedText (stratumKey case)
          ++ [if case.operationalFailure then 1 else 0])

def DesignStatus.tag : DesignStatus → String
  | stratifiedProbabilitySample => "stratified-probability-sample"
  | diagnosticFixed => "diagnostic-fixed"
  | fullCensus => "full-census"

def RandomizationProvenance.bytes : RandomizationProvenance → List UInt8
  | osRandom entropySource seed =>
      utf8 "os-random\x00" ++ sizedText entropySource ++ littleEndian 8 seed.toNat
  | suppliedManual seed => utf8 "supplied-manual\x00" ++ littleEndian 8 seed.toNat
  | suppliedImported seed manifestDigest =>
      utf8 "supplied-imported\x00" ++ littleEndian 8 seed.toNat ++ sizedText manifestDigest
  | census => utf8 "census\x00"

def EstimandWeighting.tag : EstimandWeighting → String
  | familyWeighted => "family-weighted"
  | trafficWeighted => "traffic-weighted"

def FamilyRepresentativeRule.tag : FamilyRepresentativeRule → String
  | firstByCaseIdReplicate => "first-by-case-id-replicate"
  | lowestReplicateFirst => "lowest-replicate-first"

def probabilityBytes (probability : Option ℚ) : List UInt8 :=
  match probability with
  | some value => 1 :: littleEndian 8 (hashing.toBits value)
  | none => [0]

def FrozenSampleManifest.computeManifestDigest (manifest : FrozenSampleManifest) : String :=
  hashing.hexDigest
    (utf8 "skillranker:sample_manifest:v2\n" ++ littleEndian 8 manifest.schemaVersion
      ++ sizedText manifest.frameDigest ++ sizedText manifest.split.asStr
      ++ sizedText manifest.designStatus.tag ++ manifest.randomizationProvenance.bytes
      ++ sizedText manifest.samplingAlgorithmVersion ++ sizedText manifest.estimandWeighting.tag
      ++ sizedText manifest.representativeRule.tag
      ++ littleEndian 8 manifest.totalFrameFamilies
      ++ littleEndian 8 manifest.totalSampledFamilies ++ sizedText manifest.policyId
      ++ littleEndian 8 manifest.strata.length
      ++ (manifest.strata.flatMap fun stratum =>
        sizedText stratum.1 ++ littleEndian 8 stratum.2.populationSize
          ++ littleEndian 8 stratum.2.sampleSize
          ++ littleEndian 8 (hashing.toBits stratum.2.weight)
          ++ probabilityBytes hashing stratum.2.inclusionProbability)
      ++ littleEndian 8 manifest.selectedCases.length
      ++ manifest.selectedCases.flatMap fun entry =>
        caseKeyBytes entry.caseKey ++ sizedText entry.stratumKey
          ++ probabilityBytes hashing entry.inclusionProbability
          ++ littleEndian 8 entry.sampleOrder)

def manifestIdOf (digest : String) : String := "man-" ++ String.ofList (digest.toList.take 16)

-- The draw

def RandomizationProvenance.seed : RandomizationProvenance → BitVec 64
  | osRandom _ seed => seed
  | suppliedManual seed => seed
  | suppliedImported seed _ => seed
  | census => 0#64

def designStatusOf (isFullCensus : Bool) (provenance : RandomizationProvenance) : DesignStatus :=
  if isFullCensus then .fullCensus
  else
    match provenance with
    | .osRandom _ _ => .stratifiedProbabilitySample
    | _ => .diagnosticFixed

def inclusionProbabilityOf (status : DesignStatus) (sampleSize populationSize : Nat) : Option ℚ :=
  match status with
  | .diagnosticFixed => none
  | _ => some ((sampleSize : ℚ) / (populationSize : ℚ))

/-- The cases of a stratum that are drawn: all, or a choice of the generator. -/
def pickCases (fuel : Nat) (status : DesignStatus) (sampleSize : Nat)
    (cases : List EvaluationCaseRecord)
    : Sampling Pcg64Dxsm (List EvaluationCaseRecord) :=
  if sampleSize = cases.length then return cases
  else if status ≠ .fullCensus then do
    let indices ← choiceIndices (boundedU64 Pcg64Dxsm.nextU64 fuel) cases.length sampleSize false
    return indices.filterMap fun index => cases[index]?
  else return []

def pickStrata (fuel : Nat) (status : DesignStatus) (allocations : List (String × Nat))
    (strata : List (String × List EvaluationCaseRecord))
    : Sampling Pcg64Dxsm (List (String × List EvaluationCaseRecord)) :=
  strata.mapM fun stratum => do
    let picked ← pickCases fuel status ((allocations.lookup stratum.1).getD 0) stratum.2
    return (stratum.1, picked)

def strataOf (status : DesignStatus) (totalFrameFamilies : Nat)
    (allocations : List (String × Nat)) (strata : List (String × List EvaluationCaseRecord))
    : List (String × StratumAllocation) :=
  strata.map fun stratum =>
    let sampleSize := (allocations.lookup stratum.1).getD 0
    (stratum.1, {
      stratumKey := stratum.1
      populationSize := stratum.2.length
      sampleSize := sampleSize
      weight := (stratum.2.length : ℚ) / (totalFrameFamilies : ℚ)
      inclusionProbability := inclusionProbabilityOf status sampleSize stratum.2.length })

def entriesOf (strata : List (String × StratumAllocation))
    (picks : List (String × List EvaluationCaseRecord))
    : List SampledCaseEntry :=
  let cases := picks.flatMap fun pick => pick.2.map fun case => (pick.1, case)
  (cases.zipIdx 1).map fun ((stratumKey, case), sampleOrder) =>
    {
      caseKey := case.key
      stratumKey := stratumKey
      inclusionProbability := (strata.lookup stratumKey).bind (·.inclusionProbability)
      sampleOrder := sampleOrder
    }

theorem groupEntries_map_ordered {Key Item Value : Type} [LinearOrder Key] (key : Item → Key)
    (items : List Item) (wrap : Key × List Item → Value)
    : Ordered ((groupEntries key items).map fun group => (group.1, wrap group)) :=
  List.Pairwise.map _ (fun _ _ below => below) (groupEntries_ordered items)

theorem strataOf_ordered (status : DesignStatus) (totalFrameFamilies : Nat)
    (allocations : List (String × Nat)) (representatives : List EvaluationCaseRecord)
    : Ordered (strataOf status totalFrameFamilies allocations
        (partitionStrata representatives)) :=
  List.Pairwise.map _ (fun _ _ below => below) (groupEntries_map_ordered _ _ _)

/-- `draw_stratified_sample_with_rule`. Where the fuel of a draw does not suffice there is no
result.
-/
def drawStratifiedSampleWithRule (fuel : Nat) (representatives : List EvaluationCaseRecord)
    (split : EvaluationSplit) (totalSampleSize : Nat) (allocationMethod : AllocationMethod)
    (provenance : RandomizationProvenance) (representativeRule : FamilyRepresentativeRule)
    (policyId : String) (createdAtUnixMs : Nat)
    : Option (Except EvaluationError FrozenSampleManifest) :=
  let strataCases := partitionStrata representatives
  let strataSizes := strataCases.map fun stratum => (stratum.1, stratum.2.length)
  let planned : Except EvaluationError (List (String × Nat) × Bool) := do
    ensure (representatives ≠ [])
      (.samplingFailure "cannot sample from an empty representative set")
    let allocations ← allocateSampleSizes strataSizes totalSampleSize allocationMethod
    let isFullCensus := allocations.all fun allocation =>
      strataSizes.lookup allocation.1 = some allocation.2
    ensure (provenance = .census → isFullCensus)
      (.samplingFailure "census provenance requires full census allocation across all strata")
    return (allocations, isFullCensus)
  match planned with
  | .error error => some (.error error)
  | .ok (allocations, isFullCensus) =>
      let designStatus := designStatusOf isFullCensus provenance
      match pickStrata fuel designStatus allocations strataCases
          (Pcg64Dxsm.fromSeed provenance.seed) with
      | none => none
      | some (.error error, _) => some (.error (.choiceFailure error))
      | some (.ok picks, _) =>
          let strata := strataOf designStatus representatives.length allocations strataCases
          let selectedCases := entriesOf strata picks
          let manifest : FrozenSampleManifest := {
            schemaVersion := schemaVersion
            manifestId := ""
            frameDigest := computeFrameDigest hashing representatives
            split := split
            designStatus := designStatus
            randomizationProvenance := provenance
            samplingAlgorithmVersion := samplingVersion
            estimandWeighting := .familyWeighted
            representativeRule := representativeRule
            totalFrameFamilies := representatives.length
            totalSampledFamilies := selectedCases.length
            strata := strata
            ordered := strataOf_ordered _ _ _ _
            selectedCases := selectedCases
            policyId := policyId
            createdAtUnixMs := createdAtUnixMs }
          some (.ok { manifest with
            manifestId := manifestIdOf (manifest.computeManifestDigest hashing) })

-- Verification

def tolerance : ℚ := 1 / 1000000000000

def verifyStratum (designStatus : DesignStatus) (families : Nat)
    (actualStrata : List (String × List EvaluationCaseRecord))
    (stratum : String × StratumAllocation)
    : Except ManifestFailure Unit := do
  let (key, alloc) := stratum
  ensure (alloc.stratumKey = key) .stratumIdentity
  let actualCases ← require (actualStrata.lookup key) (.absentStratum key)
  ensure (alloc.populationSize = actualCases.length)
    (.populationSize key alloc.populationSize actualCases.length)
  ensure (alloc.sampleSize ≠ 0) .emptySample
  ensure (alloc.sampleSize ≤ alloc.populationSize)
    (.oversizedSample key alloc.sampleSize alloc.populationSize)
  ensure (|alloc.weight - (actualCases.length : ℚ) / (families : ℚ)| ≤ tolerance) .weight
  match designStatus with
  | .diagnosticFixed => ensure (alloc.inclusionProbability = none) (.diagnosticProbability key)
  | _ => do
      let declared ← require alloc.inclusionProbability (.missingProbability key)
      let expected := (alloc.sampleSize : ℚ) / (alloc.populationSize : ℚ)
      ensure (0 ≤ declared ∧ declared ≤ 1 ∧ |declared - expected| ≤ tolerance)
        (.probabilityMismatch key declared expected)

abbrev EntryCounts := List String × (String → Nat)

def verifyEntry (manifest : FrozenSampleManifest) (representatives : List EvaluationCaseRecord)
    (state : EntryCounts) (indexed : SampledCaseEntry × Nat)
    : Except ManifestFailure EntryCounts := do
  let (entry, index) := indexed
  let (seenFamilies, counts) := state
  ensure (entry.sampleOrder = index + 1) .sampleOrder
  let family := entry.caseKey.familyId
  ensure (family ∉ seenFamilies) (.duplicateFamily family)
  let case ← require (representatives.find? fun case => case.key.familyId = family)
    (.absentFamily family)
  ensure (entry.caseKey = case.key) (.caseKey entry.caseKey case.key)
  ensure (stratumKey case = entry.stratumKey)
    (.caseStratum entry.caseKey entry.stratumKey (stratumKey case))
  let stratumAlloc ← require (manifest.strata.lookup entry.stratumKey)
    (.unknownStratum entry.stratumKey)
  match manifest.designStatus with
  | .diagnosticFixed =>
      ensure (entry.inclusionProbability = none) (.diagnosticEntry entry.caseKey)
  | _ => do
      let declared ← require entry.inclusionProbability (.missingEntryProbability entry.caseKey)
      ensure (0 ≤ declared ∧ declared ≤ 1
        ∧ some declared = stratumAlloc.inclusionProbability)
        (.entryProbabilityMismatch entry.caseKey declared stratumAlloc.inclusionProbability)
  return (family :: seenFamilies,
    fun key => if key = entry.stratumKey then counts key + 1 else counts key)

/-- The checks of a manifest against the representatives of its frame. -/
def verifyContents (manifest : FrozenSampleManifest) (reps : List EvaluationCaseRecord)
    : Except ManifestFailure Unit := do
  ensure (manifest.totalFrameFamilies = reps.length)
    (.familyCount manifest.totalFrameFamilies reps.length)
  ensure (manifest.totalSampledFamilies = manifest.selectedCases.length)
    (.sampledCount manifest.totalSampledFamilies manifest.selectedCases.length)
  let actualStrata := partitionStrata reps
  ensure (manifest.strata.length = actualStrata.length)
    (.strataCount manifest.strata.length actualStrata.length)
  manifest.strata.forM (verifyStratum manifest.designStatus reps.length actualStrata)
  let (_, counts) ← manifest.selectedCases.zipIdx.foldlM (verifyEntry manifest reps)
    ([], fun _ => 0)
  manifest.strata.forM fun stratum =>
    ensure (counts stratum.1 = stratum.2.sampleSize)
      (.stratumCount stratum.1 stratum.2.sampleSize (counts stratum.1))
  ensure (manifest.designStatus = .fullCensus
    → manifest.totalSampledFamilies = manifest.totalFrameFamilies)
    (.censusCount manifest.totalSampledFamilies manifest.totalFrameFamilies)
  ensure (manifest.randomizationProvenance = .census → manifest.designStatus = .fullCensus)
    .censusProvenance

def RandomizationProvenance.isOsRandom : RandomizationProvenance → Bool
  | osRandom _ _ => true
  | _ => false

def verifyManifest (manifest : FrozenSampleManifest) : Except ManifestFailure Unit := do
  ensure (manifest.schemaVersion = schemaVersion) .schemaVersion
  ensure (manifest.estimandWeighting = .familyWeighted) .estimandWeighting
  ensure (manifest.designStatus = .stratifiedProbabilitySample
    → manifest.randomizationProvenance.isOsRandom) .unprovenRandomness
  ensure (manifest.samplingAlgorithmVersion = samplingVersion)
    (.algorithmVersion manifest.samplingAlgorithmVersion)
  let expectedId := manifestIdOf (manifest.computeManifestDigest hashing)
  ensure (manifest.manifestId = expectedId) (.manifestId expectedId manifest.manifestId)

def verifyManifestAgainstFrame (manifest : FrozenSampleManifest)
    (cases : List EvaluationCaseRecord)
    : Except EvaluationError Unit := do
  (verifyManifest hashing manifest).mapError .manifestVerificationFailure
  let reps ← selectFamilyRepresentatives cases manifest.split manifest.representativeRule
  ensure (reps ≠ []) (.manifestVerificationFailure .emptyFrame)
  ensure (computeFrameDigest hashing reps = manifest.frameDigest)
    (.frameDigestMismatch manifest.frameDigest (computeFrameDigest hashing reps))
  (verifyContents manifest reps).mapError .manifestVerificationFailure

def replayManifestSample (manifest : FrozenSampleManifest) (cases : List EvaluationCaseRecord)
    : Except EvaluationError (List EvaluationCaseRecord) := do
  verifyManifestAgainstFrame hashing manifest cases
  let reps ← selectFamilyRepresentatives cases manifest.split manifest.representativeRule
  manifest.selectedCases.mapM fun entry =>
    require (reps.find? fun case => case.key = entry.caseKey)
      (.manifestVerificationFailure (.lostCase entry.caseKey))

end SkillRanker.Evaluation
