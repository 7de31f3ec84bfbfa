import SkillRanker.Learning.CaseLoss
import SkillRanker.Learning.Monitor
import SkillRanker.Recommendation.Partition

/-! The decision that production takes on the evidence of a case, and when its loss is the loss
that a calibration counts.
-/

namespace SkillRanker.Learning

open SkillRanker.Context SkillRanker.Library SkillRanker.Recommendation SkillRanker.Roster
open Std (TreeMap)

variable {priors : PriorSnapshot} {policyVersion : String} {phaseMatch : SkillId → ℝ}

/-- How a recommendation ends. -/
inductive Decision
  | unavailable
  | abstain
  | recommend (skillId : SkillId)
deriving DecidableEq, Repr

def decisionLoss (acceptableSkills : List String) : Decision → Nat
  | .unavailable => 2
  | .abstain => if acceptableSkills = [] then 0 else 1
  | .recommend skillId => if skillId ∈ acceptableSkills then 0 else 2

structure RerankEvidence (R : Type) where
  shortlist : List AdvisorySkill
  estimates : TreeMap SkillId (Estimate R) compare
  noneProbability : R
  excluded : List SkillId
  loaded : LoadedState

section Production

variable {R : Type} [Field R] [LinearOrder R] (functions : LogExp R)

def activePriors (policy : ManagedRankingPolicy R) (priors : PriorSnapshot)
    : Option PriorSnapshot :=
  if policy.wPrior ≤ 0 then none else some priors

def scoringInput (priors : Option PriorSnapshot) (entry : Eligible R) : Input R :=
  {
    id := entry.skill.binding.id
    rerank := entry.rerank
    fit := entry.fit
    priorDelta :=
      match priors with
      | none => 0
      | some priors =>
          priors.priorDelta functions entry.skill.binding.id entry.skill.record.sourceContent
            "v1" none
    phaseMatch := 0
  }

def recommendTop (policy : ManagedRankingPolicy R) (priors : PriorSnapshot)
    (eligible : List (Eligible R)) (top : Nat)
    : Decision :=
  match Weights.new policy.wFit policy.wPrior policy.wPhase with
  | .error _ => .unavailable
  | .ok weights =>
      let inputs := eligible.map (scoringInput functions (activePriors policy priors))
      match rank functions inputs weights top with
      | .error _ => .unavailable
      | .ok ranking =>
          match ranking.returned.head?.bind fun scored => eligible[scored.index]? with
          | none => .unavailable
          | some entry => .recommend entry.skill.binding.id

/-- The wide gate, the eligibility after the rerank, and the top of the ranking. -/
def productionDecision (policy : ManagedRankingPolicy R) (priors : PriorSnapshot)
    (needsSkill : R) (evidence : RerankEvidence R)
    : Decision :=
  if needsSkill < policy.gateThreshold then .abstain
  else
    match afterRerank evidence.shortlist evidence.estimates evidence.noneProbability
        policy.fitThreshold evidence.excluded evidence.loaded with
    | none => .unavailable
    | some evaluation =>
        match evaluation.verdict with
        | some (.unavailable _) => .unavailable
        | some (.abstain _) => .abstain
        | none =>
            recommendTop functions policy priors evaluation.eligible
              (min policy.topK evidence.shortlist.length)

/-- The case gets past the gate of the policy. -/
def Reranked (case : CalibrationCaseInput R) (policy : ManagedRankingPolicy R) : Prop :=
  case.operationallyUnavailable = false ∧ policy.gateThreshold ≤ case.needsSkillGate

instance (case : CalibrationCaseInput R) (policy : ManagedRankingPolicy R)
    : Decidable (Reranked case policy) :=
  inferInstanceAs (Decidable (_ ∧ _))

/-- The decision on a case, or none where production would need a rerank that was not recorded.
-/
def caseDecision (case : CalibrationCaseInput R) (policy : ManagedRankingPolicy R)
    (priors : PriorSnapshot) (evidence : RerankEvidence R)
    : Option Decision :=
  if case.operationallyUnavailable then some .unavailable
  else if Reranked case policy ∧ case.stage2Present = false then none
  else some (productionDecision functions policy priors case.needsSkillGate evidence)

structure RecordedAs (evidence : RerankEvidence R) (skill : AdvisorySkill)
    (candidate : CalibrationCandidateInput R)
    : Prop where
  skillId : skill.binding.id = candidate.skillId
  contentHash : skill.record.sourceContent = candidate.contentHash
  eligible
    : candidate.eligible = true
      ↔ policyStop evidence.excluded skill = none ∧ loadedStop evidence.loaded skill = none
  estimate
    : evidence.estimates[skill.binding.id]?
      = some { fit := candidate.fit, rerank := candidate.rerankProbability }

structure Records (case : CalibrationCaseInput R) (evidence : RerankEvidence R) : Prop where
  candidates : List.Forall₂ (RecordedAs evidence) evidence.shortlist case.candidates
  estimated : ∀ id ∈ evidence.estimates, id ∈ evidence.shortlist.map (·.binding.id)
  none : evidence.noneProbability = case.noneProbability

/-- The case has a candidate, and what survives of its candidates is scored as production scores
it: from estimates within their range, with the pooled prior, and with no phase.
-/
structure ScoredAlike (case : CalibrationCaseInput R) (policy : ManagedRankingPolicy R)
    (priors : PriorSnapshot) (policyVersion : String)
    : Prop where
  filled : case.candidates ≠ []
  within
    : ∀ candidate ∈ case.candidates,
        candidate.survives case policy = true
        → Within candidate.rerankProbability 1 ∧ Within candidate.fit 1
  prior
    : ∀ candidate ∈ case.candidates,
        candidate.survives case policy = true
        → 0 < policy.wPrior
        → priors.priorDelta functions candidate.skillId candidate.contentHash policyVersion
              case.phase
            = priors.priorDelta functions candidate.skillId candidate.contentHash "v1" none
  phase
    : ∀ candidate ∈ case.candidates,
        candidate.survives case policy = true
        → policy.wPhase * clamp candidate.phaseMatch 0 1 = 0

-- Survivors are what is eligible

structure SameCandidate (entry : Eligible R) (candidate : CalibrationCandidateInput R) : Prop where
  skillId : entry.skill.binding.id = candidate.skillId
  contentHash : entry.skill.record.sourceContent = candidate.contentHash
  fit : entry.fit = candidate.fit
  rerank : entry.rerank = candidate.rerankProbability

variable {case : CalibrationCaseInput R} {policy : ManagedRankingPolicy R}
  {evidence : RerankEvidence R}

omit [Field R] [LinearOrder R] in
/-- Every skill of a shortlist has its record, by induction on the pairing. -/
theorem exists_record {skills : List AdvisorySkill}
    {candidates : List (CalibrationCandidateInput R)}
    (paired : List.Forall₂ (RecordedAs evidence) skills candidates) {skill : AdvisorySkill}
    (mem : skill ∈ skills)
    : ∃ candidate ∈ candidates, RecordedAs evidence skill candidate := by
  induction paired with
  | nil => cases mem
  | cons same _ ih =>
      rcases List.mem_cons.mp mem with rfl | mem
      · exact ⟨_, List.mem_cons_self, same⟩
      · obtain ⟨candidate, listed, recorded⟩ := ih mem
        exact ⟨candidate, List.mem_cons_of_mem _ listed, recorded⟩

omit [Field R] [LinearOrder R] in
/-- Every candidate is the record of a skill, by induction on the pairing. -/
theorem exists_recorded {skills : List AdvisorySkill}
    {candidates : List (CalibrationCandidateInput R)}
    (paired : List.Forall₂ (RecordedAs evidence) skills candidates)
    {candidate : CalibrationCandidateInput R} (mem : candidate ∈ candidates)
    : ∃ skill ∈ skills, RecordedAs evidence skill candidate := by
  induction paired with
  | nil => cases mem
  | cons same _ ih =>
      rcases List.mem_cons.mp mem with rfl | mem
      · exact ⟨_, List.mem_cons_self, same⟩
      · obtain ⟨skill, listed, recorded⟩ := ih mem
        exact ⟨skill, List.mem_cons_of_mem _ listed, recorded⟩

omit [Field R] [LinearOrder R] in
theorem Records.ids (records : Records case evidence)
    : evidence.shortlist.map (·.binding.id) = case.candidates.map (·.skillId) := by
  rw [← List.forall₂_eq_eq_eq, List.forall₂_map_left_iff, List.forall₂_map_right_iff]
  exact records.candidates.imp fun _ _ recorded => recorded.skillId

omit [Field R] [LinearOrder R] in
/-- The estimates of a record with a candidate are those of the shortlist. -/
theorem Records.matches (records : Records case evidence) (filled : case.candidates ≠ [])
    (distinct : (case.candidates.map (·.skillId)).Nodup)
    : Matches evidence.shortlist evidence.estimates where
  filled := by
    intro none
    have ids := records.ids
    rw [none, List.map_nil] at ids
    exact filled (List.map_eq_nil_iff.mp ids.symm)
  distinct := records.ids ▸ distinct
  members := by
    intro id
    refine ⟨records.estimated id, ?_⟩
    intro mem
    obtain ⟨skill, listed, rfl⟩ := List.mem_map.mp mem
    obtain ⟨candidate, _, recorded⟩ := exists_record records.candidates listed
    rw [TreeMap.mem_iff_isSome_getElem?, recorded.estimate]
    rfl

omit [Field R] in
/-- A recorded candidate survives exactly when its skill passes every stage. -/
theorem survives_iff (records : Records case evidence) {skill : AdvisorySkill}
    {candidate : CalibrationCandidateInput R} (recorded : RecordedAs evidence skill candidate)
    : candidate.survives case policy = true
      ↔ firstRefusal evidence.estimates evidence.noneProbability policy.fitThreshold
          evidence.excluded evidence.loaded skill
        = none := by
  rw [firstRefusal_eq]
  have stages := recorded.eligible
  simp only [CalibrationCandidateInput.survives, Bool.and_eq_true, stages, fitRefusal,
    noneRefusal, recorded.estimate, Option.any_some, Option.or_eq_none_iff,
    Bool.not_eq_true', decide_eq_false_iff_not, not_le, not_lt, records.none,
    decide_eq_true_eq]
  constructor
  · rintro ⟨⟨⟨policy, loaded⟩, above⟩, fits⟩
    exact ⟨policy, loaded, if_pos fits, if_pos above⟩
  · rintro ⟨policy, loaded, fits, above⟩
    refine ⟨⟨⟨policy, loaded⟩, ?_⟩, ?_⟩
    · by_contra below
      rw [if_neg below] at above
      cases above
    · by_contra below
      rw [if_neg below] at fits
      cases fits

omit [Field R] in
theorem eligible_candidates (records : Records case evidence) {evaluation : Evaluation R}
    (partitioned
      : Partitioned evidence.shortlist evidence.estimates evidence.noneProbability
          policy.fitThreshold evidence.excluded evidence.loaded evaluation)
    : (∀ entry ∈ evaluation.eligible,
          ∃ candidate ∈ case.candidates,
            candidate.survives case policy = true ∧ SameCandidate entry candidate)
      ∧ ∀ candidate ∈ case.candidates,
          candidate.survives case policy = true
          → ∃ entry ∈ evaluation.eligible, SameCandidate entry candidate := by
  have passes {skill : AdvisorySkill} {candidate : CalibrationCandidateInput R}
      (recorded : RecordedAs evidence skill candidate)
      : candidate.survives case policy = true ↔ _ :=
    (survives_iff records recorded).trans (firstRefusal_eq_none recorded.estimate)
  constructor
  · intro entry mem
    obtain ⟨listed, conditions⟩ := (partitioned.eligible entry.skill).mp ⟨entry, mem, rfl⟩
    obtain ⟨candidate, inCase, recorded⟩ := exists_record records.candidates listed
    refine ⟨candidate, inCase, (passes recorded).mpr conditions, recorded.skillId,
      recorded.contentHash, ?_, ?_⟩
    · have known := partitioned.estimated entry mem
      rw [recorded.estimate] at known
      exact (congrArg Estimate.fit (Option.some.inj known)).symm
    · have known := partitioned.estimated entry mem
      rw [recorded.estimate] at known
      exact (congrArg Estimate.rerank (Option.some.inj known)).symm
  · intro candidate mem survives
    obtain ⟨skill, listed, recorded⟩ := exists_recorded records.candidates mem
    obtain ⟨entry, inEligible, rfl⟩ :=
      (partitioned.eligible skill).mpr ⟨listed, (passes recorded).mp survives⟩
    have known := partitioned.estimated entry inEligible
    rw [recorded.estimate] at known
    exact ⟨entry, inEligible, recorded.skillId, recorded.contentHash,
      (congrArg Estimate.fit (Option.some.inj known)).symm,
      (congrArg Estimate.rerank (Option.some.inj known)).symm⟩

-- The best survivor is the top of the ranking

variable {functions}
variable {eligible : List (Eligible R)}

/-- The top of the ranking is an eligible candidate that is preferred to every other. -/
theorem recommendTop_eq [IsStrictOrderedRing R] (increasing : StrictMono functions.exp)
    (positive : ∀ x, 0 < functions.exp x) (valid : policy.Valid) (priors : PriorSnapshot)
    {top : Nat} (filled : eligible ≠ []) (sizes : 1 ≤ top ∧ top ≤ maxTopK)
    (within : ∀ entry ∈ eligible, Within entry.rerank 1 ∧ Within entry.fit 1)
    (distinct : (eligible.map (·.skill.binding.id)).Nodup)
    : ∃ weights entry,
        (weights.fit = policy.wFit ∧ weights.prior = policy.wPrior)
        ∧ entry ∈ eligible
        ∧ recommendTop functions policy priors eligible top = .recommend entry.skill.binding.id
        ∧ ∀ other ∈ eligible,
            Preferred functions weights
              (scoringInput functions (activePriors policy priors) entry)
              (scoringInput functions (activePriors policy priors) other) := by
  let inputs := eligible.map (scoringInput functions (activePriors policy priors))
  have accepted : Weights.new policy.wFit policy.wPrior policy.wPhase
      = .ok ⟨policy.wFit, policy.wPrior, policy.wPhase, valid.weights⟩ := dif_pos valid.weights
  have validated : validate inputs top = .ok () := by
    have some : inputs ≠ [] := fun none => filled (List.map_eq_nil_iff.mp none)
    rw [validate, ensure_bind some, ensure_bind sizes]
    apply validateInputs_eq_ok
    · intro input mem
      obtain ⟨entry, listed, rfl⟩ := List.mem_map.mp mem
      exact ⟨within entry listed, le_refl 0, zero_le_one⟩
    · rw [List.map_map]
      exact distinct
    · exact fun _ _ => List.not_mem_nil
  have ranked : ∃ ranking,
      rank functions inputs ⟨policy.wFit, policy.wPrior, policy.wPhase, valid.weights⟩ top
        = .ok ranking := by
    simp only [rank, validated]
    exact ⟨_, rfl⟩
  obtain ⟨ranking, ranked⟩ := ranked
  obtain ⟨first, rest, input, returned, found, preferred⟩ := rank_top increasing positive ranked
  obtain ⟨entry, place, rfl⟩ : ∃ entry,
      eligible[first.index]? = some entry
      ∧ scoringInput functions (activePriors policy priors) entry = input := by
    rw [List.getElem?_map] at found
    exact Option.map_eq_some_iff.mp found
  refine ⟨⟨policy.wFit, policy.wPrior, policy.wPhase, valid.weights⟩, entry, ⟨rfl, rfl⟩,
    List.mem_of_getElem? place, ?_, ?_⟩
  · have ran : rank functions (eligible.map (scoringInput functions (activePriors policy priors)))
        ⟨policy.wFit, policy.wPrior, policy.wPhase, valid.weights⟩ top = .ok ranking := ranked
    simp only [recommendTop, accepted, ran, returned, List.head?_cons, Option.bind_some, place]
  · intro other mem
    exact preferred _ (List.mem_map_of_mem mem)

theorem utility_eq_logit (alike : ScoredAlike functions case policy priors policyVersion)
    {weights : Weights R} (same : weights.fit = policy.wFit ∧ weights.prior = policy.wPrior)
    {entry : Eligible R} {candidate : CalibrationCandidateInput R}
    (mem : candidate ∈ case.candidates) (survives : candidate.survives case policy = true)
    (recorded : SameCandidate entry candidate)
    : utility functions (scoringInput functions (activePriors policy priors) entry) weights
      = candidate.logit functions case policy priors policyVersion := by
  have phase := alike.phase candidate mem survives
  unfold utility CalibrationCandidateInput.logit scoringInput activePriors clip
  dsimp only
  rw [same.1, same.2, recorded.fit, recorded.rerank, recorded.skillId, recorded.contentHash,
    phase, mul_zero]
  by_cases weighted : 0 < policy.wPrior
  · rw [if_neg (not_le.mpr weighted), if_pos weighted,
      alike.prior candidate mem survives weighted]
  · rw [if_pos (not_lt.mp weighted), if_neg weighted]

/-- Production abstains where no candidate survives. -/
theorem productionDecision_of_none {evaluation : Evaluation R}
    (passes : policy.gateThreshold ≤ case.needsSkillGate)
    (ran
      : afterRerank evidence.shortlist evidence.estimates evidence.noneProbability
          policy.fitThreshold evidence.excluded evidence.loaded
        = some evaluation)
    (partitioned
      : Partitioned evidence.shortlist evidence.estimates evidence.noneProbability
          policy.fitThreshold evidence.excluded evidence.loaded evaluation)
    (none : evaluation.eligible = [])
    : productionDecision functions policy priors case.needsSkillGate evidence = .abstain := by
  obtain ⟨verdict, decided⟩ := Option.isSome_iff_exists.mp (partitioned.decided.mpr none)
  obtain ⟨reason, rfl⟩ :=
    documentedVerdict_abstains (partitioned.verdict.symm.trans decided)
  simp only [productionDecision, if_neg (not_lt.mpr passes), ran, decided]

theorem best_eq (alike : ScoredAlike functions case policy priors policyVersion)
    (entries
      : ∀ entry ∈ eligible,
          ∃ candidate ∈ case.candidates,
            candidate.survives case policy = true ∧ SameCandidate entry candidate)
    (survivors
      : ∀ candidate ∈ case.candidates,
          candidate.survives case policy = true
          → ∃ entry ∈ eligible, SameCandidate entry candidate)
    {weights : Weights R} (same : weights.fit = policy.wFit ∧ weights.prior = policy.wPrior)
    {entry : Eligible R} (listed : entry ∈ eligible)
    (preferred
      : ∀ other ∈ eligible,
          Preferred functions weights
            (scoringInput functions (activePriors policy priors) entry)
            (scoringInput functions (activePriors policy priors) other))
    {top : CalibrationCandidateInput R × R} {rest : List (CalibrationCandidateInput R × R)}
    (ranked : survivorsRanked functions case policy priors policyVersion = top :: rest)
    : top.1.skillId = entry.skill.binding.id := by
  obtain ⟨inSurvivors, best⟩ :=
    head_mergeSort (scoreThenKey_trans _ _) (scoreThenKey_total _ _) ranked
  obtain ⟨candidate, mem, survives, recorded⟩ := entries entry listed
  obtain ⟨chosen, kept, rfl⟩ := List.mem_map.mp inSurvivors
  obtain ⟨inCase, survives'⟩ := List.mem_filter.mp kept
  obtain ⟨other, listed', recorded'⟩ := survivors chosen inCase survives'
  have before := scoreThenKey_iff.mp
    (best (candidate, candidate.logit functions case policy priors policyVersion)
      (List.mem_map.mpr ⟨candidate, List.mem_filter.mpr ⟨mem, survives⟩, rfl⟩))
  have after := preferred other listed'
  unfold Preferred at after
  rw [utility_eq_logit alike same mem survives recorded,
    utility_eq_logit alike same inCase survives' recorded'] at after
  dsimp only at before
  have ids : entry.skill.binding.id ≤ chosen.skillId ∧ chosen.skillId ≤ entry.skill.binding.id := by
    rcases after with above | ⟨equal, first⟩
    · rcases before with above' | ⟨equal', _⟩
      · exact absurd (lt_trans above above') (lt_irrefl _)
      · exact absurd (equal' ▸ above) (lt_irrefl _)
    · rcases before with above' | ⟨_, first'⟩
      · exact absurd (equal ▸ above') (lt_irrefl _)
      · have first : entry.skill.binding.id ≤ other.skill.binding.id := first
        exact ⟨recorded'.skillId ▸ first, recorded.skillId ▸ first'⟩
  exact le_antisymm ids.2 ids.1

/-- Past the gate, the loss of a case with its rerank is that of production's decision. -/
theorem survivorLoss_eq [IsStrictOrderedRing R] (increasing : StrictMono functions.exp)
    (positive : ∀ x, 0 < functions.exp x) (valid : policy.Valid)
    (distinct : (case.candidates.map (·.skillId)).Nodup) (records : Records case evidence)
    (alike : ScoredAlike functions case policy priors policyVersion)
    (passes : policy.gateThreshold ≤ case.needsSkillGate)
    : survivorLoss functions case policy priors policyVersion
      = decisionLoss case.acceptableSkills
          (productionDecision functions policy priors case.needsSkillGate evidence) := by
  have same := records.matches alike.filled distinct
  obtain ⟨evaluation, ran, partitioned⟩ :=
    afterRerank_partitioned same evidence.noneProbability policy.fitThreshold evidence.excluded
      evidence.loaded
  obtain ⟨entries, survivors⟩ := eligible_candidates records partitioned
  by_cases none : evaluation.eligible = []
  · have noSurvivor : case.candidates.filter (·.survives case policy) = [] := by
      apply List.filter_eq_nil_iff.mpr
      intro candidate mem survives
      obtain ⟨entry, listed, _⟩ := survivors candidate mem survives
      rw [none] at listed
      cases listed
    rw [productionDecision_of_none passes ran partitioned none]
    simp [survivorLoss, survivorsRanked, noSurvivor, decisionLoss, abstentionLoss]
  · have decided : evaluation.verdict = Option.none := by
      rw [← Option.not_isSome_iff_eq_none, partitioned.decided]
      exact none
    have ids : (evaluation.eligible.map (·.skill.binding.id)).Nodup :=
      (List.nodup_append.mp (partitioned.placed.nodup_iff.mpr same.distinct)).1
    have length : 1 ≤ evidence.shortlist.length := List.length_pos_iff.mpr same.filled
    have sizes : 1 ≤ min policy.topK evidence.shortlist.length
        ∧ min policy.topK evidence.shortlist.length ≤ maxTopK := by
      have bounds := valid.sizes
      omega
    have within : ∀ entry ∈ evaluation.eligible, Within entry.rerank 1 ∧ Within entry.fit 1 := by
      intro entry mem
      obtain ⟨candidate, inCase, survives, recorded⟩ := entries entry mem
      rw [recorded.rerank, recorded.fit]
      exact alike.within candidate inCase survives
    obtain ⟨weights, entry, sameWeights, listed, recommended, preferred⟩ :=
      recommendTop_eq increasing positive valid priors none sizes within ids
    have decision
        : productionDecision functions policy priors case.needsSkillGate evidence
          = .recommend entry.skill.binding.id := by
      simp only [productionDecision, if_neg (not_lt.mpr passes), ran, decided]
      exact recommended
    rw [decision]
    cases ranked : survivorsRanked functions case policy priors policyVersion with
    | nil =>
        obtain ⟨candidate, mem, survives, _⟩ := entries entry listed
        have kept : candidate ∈ case.candidates.filter (·.survives case policy) :=
          List.mem_filter.mpr ⟨mem, survives⟩
        have some := congrArg List.length ranked
        simp only [survivorsRanked, List.length_mergeSort, List.length_map, List.length_nil,
          List.length_eq_zero_iff] at some
        rw [some] at kept
        cases kept
    | cons top rest =>
        have id := best_eq alike entries survivors sameWeights listed preferred ranked
        simp [survivorLoss, ranked, decisionLoss, id]

end Production

/-- The loss of a case is the loss of the decision that production takes on its evidence: at the
wide gate, by eligibility after the rerank, and by the top of the ranking. A case that gets past
the gate is to have candidates, and to be scored as production scores.
-/
theorem evaluateCaseLoss_eq_production (case : CalibrationCaseInput ℝ)
    (policy : ManagedRankingPolicy ℝ) (priors : PriorSnapshot) (policyVersion : String)
    (evidence : RerankEvidence ℝ) (distinct : (case.candidates.map (·.skillId)).Nodup)
    (valid : policy.Valid) (records : Records case evidence)
    (alike
      : Reranked case policy
        → case.stage2Present = true
        → ScoredAlike .real case policy priors policyVersion)
    : evaluateCaseLoss .real case policy priors policyVersion
      = (caseDecision .real case policy priors evidence).map
          (decisionLoss case.acceptableSkills) := by
  unfold evaluateCaseLoss caseDecision
  by_cases failed : case.operationallyUnavailable = true
  · rw [if_pos failed, if_pos failed]
    rfl
  · rw [if_neg failed, if_neg failed]
    by_cases passes : policy.gateThreshold ≤ case.needsSkillGate
    · have reranked : Reranked case policy := ⟨Bool.not_eq_true _ ▸ failed, passes⟩
      rw [if_neg (not_not.mpr passes)]
      by_cases recorded : case.stage2Present = true
      · have present : ¬case.stage2Present = false := by simp [recorded]
        rw [if_neg present, if_neg fun missing => present missing.2, Option.map_some,
          survivorLoss_eq Real.exp_strictMono Real.exp_pos valid distinct records
            (alike reranked recorded) passes]
      · have missing : case.stage2Present = false := by simpa using recorded
        rw [if_pos missing, if_pos ⟨reranked, missing⟩]
        rfl
    · rw [if_pos passes, if_neg fun reached => passes reached.1.2, Option.map_some,
        productionDecision, if_pos (not_le.mp passes)]
      rfl

-- Cases that are scored otherwise

def plainCandidate (estimate : Estimate ℝ) (phaseMatch : SkillId → ℝ) (id : SkillId)
    : CalibrationCandidateInput ℝ :=
  {
    skillId := id
    contentHash := "c1"
    rerankProbability := estimate.rerank
    fit := estimate.fit
    eligible := true
    phaseMatch := phaseMatch id
  }

def plainCase (ids : List SkillId) (estimate : Estimate ℝ) (phaseMatch : SkillId → ℝ)
    (acceptableSkills : List String)
    : CalibrationCaseInput ℝ :=
  {
    caseId := "case"
    familyId := "family"
    split := .validation
    timestampUnixMs := 1
    acceptableSkills := acceptableSkills
    nearMiss := false
    needsSkillGate := 1
    noneProbability := 0
    stage2Present := true
    operationallyUnavailable := false
    phase := none
    candidates := ids.map (plainCandidate estimate phaseMatch)
  }

def plainEstimates (ids : List SkillId) (estimate : Estimate ℝ)
    : TreeMap SkillId (Estimate ℝ) compare :=
  ids.foldr (fun id estimates => estimates.insert id estimate) ∅

def plainEvidence (ids : List SkillId) (estimate : Estimate ℝ) : RerankEvidence ℝ :=
  {
    shortlist := ids.map plainSkill
    estimates := plainEstimates ids estimate
    noneProbability := 0
    excluded := []
    loaded := { branch := none, records := [] }
  }

theorem plainEstimates_getElem? (ids : List SkillId) (estimate : Estimate ℝ) (id : SkillId)
    : (plainEstimates ids estimate)[id]? = if id ∈ ids then some estimate else none := by
  induction ids with
  | nil => rfl
  | cons first rest ih =>
      rw [plainEstimates, List.foldr_cons, TreeMap.getElem?_insert]
      by_cases same : first = id
      · simp [same]
      · have other : ¬compare first id = .eq := fun equal => same (Std.LawfulEqCmp.eq_of_compare equal)
        rw [if_neg other, ← plainEstimates, ih]
        simp [Ne.symm same]

theorem plainCase_records (ids : List SkillId) (estimate : Estimate ℝ)
    (phaseMatch : SkillId → ℝ) (acceptableSkills : List String)
    : Records (plainCase ids estimate phaseMatch acceptableSkills) (plainEvidence ids estimate) where
  candidates := by
    have each
        : ∀ id ∈ ids,
            RecordedAs (plainEvidence ids estimate) (plainSkill id)
              (plainCandidate estimate phaseMatch id) := by
      intro id mem
      refine ⟨rfl, rfl, ⟨fun _ => ⟨rfl, rfl⟩, fun _ => rfl⟩, ?_⟩
      exact (plainEstimates_getElem? ids estimate id).trans (if_pos mem)
    change List.Forall₂ _ (ids.map plainSkill) (ids.map (plainCandidate estimate phaseMatch))
    rw [List.forall₂_map_left_iff, List.forall₂_map_right_iff, List.forall₂_same]
    exact each
  estimated := by
    intro id mem
    change id ∈ plainEstimates ids estimate at mem
    rw [TreeMap.mem_iff_isSome_getElem?, plainEstimates_getElem?] at mem
    have listed : id ∈ ids := by
      by_contra missing
      simp [missing] at mem
    exact List.mem_map.mpr ⟨plainSkill id, List.mem_map_of_mem listed, rfl⟩
  none := rfl

/-- Two candidates with one estimate, the second of which is acceptable. -/
noncomputable def duel (phaseMatch : SkillId → ℝ) : CalibrationCaseInput ℝ :=
  plainCase ["a", "b"] { fit := 1, rerank := 1 / 2 } phaseMatch ["b"]

noncomputable def duelEvidence : RerankEvidence ℝ :=
  plainEvidence ["a", "b"] { fit := 1, rerank := 1 / 2 }

noncomputable def duelist (phaseMatch : SkillId → ℝ) (id : SkillId) : CalibrationCandidateInput ℝ :=
  plainCandidate { fit := 1, rerank := 1 / 2 } phaseMatch id

noncomputable def duelLogit (phaseMatch : SkillId → ℝ) (policy : ManagedRankingPolicy ℝ)
    (priors : PriorSnapshot) (policyVersion : String) (id : SkillId)
    : ℝ :=
  (duelist phaseMatch id).logit .real (duel phaseMatch) policy priors policyVersion

/-- The better candidate of the two decides the loss, and the first one on a tie. -/
theorem duel_loss {policy : ManagedRankingPolicy ℝ} (gate : policy.gateThreshold ≤ 1)
    (fit : policy.fitThreshold ≤ 1)
    : (duelLogit phaseMatch policy priors policyVersion "a"
            < duelLogit phaseMatch policy priors policyVersion "b"
        → evaluateCaseLoss .real (duel phaseMatch) policy priors policyVersion = some 0)
      ∧ (duelLogit phaseMatch policy priors policyVersion "a"
            = duelLogit phaseMatch policy priors policyVersion "b"
        → evaluateCaseLoss .real (duel phaseMatch) policy priors policyVersion = some 2) := by
  let logit := duelLogit phaseMatch policy priors policyVersion
  let both : List (CalibrationCandidateInput ℝ × ℝ) :=
    [(duelist phaseMatch "a", logit "a"), (duelist phaseMatch "b", logit "b")]
  have survive (id : SkillId)
      : (duelist phaseMatch id).survives (duel phaseMatch) policy = true := by
    simp [CalibrationCandidateInput.survives, duelist, plainCandidate, duel, plainCase, fit]
  have kept
      : (duel phaseMatch).candidates.filter (·.survives (duel phaseMatch) policy)
        = [duelist phaseMatch "a", duelist phaseMatch "b"] :=
    List.filter_eq_self.mpr fun candidate mem => by
      obtain ⟨id, _, rfl⟩ := List.mem_map.mp mem
      exact survive id
  have ranked
      : survivorsRanked .real (duel phaseMatch) policy priors policyVersion
        = both.mergeSort scoresBefore := by
    rw [survivorsRanked, kept]
    rfl
  have loss
      : evaluateCaseLoss .real (duel phaseMatch) policy priors policyVersion
        = some (survivorLoss .real (duel phaseMatch) policy priors policyVersion) := by
    simp [evaluateCaseLoss, duel, plainCase, gate]
  rw [loss, survivorLoss, ranked]
  cases sorted : both.mergeSort scoresBefore with
  | nil =>
      have length := congrArg List.length sorted
      rw [List.length_mergeSort] at length
      cases length
  | cons top rest =>
      obtain ⟨mem, best⟩ :=
        head_mergeSort (scoreThenKey_trans _ _) (scoreThenKey_total _ _) sorted
      have overA := scoreThenKey_iff.mp (best _ List.mem_cons_self)
      have overB := scoreThenKey_iff.mp
        (best (duelist phaseMatch "b", logit "b") (List.mem_cons_of_mem _ List.mem_cons_self))
      have lost : "a" ∉ (duel phaseMatch).acceptableSkills := by simp [duel, plainCase]
      have won : "b" ∈ (duel phaseMatch).acceptableSkills := by simp [duel, plainCase]
      have later : ¬"b" ≤ "a" := by decide
      rcases List.mem_cons.mp mem with rfl | mem
      · constructor
        · intro below
          rcases overB with above | ⟨same, _⟩
          · exact absurd (lt_trans below above) (lt_irrefl _)
          · exact absurd (lt_of_lt_of_eq below same.symm) (lt_irrefl _)
        · intro _
          exact congrArg some (if_neg lost)
      · obtain rfl := List.mem_singleton.mp mem
        constructor
        · intro _
          exact congrArg some (if_pos won)
        · intro tie
          rcases overA with above | ⟨_, first⟩
          · exact absurd (lt_of_lt_of_eq above tie.symm) (lt_irrefl _)
          · exact absurd first later

variable {estimate : Estimate ℝ} {acceptableSkills : List String}

theorem plainCase_loss {ids : List SkillId} {policy : ManagedRankingPolicy ℝ}
    (gate : policy.gateThreshold ≤ 1)
    : evaluateCaseLoss .real (plainCase ids estimate phaseMatch acceptableSkills) policy priors
          policyVersion
      = some
          (survivorLoss .real (plainCase ids estimate phaseMatch acceptableSkills) policy priors
            policyVersion) := by
  simp [evaluateCaseLoss, plainCase, gate]

/-- Past the gate, production decides a plain case by its rerank. -/
theorem plainCase_decision {ids : List SkillId} {policy : ManagedRankingPolicy ℝ}
    {evidence : RerankEvidence ℝ}
    : caseDecision .real (plainCase ids estimate phaseMatch acceptableSkills) policy priors
          evidence
      = some (productionDecision .real policy priors 1 evidence) := by
  simp [caseDecision, plainCase]

/-- Without phases and under the pooled prior, the two are scored as production scores them. -/
theorem duel_scoredAlike (policy : ManagedRankingPolicy ℝ) (priors : PriorSnapshot)
    : ScoredAlike .real (duel fun _ => 0) policy priors "v1" where
  filled := by simp [duel, plainCase]
  within := by
    intro candidate mem _
    obtain ⟨id, _, rfl⟩ := List.mem_map.mp mem
    constructor <;> norm_num [Within, plainCandidate]
  prior := fun _ _ _ _ => rfl
  phase := by
    intro candidate mem _
    obtain ⟨id, _, rfl⟩ := List.mem_map.mp mem
    simp [plainCandidate, clamp]

/-- Production recommends the first of the two, which is not acceptable, where it has no prior of
either.
-/
theorem duel_production (phaseMatch : SkillId → ℝ) {policy : ManagedRankingPolicy ℝ}
    (valid : policy.Valid) (unjudgedA : priors.priorDelta .real "a" "c1" "v1" none = (0 : ℝ))
    (unjudgedB : priors.priorDelta .real "b" "c1" "v1" none = (0 : ℝ))
    : (caseDecision .real (duel phaseMatch) policy priors duelEvidence).map
          (decisionLoss (duel phaseMatch).acceptableSkills)
      = some 2 := by
  have level
      : duelLogit (fun _ => 0) policy priors "v1" "a"
        = duelLogit (fun _ => 0) policy priors "v1" "b" := by
    simp [duelLogit, CalibrationCandidateInput.logit, duelist, plainCandidate, duel, plainCase,
      unjudgedA, unjudgedB]
  have lost := (duel_loss valid.gate.2 valid.fit.2).2 level
  have recorded : Records (duel fun _ => 0) duelEvidence := plainCase_records _ _ _ _
  have same :=
    survivorLoss_eq Real.exp_strictMono Real.exp_pos valid
      (by simp [duel, plainCase, plainCandidate]) recorded (duel_scoredAlike policy priors)
      valid.gate.2
  rw [duel, plainCase_loss valid.gate.2, ← duel, same] at lost
  rw [duel, plainCase_decision]
  exact lost

/-- Without phases, the calibration counts of the two what production's decision costs. -/
theorem evaluateCaseLoss_eq_production_duel
    : evaluateCaseLoss .real (duel fun _ => 0) .baseline .default "v1"
      = (caseDecision .real (duel fun _ => 0) .baseline .default duelEvidence).map
          (decisionLoss (duel fun _ => 0).acceptableSkills) :=
  evaluateCaseLoss_eq_production (duel fun _ => 0) .baseline .default "v1" duelEvidence
    (by simp [duel, plainCase, plainCandidate]) ManagedRankingPolicy.baseline_valid
    (plainCase_records _ _ _ _) fun _ _ => duel_scoredAlike .baseline .default

noncomputable def weightedBaseline (wPrior wPhase : ℝ) : ManagedRankingPolicy ℝ :=
  { (.baseline : ManagedRankingPolicy ℝ) with wPrior := wPrior, wPhase := wPhase }

theorem weightedBaseline_valid {wPrior wPhase : ℝ} (prior : Within wPrior wPriorMax)
    (phase : Within wPhase wPhaseMax)
    : (weightedBaseline wPrior wPhase).Valid :=
  have baseline := ManagedRankingPolicy.baseline_valid (R := ℝ)
  { baseline with weights := ⟨baseline.weights.1, prior, phase⟩ }

/-- A snapshot that knows the second candidate under another version than production's. -/
def praised : PriorSnapshot :=
  {
    asOfUnixMs := 0
    pooled :=
      (∅ : TreeMap SkillRevision PriorCellCounts compare).insert ⟨"b", "c1", "v2"⟩
        ⟨1, 1, Nat.le_refl 1, by decide⟩
    byPhase := ∅
  }

theorem useful_delta_pos
    : (0 : ℝ) < PriorCellCounts.delta .real ⟨1, 1, Nat.le_refl 1, by decide⟩ := by
  have odds (x : ℝ) (low : epsilon ≤ x) (high : x ≤ 1 - epsilon)
      : logOdds .real x = Real.log (x / (1 - x)) := by
    simp only [logOdds, clip, clamp_of_within low high, LogExp.real]
  have centered : (0 : ℝ) < logOdds .real (2 / 6) - logOdds .real (2 / 10) := by
    rw [odds _ (by norm_num [epsilon]) (by norm_num [epsilon]),
      odds _ (by norm_num [epsilon]) (by norm_num [epsilon]), sub_pos]
    exact Real.log_lt_log (by norm_num) (by norm_num)
  have clamped : (0 : ℝ) < clamp (logOdds .real (2 / 6) - logOdds .real (2 / 10)) (-1) 1 := by
    unfold clamp
    rw [if_neg (by linarith)]
    split
    · exact one_pos
    · exact centered
  have delta
      : PriorCellCounts.delta .real ⟨1, 1, Nat.le_refl 1, by decide⟩
        = 1 / 21 * clamp (logOdds LogExp.real (2 / 6) - logOdds .real (2 / 10)) (-1) 1 := by
    rw [PriorCellCounts.delta, betaShrunkPriorDelta, ensure_bind (Nat.le_refl 1),
      if_neg one_ne_zero]
    norm_num [pure, Except.pure]
  rw [delta]
  positivity

/-- Inputs are refused where an estimate is out of its range, by induction on the inputs. -/
theorem validateInputs_refuses {inputs : List (Input ℝ)} {input : Input ℝ} (mem : input ∈ inputs)
    (outside : ¬Within input.rerank 1) (seen : List String)
    : validateInputs seen inputs ≠ .ok () := by
  induction inputs generalizing seen with
  | nil => cases mem
  | cons first rest ih =>
      intro accepted
      simp only [validateInputs, bind_eq_ok, ensure_eq_ok] at accepted
      obtain ⟨_, within, _, _, _, _, accepted⟩ := accepted
      rcases List.mem_cons.mp mem with rfl | mem
      · exact outside within.1
      · exact ih mem _ accepted

/-- Production has no recommendation where an estimate is out of its range. -/
theorem recommendTop_unavailable {policy : ManagedRankingPolicy ℝ} {eligible : List (Eligible ℝ)}
    {top : Nat} {entry : Eligible ℝ} (mem : entry ∈ eligible) (outside : ¬Within entry.rerank 1)
    : recommendTop .real policy priors eligible top = .unavailable := by
  let inputs := eligible.map (scoringInput .real (activePriors policy priors))
  have refused : ∀ weights, ∃ error, rank .real inputs weights top = .error error := by
    intro weights
    cases ran : rank .real inputs weights top with
    | error error => exact ⟨error, rfl⟩
    | ok ranking =>
        simp only [rank, validate, bind_eq_ok, ensure_eq_ok] at ran
        obtain ⟨_, ⟨_, _, _, _, accepted⟩, _⟩ := ran
        exact absurd accepted (validateInputs_refuses (List.mem_map_of_mem mem) outside [])
  unfold recommendTop
  cases Weights.new policy.wFit policy.wPrior policy.wPhase with
  | error _ => rfl
  | ok weights =>
      obtain ⟨error, ran⟩ := refused weights
      simp only [inputs] at ran
      simp only [ran]

/-- A case without candidates, which production reports as a roster that changed. -/
theorem emptyCase_losses
    : evaluateCaseLoss .real (plainCase [] { fit := 1, rerank := 1 } (fun _ => 0) []) .baseline
            .default "v1"
          = some 0
        ∧ (caseDecision .real (plainCase [] { fit := 1, rerank := 1 } (fun _ => 0) []) .baseline
              .default (plainEvidence [] { fit := 1, rerank := 1 })).map
              (decisionLoss [])
          = some 2 := by
  have gate : (ManagedRankingPolicy.baseline : ManagedRankingPolicy ℝ).gateThreshold ≤ 1 :=
    ManagedRankingPolicy.baseline_valid.gate.2
  constructor
  · rw [plainCase_loss gate]
    simp [survivorLoss, survivorsRanked, plainCase, abstentionLoss]
  · have changed
        : afterRerank (plainEvidence [] ⟨1, 1⟩).shortlist (plainEvidence [] ⟨1, 1⟩).estimates
              (plainEvidence [] ⟨1, 1⟩).noneProbability
              (ManagedRankingPolicy.baseline : ManagedRankingPolicy ℝ).fitThreshold
              (plainEvidence [] ⟨1, 1⟩).excluded (plainEvidence [] ⟨1, 1⟩).loaded
            = some
                {
                  eligible := []
                  removed := []
                  verdict := some (.unavailable .rosterChanged)
                } :=
      if_pos (.inl rfl)
    rw [plainCase_decision, productionDecision, if_neg (not_lt.mpr gate), changed]
    rfl

/-- A case with an estimate out of its range, which production does not rank. -/
theorem wildCase_losses
    : evaluateCaseLoss .real (plainCase ["a"] { fit := 1, rerank := 2 } (fun _ => 0) ["a"])
            .baseline .default "v1"
          = some 0
        ∧ (caseDecision .real (plainCase ["a"] { fit := 1, rerank := 2 } (fun _ => 0) ["a"])
              .baseline .default (plainEvidence ["a"] { fit := 1, rerank := 2 })).map
              (decisionLoss ["a"])
          = some 2 := by
  have valid : (ManagedRankingPolicy.baseline : ManagedRankingPolicy ℝ).Valid :=
    ManagedRankingPolicy.baseline_valid
  let case : CalibrationCaseInput ℝ := plainCase ["a"] ⟨1, 2⟩ (fun _ => 0) ["a"]
  let only : CalibrationCandidateInput ℝ := plainCandidate ⟨1, 2⟩ (fun _ => 0) "a"
  have survives : only.survives case .baseline = true := by
    norm_num [CalibrationCandidateInput.survives, only, case, plainCandidate, plainCase,
      ManagedRankingPolicy.baseline]
  have kept : case.candidates.filter (·.survives case .baseline) = [only] :=
    List.filter_eq_self.mpr fun candidate mem => by
      obtain rfl := List.mem_singleton.mp mem
      exact survives
  constructor
  · rw [plainCase_loss valid.gate.2, survivorLoss, survivorsRanked, kept, List.map_singleton,
      List.mergeSort_singleton]
    exact congrArg some (if_pos List.mem_cons_self)
  · have recorded : Records case (plainEvidence ["a"] ⟨1, 2⟩) := plainCase_records _ _ _ _
    have same := recorded.matches (by simp [case, plainCase]) (by simp [case, plainCase])
    obtain ⟨evaluation, ran, partitioned⟩ :=
      afterRerank_partitioned same (plainEvidence ["a"] ⟨1, 2⟩).noneProbability
        (ManagedRankingPolicy.baseline : ManagedRankingPolicy ℝ).fitThreshold
        (plainEvidence ["a"] ⟨1, 2⟩).excluded (plainEvidence ["a"] ⟨1, 2⟩).loaded
    obtain ⟨entry, listed, entryOf⟩ :=
      (eligible_candidates recorded partitioned).2 only (List.mem_singleton_self _) survives
    have decided : evaluation.verdict = none := by
      rw [← Option.not_isSome_iff_eq_none, partitioned.decided]
      exact List.ne_nil_of_mem listed
    have outside : ¬Within entry.rerank (1 : ℝ) := by
      rw [entryOf.rerank]
      norm_num [Within, only, plainCandidate]
    simp only [plainCase_decision, productionDecision, if_neg (not_lt.mpr valid.gate.2), ran,
      decided, recommendTop_unavailable listed outside]
    rfl

/-- The calibration counts for a recorded case another loss than that of production's decision. -/
structure Disagree (case : CalibrationCaseInput ℝ) (policy : ManagedRankingPolicy ℝ)
    (priors : PriorSnapshot) (policyVersion : String) (evidence : RerankEvidence ℝ)
    : Prop where
  distinct : (case.candidates.map (·.skillId)).Nodup
  valid : policy.Valid
  records : Records case evidence
  differ
    : evaluateCaseLoss .real case policy priors policyVersion
      ≠ (caseDecision .real case policy priors evidence).map (decisionLoss case.acceptableSkills)

/-- The two disagree where the second one has the better logit. -/
theorem duel_disagree {policy : ManagedRankingPolicy ℝ} (valid : policy.Valid)
    (unjudgedA : priors.priorDelta .real "a" "c1" "v1" none = (0 : ℝ))
    (unjudgedB : priors.priorDelta .real "b" "c1" "v1" none = (0 : ℝ))
    (better
      : duelLogit phaseMatch policy priors policyVersion "a"
        < duelLogit phaseMatch policy priors policyVersion "b")
    : Disagree (duel phaseMatch) policy priors policyVersion duelEvidence where
  distinct := by simp [duel, plainCase, plainCandidate]
  valid := valid
  records := plainCase_records _ _ _ _
  differ := by
    rw [(duel_loss valid.gate.2 valid.fit.2).1 better,
      duel_production phaseMatch valid unjudgedA unjudgedB]
    decide

/-- The loss of a case is not always that of production's decision: on no candidates, on an
estimate out of its range, with a weight of phases, and with a weight of priors under another
version than production's.
-/
theorem evaluateCaseLoss_ne_production
    : Disagree (plainCase [] { fit := 1, rerank := 1 } (fun _ => 0) []) .baseline .default "v1"
          (plainEvidence [] { fit := 1, rerank := 1 })
        ∧ Disagree (plainCase ["a"] { fit := 1, rerank := 2 } (fun _ => 0) ["a"]) .baseline
            .default "v1" (plainEvidence ["a"] { fit := 1, rerank := 2 })
        ∧ Disagree (duel fun id => if id = "b" then 1 else 0) (weightedBaseline 0 1) .default
            "v1" duelEvidence
        ∧ Disagree (duel fun _ => 0) (weightedBaseline (1 / 2) 0) praised "v2"
            duelEvidence := by
  refine ⟨?empty, ?wild, ?phase, ?prior⟩
  case empty =>
    refine ⟨by simp [plainCase], ManagedRankingPolicy.baseline_valid, plainCase_records _ _ _ _,
      ?_⟩
    rw [emptyCase_losses.1]
    exact fun same => absurd (same.trans emptyCase_losses.2) (by decide)
  case wild =>
    refine ⟨by simp [plainCase], ManagedRankingPolicy.baseline_valid, plainCase_records _ _ _ _,
      ?_⟩
    rw [wildCase_losses.1]
    exact fun same => absurd (same.trans wildCase_losses.2) (by decide)
  case phase =>
    have other : "a" ≠ "b" := by decide
    apply duel_disagree (weightedBaseline_valid _ _) rfl rfl
    · norm_num [duelLogit, CalibrationCandidateInput.logit, duelist, plainCandidate,
        weightedBaseline, clamp, other]
    · norm_num [Within, wPriorMax]
    · norm_num [Within, wPhaseMax]
  case prior =>
    have unpraised : praised.priorDelta .real "a" "c1" "v2" none = (0 : ℝ) := rfl
    have counted
        : praised.priorDelta .real "b" "c1" "v2" none
          = PriorCellCounts.delta .real ⟨1, 1, Nat.le_refl 1, by decide⟩ := rfl
    have delta := useful_delta_pos
    apply duel_disagree (weightedBaseline_valid _ _) rfl rfl
    · norm_num [duelLogit, CalibrationCandidateInput.logit, duelist, plainCandidate,
        weightedBaseline, clamp, duel, plainCase, unpraised, counted, delta]
    · norm_num [Within, wPriorMax]
    · norm_num [Within, wPhaseMax]

end SkillRanker.Learning
