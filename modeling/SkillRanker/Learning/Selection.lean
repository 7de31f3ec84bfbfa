import Mathlib.Tactic.Ring
import SkillRanker.Learning.Calibration
import SkillRanker.Library.Sorting

/-! What a calibration selects: it depends on nothing that was held out, its validation loss is
least, and it is promotable only for a benefit on the holdout.
-/

namespace SkillRanker.Learning

open SkillRanker.Library SkillRanker.Recommendation

section Priors

variable {R : Type}

theorem PriorSnapshot.asOfUnixMs_count (snapshot : PriorSnapshot) (record : PriorJudgmentRecord)
    : (snapshot.count record).asOfUnixMs = snapshot.asOfUnixMs := by
  unfold count
  cases record.phase with
  | none => rfl
  | some phase =>
      dsimp only
      split <;> rfl

variable {snapshot : PriorSnapshot} {records : List PriorJudgmentRecord}

/-- Judgments after the cutoff change no snapshot, by induction on the judgments. -/
theorem PriorSnapshot.countAll_filter {result : PriorSnapshot}
    {seenEvents : List (String × String × String)}
    (counted : countAll (R := R) snapshot seenEvents records = .ok result)
    : countAll (R := R) snapshot seenEvents
        (records.filter fun record => record.judgedAtUnixMs ≤ snapshot.asOfUnixMs)
      = .ok result := by
  induction records generalizing snapshot seenEvents with
  | nil => exact counted
  | cons record rest ih =>
      simp only [countAll, bind_eq_ok, ensure_eq_ok] at counted
      obtain ⟨_, labelled, _, named, counted⟩ := counted
      by_cases late : snapshot.asOfUnixMs < record.judgedAtUnixMs
      · rw [if_pos late] at counted
        rw [List.filter_cons_of_neg (by simpa using late)]
        exact ih counted
      · rw [if_neg late] at counted
        rw [List.filter_cons_of_pos (by simpa using late)]
        simp only [countAll, bind_eq_ok, ensure_eq_ok]
        refine ⟨(), labelled, (), named, ?_⟩
        rw [if_neg late]
        split
        · next seen =>
            rw [if_pos seen] at counted
            exact ih counted
        · next new =>
            rw [if_neg new] at counted
            rw [← snapshot.asOfUnixMs_count record]
            exact ih counted

theorem PriorSnapshot.fromJudgments_eq {others : List PriorJudgmentRecord} {asOfUnixMs : Nat}
    {other : PriorSnapshot} (first : fromJudgments (R := R) records asOfUnixMs = .ok snapshot)
    (second : fromJudgments (R := R) others asOfUnixMs = .ok other)
    (same
      : records.filter (fun record => record.judgedAtUnixMs ≤ asOfUnixMs)
        = others.filter (fun record => record.judgedAtUnixMs ≤ asOfUnixMs))
    : snapshot = other := by
  have one := countAll_filter first
  have two := countAll_filter second
  have cutoff : (new asOfUnixMs).asOfUnixMs = asOfUnixMs := rfl
  rw [cutoff] at one two
  rw [same, two] at one
  exact (Except.ok.inj one).symm

end Priors

-- The search

section Search

variable {R : Type} [Field R] [LinearOrder R]

/-- The candidates that the search can compare, with their losses. -/
def contestants (evaluate : ManagedRankingPolicy R → SplitLossSummary R)
    (candidates : List (ManagedRankingPolicy R))
    : List (ManagedRankingPolicy R × SplitLossSummary R) :=
  (candidates.map fun candidate => (candidate, evaluate candidate)).filter fun entry =>
    entry.2.estimable

/-- The search is a scan of its contestants, by induction on the candidates. -/
theorem foldl_consider (evaluate : ManagedRankingPolicy R → SplitLossSummary R)
    (candidates : List (ManagedRankingPolicy R)) (selection : Selection R)
    : let final := candidates.foldl (Selection.consider evaluate) selection
      (final.policy, final.validation)
        = incumbent (fun one two => one.2.improves two.2)
            (selection.policy, selection.validation) (contestants evaluate candidates) := by
  induction candidates generalizing selection with
  | nil => rfl
  | cons candidate rest ih =>
      have step := ih (selection.consider evaluate candidate)
      simp only [List.foldl_cons]
      rw [step]
      unfold contestants
      by_cases estimable : (evaluate candidate).estimable = true
      · rw [List.map_cons, List.filter_cons_of_pos (by simpa using estimable), incumbent,
          incumbent, List.foldl_cons]
        congr 1
        unfold Selection.consider
        by_cases better : (evaluate candidate).improves selection.validation = true
        · simp [estimable, better]
        · simp [estimable, better]
      · rw [List.map_cons, List.filter_cons_of_neg (by simpa using estimable)]
        simp [Selection.consider, estimable]

variable [IsStrictOrderedRing R]

/-- Means over fewer than `10 ^ 12` cases that differ differ by more than the slack. -/
theorem improves_iff {one two : SplitLossSummary R} {cases : Nat} (few : cases < 10 ^ 12)
    (meanOne : one.meanLoss = (one.totalLoss : R) / cases)
    (meanTwo : two.meanLoss = (two.totalLoss : R) / cases)
    (failures : one.operationalFailures = two.operationalFailures)
    : one.improves two = true ↔ one.meanLoss < two.meanLoss := by
  have slack : (0 : R) < lossSlack := by
    unfold lossSlack
    positivity
  have noTie : ¬one.operationalFailures < two.operationalFailures := by omega
  simp only [SplitLossSummary.improves, noTie, decide_false, Bool.and_false, Bool.or_false,
    decide_eq_true_eq]
  constructor
  · intro below
    exact lt_trans (lt_add_of_pos_right _ slack) below
  · intro below
    rw [meanOne, meanTwo] at below ⊢
    rcases Nat.eq_zero_or_pos cases with rfl | some
    · simp at below
    · have positive : (0 : R) < cases := Nat.cast_pos.mpr some
      have fewer : (one.totalLoss : R) < two.totalLoss := (div_lt_div_iff_of_pos_right positive).mp below
      have next : (one.totalLoss : R) + 1 ≤ two.totalLoss := by
        exact_mod_cast Nat.succ_le_of_lt (Nat.cast_lt.mp fewer)
      have bound : (cases : R) < 10 ^ 12 := by exact_mod_cast few
      have apart : (lossSlack : R) < 1 / cases := one_div_lt_one_div_of_lt positive bound
      calc (one.totalLoss : R) / cases + lossSlack
          < one.totalLoss / cases + 1 / cases := by gcongr
        _ = (one.totalLoss + 1) / cases := by rw [add_div]
        _ ≤ two.totalLoss / cases := by gcongr

end Search

-- Runs

section Runs

variable {R Value : Type} [Field R] [LinearOrder R] {formats : CalibrationFormats R Value}
  {functions : LogExp R} {bytes other : ByteArray} {artifact artifact' : CalibrationArtifact R}
  {report report' : CalibrationReport R}

/-- An artifact has no more cases than its text has bytes. -/
def CalibrationFormats.Sized (formats : CalibrationFormats R Value) : Prop :=
  ∀ text value artifact,
    formats.strictJson text = some value
    → formats.decodeArtifact value = .ok artifact
    → artifact.cases.length ≤ text.utf8ByteSize

structure Calibrates (functions : LogExp R) (artifact : CalibrationArtifact R)
    (priors : PriorSnapshot) (candidates : List (ManagedRankingPolicy R))
    : Prop where
  accepted : artifact.check = .ok ()
  counted
    : PriorSnapshot.fromJudgments (R := R) artifact.trainingJudgments artifact.priorAsOfUnixMs
      = .ok priors
  estimable : (artifact.evaluate functions priors .validation .baseline).estimable = true
  compared : artifact.candidates = .ok candidates
  heldOut
    : (artifact.evaluate functions priors .holdout .baseline).estimable = true
      ∧ (artifact.evaluate functions priors .holdout
          (select (artifact.evaluate functions priors .validation) candidates).policy).estimable
        = true

/-- A calibration succeeds exactly when every part of it does. -/
theorem runCalibrationFromBytes_eq_ok
    : runCalibrationFromBytes formats functions bytes = .ok report
      ↔ ∃ artifact priors candidates,
          readArtifact formats bytes = .ok artifact
          ∧ Calibrates functions artifact priors candidates
          ∧ report
            = calibrationReport formats functions bytes artifact priors
                (select (artifact.evaluate functions priors .validation) candidates) := by
  simp only [runCalibrationFromBytes, bind_eq_ok, ensure_eq_ok, pure_eq_ok]
  constructor
  · rintro ⟨artifact, read, _, accepted, priors, counted, _, estimable, candidates, compared, _,
      heldOut, rfl⟩
    exact ⟨artifact, priors, candidates, read,
      ⟨accepted, counted, estimable, compared, heldOut⟩, rfl⟩
  · rintro ⟨artifact, priors, candidates, read, found, rfl⟩
    exact ⟨artifact, read, (), found.accepted, priors, found.counted, (), found.estimable,
      candidates, found.compared, (), found.heldOut, rfl⟩

/-- Two artifacts agree outside their holdout cases and the judgments after their cutoffs. -/
structure AgreeOutsideHoldout (artifact artifact' : CalibrationArtifact R) : Prop where
  schemaVersion : artifact.schemaVersion = artifact'.schemaVersion
  policyVersion : artifact.policyVersion = artifact'.policyVersion
  minSplitCases : artifact.minSplitCases = artifact'.minSplitCases
  unfinishedCases : artifact.unfinishedCases = artifact'.unfinishedCases
  candidatePolicies : artifact.candidatePolicies = artifact'.candidatePolicies
  cases
    : artifact.cases.filter (fun case => case.split ≠ .holdout)
      = artifact'.cases.filter (fun case => case.split ≠ .holdout)
  judgments
    : artifact.trainingJudgments.filter
          (fun record => record.judgedAtUnixMs ≤ artifact.priorAsOfUnixMs)
      = artifact'.trainingJudgments.filter
          (fun record => record.judgedAtUnixMs ≤ artifact'.priorAsOfUnixMs)

omit [Field R] [LinearOrder R] in
/-- Such artifacts have the same cases in every other split. -/
theorem AgreeOutsideHoldout.inSplit (agree : AgreeOutsideHoldout artifact artifact')
    {split : CalibrationSplit} (seen : split ≠ .holdout)
    : artifact.inSplit split = artifact'.inSplit split := by
  have visible (cases : List (CalibrationCaseInput R))
      : (cases.filter fun case => case.split ≠ .holdout).filter (fun case => case.split = split)
        = cases.filter fun case => case.split = split := by
    rw [List.filter_filter]
    congr 1
    funext case
    by_cases same : case.split = split
    · simp [same, seen]
    · simp [same]
  unfold CalibrationArtifact.inSplit
  rw [← visible artifact.cases, ← visible artifact'.cases, agree.cases]

omit [Field R] [LinearOrder R] in
theorem AgreeOutsideHoldout.priorAsOfUnixMs (agree : AgreeOutsideHoldout artifact artifact')
    : artifact.priorAsOfUnixMs = artifact'.priorAsOfUnixMs := by
  unfold CalibrationArtifact.priorAsOfUnixMs
  rw [agree.inSplit (by decide)]

variable {priors : PriorSnapshot} {candidates : List (ManagedRankingPolicy R)}

/-- Nothing held out reaches the selection of a policy. -/
theorem selection_eq {priors' : PriorSnapshot} {candidates' : List (ManagedRankingPolicy R)}
    (agree : AgreeOutsideHoldout artifact artifact')
    (found : Calibrates functions artifact priors candidates)
    (found' : Calibrates functions artifact' priors' candidates')
    : select (artifact.evaluate functions priors .validation) candidates
      = select (artifact'.evaluate functions priors' .validation) candidates' := by
  have samePriors : priors = priors' := by
    have counted := found'.counted
    have judgments := agree.judgments
    rw [← agree.priorAsOfUnixMs] at counted judgments
    exact PriorSnapshot.fromJudgments_eq found.counted counted judgments
  have sameCandidates : candidates = candidates' := by
    have compared := found.compared
    rw [CalibrationArtifact.candidates, agree.candidatePolicies] at compared
    exact Except.ok.inj (compared.symm.trans found'.compared)
  have sameEvaluation
      : artifact.evaluate functions priors .validation
        = artifact'.evaluate functions priors' .validation := by
    funext policy
    unfold CalibrationArtifact.evaluate
    rw [agree.inSplit (by decide), agree.policyVersion, samePriors]
  rw [sameEvaluation, sameCandidates]

omit [Field R] [LinearOrder R] in
/-- An artifact that was read has fewer cases than the slack tells apart. -/
theorem few_cases (sized : formats.Sized) (read : readArtifact formats bytes = .ok artifact)
    : artifact.cases.length < 10 ^ 12 := by
  simp only [readArtifact, bind_eq_ok, ensure_eq_ok, require_eq_ok, mapError_eq_ok] at read
  obtain ⟨_, short, text, decoded, value, parsed, taken⟩ := read
  have bound := sized text value artifact parsed taken
  have size : text.utf8ByteSize = bytes.size := by
    unfold String.fromUTF8? at decoded
    split at decoded
    · cases decoded
      rfl
    · cases decoded
  unfold evaluationDatasetBytes at short
  omega

/-- What a report says of the policy that was selected among the candidates. -/
structure Selected (functions : LogExp R) (artifact : CalibrationArtifact R)
    (priors : PriorSnapshot) (candidates : List (ManagedRankingPolicy R))
    (report : CalibrationReport R)
    : Prop where
  candidate : report.selectedPolicy = .baseline ∨ report.selectedPolicy ∈ candidates
  validation
    : report.selectedValidation
      = artifact.evaluate functions priors .validation report.selectedPolicy
  estimable : report.selectedValidation.estimable = true
  least
    : ∀ candidate ∈ candidates,
        (artifact.evaluate functions priors .validation candidate).estimable = true
        → report.selectedValidation.meanLoss
          ≤ (artifact.evaluate functions priors .validation candidate).meanLoss
  baselineOnTies
    : (artifact.evaluate functions priors .validation .baseline).meanLoss
        ≤ report.selectedValidation.meanLoss
      → report.selectedPolicy = .baseline
  promotable
    : report.promotable = true
      ↔ report.selectedPolicy ≠ .baseline
        ∧ (artifact.evaluate functions priors .holdout report.selectedPolicy).meanLoss
          < (artifact.evaluate functions priors .holdout .baseline).meanLoss

variable [IsStrictOrderedRing R]

/-- Estimable evaluations of one split are compared by their means. -/
theorem improves_evaluate (few : artifact.cases.length < 10 ^ 12) (functions : LogExp R)
    (priors : PriorSnapshot) (split : CalibrationSplit) {one two : ManagedRankingPolicy R}
    (estimable : (artifact.evaluate functions priors split one).estimable = true)
    (estimable' : (artifact.evaluate functions priors split two).estimable = true)
    : ((artifact.evaluate functions priors split one).improves
          (artifact.evaluate functions priors split two))
        = true
      ↔ (artifact.evaluate functions priors split one).meanLoss
        < (artifact.evaluate functions priors split two).meanLoss := by
  have fewer : (artifact.inSplit split).length < 10 ^ 12 :=
    Nat.lt_of_le_of_lt (List.length_filter_le _ _) few
  apply improves_iff fewer (evaluateSplit_meanLoss functions estimable)
    (evaluateSplit_meanLoss functions estimable')
  exact (evaluateSplit_operationalFailures functions _ one _ _).trans
    (evaluateSplit_operationalFailures functions _ two _ _).symm

theorem Calibrates.selected (found : Calibrates functions artifact priors candidates)
    (few : artifact.cases.length < 10 ^ 12)
    : Selected functions artifact priors candidates
        (calibrationReport formats functions bytes artifact priors
          (select (artifact.evaluate functions priors .validation) candidates)) := by
  let evaluate := artifact.evaluate functions priors .validation
  let start : ManagedRankingPolicy R × SplitLossSummary R := (.baseline, evaluate .baseline)
  have known
      : ∀ entry ∈ start :: contestants evaluate candidates,
          (entry.1 = .baseline ∨ entry.1 ∈ candidates)
          ∧ entry.2 = evaluate entry.1
          ∧ (evaluate entry.1).estimable = true := by
    intro entry mem
    rcases List.mem_cons.mp mem with rfl | mem
    · exact ⟨.inl rfl, rfl, found.estimable⟩
    · obtain ⟨listed, estimable⟩ := List.mem_filter.mp mem
      obtain ⟨candidate, inCandidates, rfl⟩ := List.mem_map.mp listed
      exact ⟨.inr inCandidates, rfl, estimable⟩
  have ranks
      : ∀ one ∈ start :: contestants evaluate candidates,
          ∀ two ∈ start :: contestants evaluate candidates,
            one.2.improves two.2 = true ↔ one.2.meanLoss < two.2.meanLoss := by
    intro one inOne two inTwo
    obtain ⟨_, sameOne, estimableOne⟩ := known one inOne
    obtain ⟨_, sameTwo, estimableTwo⟩ := known two inTwo
    rw [sameOne, sameTwo]
    exact improves_evaluate few functions priors .validation estimableOne estimableTwo
  have wins := incumbent_wins ranks
  have final
      : ((select evaluate candidates).policy, (select evaluate candidates).validation)
        = incumbent (fun one two => one.2.improves two.2) start
            (contestants evaluate candidates) :=
    foldl_consider evaluate candidates _
  rw [← final] at wins
  have member
      : ((select evaluate candidates).policy, (select evaluate candidates).validation)
        ∈ start :: contestants evaluate candidates := by
    rcases wins.contestant with same | mem
    · rw [same]
      exact List.mem_cons_self
    · exact List.mem_cons_of_mem _ mem
  obtain ⟨listed, evaluated, estimable⟩ := known _ member
  constructor
  case candidate => exact listed
  case validation => exact evaluated
  case estimable =>
    exact (congrArg SplitLossSummary.estimable evaluated).trans estimable
  case least =>
    intro candidate mem comparable
    apply wins.least (candidate, evaluate candidate)
    apply List.mem_cons_of_mem
    exact List.mem_filter.mpr ⟨List.mem_map.mpr ⟨candidate, mem, rfl⟩, comparable⟩
  case baselineOnTies =>
    intro tie
    exact congrArg Prod.fst (wins.retained tie)
  case promotable =>
    change (decide _ && _) = true ↔ _
    rw [Bool.and_eq_true, decide_eq_true_eq]
    exact and_congr_right fun _ =>
      improves_evaluate few functions priors .holdout found.heldOut.2 found.heldOut.1

/-- A calibration selects by the validation split alone: inputs that agree outside the holdout
and the judgments after the cutoff select one policy with one validation result. What is
selected has the least mean loss on the validation split, the baseline wins ties, and a policy
is promotable exactly where it is another one that is better on the holdout.
-/
theorem calibration_selects (sized : formats.Sized)
    : (∀ (bytes other : ByteArray) artifact artifact' report report',
          readArtifact formats bytes = .ok artifact
          → readArtifact formats other = .ok artifact'
          → AgreeOutsideHoldout artifact artifact'
          → runCalibrationFromBytes formats functions bytes = .ok report
          → runCalibrationFromBytes formats functions other = .ok report'
          → report.selectedPolicy = report'.selectedPolicy
            ∧ report.selectedValidation = report'.selectedValidation)
      ∧ ∀ bytes report,
          runCalibrationFromBytes formats functions bytes = .ok report
          → ∃ artifact priors candidates,
              readArtifact formats bytes = .ok artifact
              ∧ PriorSnapshot.fromJudgments (R := R) artifact.trainingJudgments
                  artifact.priorAsOfUnixMs
                = .ok priors
              ∧ artifact.candidates = .ok candidates
              ∧ Selected functions artifact priors candidates report := by
  constructor
  · intro bytes other artifact artifact' report report' read read' agree ran ran'
    obtain ⟨_, priors, candidates, first, found, rfl⟩ := runCalibrationFromBytes_eq_ok.mp ran
    obtain ⟨_, priors', candidates', second, found', rfl⟩ :=
      runCalibrationFromBytes_eq_ok.mp ran'
    obtain rfl := Except.ok.inj (first.symm.trans read)
    obtain rfl := Except.ok.inj (second.symm.trans read')
    have same := selection_eq agree found found'
    exact ⟨congrArg Selection.policy same, congrArg Selection.validation same⟩
  · intro bytes report ran
    obtain ⟨artifact, priors, candidates, read, found, rfl⟩ := runCalibrationFromBytes_eq_ok.mp ran
    exact ⟨artifact, priors, candidates, read, found.counted, found.compared,
      found.selected (few_cases sized read)⟩

end Runs

-- Two artifacts that differ in what is held out

def fittingSkill : CalibrationCandidateInput ℚ :=
  {
    skillId := "s"
    contentHash := "h"
    rerankProbability := 9 / 10
    fit := 1
    eligible := true
    phaseMatch := 0
  }

def gatedCase (name : String) (split : CalibrationSplit) (timestampUnixMs : Nat) (gate : ℚ)
    (acceptableSkills : List String)
    : CalibrationCaseInput ℚ :=
  {
    caseId := name
    familyId := name
    split := split
    timestampUnixMs := timestampUnixMs
    acceptableSkills := acceptableSkills
    nearMiss := true
    needsSkillGate := gate
    noneProbability := 1 / 2
    stage2Present := true
    operationallyUnavailable := false
    phase := none
    candidates := [fittingSkill]
  }

def caseJudgment (eventId : String) (judgedAtUnixMs : Nat) : PriorJudgmentRecord :=
  {
    eventId := eventId
    skillId := "s"
    contentHash := "h"
    policyVersion := "v1"
    phase := none
    useful := true
    labelSource := "independent_judgment"
    judgedAtUnixMs := judgedAtUnixMs
  }

def gateAt (gate : ℚ) : ManagedRankingPolicy ℚ :=
  { ManagedRankingPolicy.baseline with gateThreshold := gate }

/-- A case that wants the skill and one that wants none in each split, and two policies with lower
gates than the baseline.
-/
def gatedArtifact (heldOut : String) (late : List PriorJudgmentRecord) : CalibrationArtifact ℚ :=
  {
    schemaVersion := 1
    policyVersion := "v1"
    minSplitCases := 2
    unfinishedCases := 0
    trainingJudgments := caseJudgment "e1" 5 :: late
    candidatePolicies := [gateAt (1 / 4), gateAt (1 / 5)]
    cases :=
      [
        gatedCase "a" .training 10 0 [], gatedCase "b" .training 10 (28 / 100) ["s"],
        gatedCase "c" .validation 20 0 [], gatedCase "d" .validation 20 (28 / 100) ["s"],
        gatedCase "e" .holdout 30 0 [], gatedCase "f" .holdout 30 (28 / 100) [heldOut]
      ]
  }

def caseJson (name split time gate : String) : String :=
  "\x7b\"case_id\":\"" ++ name ++ "\",\"family_id\":\"" ++ name ++ "\",\"split\":\"" ++ split
    ++ "\",\"timestamp_unix_ms\":" ++ time ++ ",\"near_miss\":true,\"needs_skill_gate\":" ++ gate
    ++ ",\"none_probability\":0.5,\"candidates\":[\x7b\"skill_id\":\"s\",\"content_hash\":\"h\""
    ++ ",\"rerank_probability\":0.9,\"fit\":1\x7d],\"acceptable_skills\":["

def policyJson (gate : String) : String :=
  "\x7b\"gate_threshold\":" ++ gate ++ ",\"fit_threshold\":0.3,\"w_fit\":1,\"w_prior\":0"
    ++ ",\"w_phase\":0,\"top_k\":5,\"shortlist_m\":8\x7d"

def judgmentJson (eventId time : String) : String :=
  "\x7b\"event_id\":\"" ++ eventId ++ "\",\"skill_id\":\"s\",\"content_hash\":\"h\""
    ++ ",\"policy_version\":\"v1\",\"useful\":true,\"label_source\":\"independent_judgment\""
    ++ ",\"judged_at_unix_ms\":" ++ time ++ "\x7d"

def openJson : String :=
  "\x7b\"schema_version\":1,\"policy_version\":\"v1\",\"min_split_cases\":2"
    ++ ",\"candidate_policies\":[" ++ policyJson "0.25" ++ "," ++ policyJson "0.2" ++ "],\"cases\":["
    ++ caseJson "a" "training" "10" "0" ++ "]\x7d,"
    ++ caseJson "b" "training" "10" "0.28" ++ "\"s\"]\x7d,"
    ++ caseJson "c" "validation" "20" "0" ++ "]\x7d,"
    ++ caseJson "d" "validation" "20" "0.28" ++ "\"s\"]\x7d,"
    ++ caseJson "e" "holdout" "30" "0" ++ "]\x7d,"
    ++ caseJson "f" "holdout" "30" "0.28"

def restJson (heldOut late : String) : String :=
  "\"" ++ heldOut ++ "\"]\x7d],\"training_judgments\":[" ++ judgmentJson "e1" "5" ++ late
    ++ "]\x7d"

def wantedJson : String := openJson ++ restJson "s" ""

/-- The artifact whose last case wants another skill, with a judgment of a time behind the
training.
-/
def otherJson : String := openJson ++ restJson "t" ("," ++ judgmentJson "e2" "50")

def gatedFormats : CalibrationFormats ℚ String :=
  {
    strictJson := fun text => if text = wantedJson ∨ text = otherJson then some text else none
    decodeArtifact := fun text =>
      if text = wantedJson then .ok (gatedArtifact "s" [])
      else if text = otherJson then .ok (gatedArtifact "t" [caseJudgment "e2" 50])
      else .error "invalid type"
    blake3Hex := fun _ => "0123456789abcdef"
    policyDigest := fun _ => "d0"
  }

theorem otherJson_ne : otherJson ≠ wantedJson := by
  intro same
  rw [otherJson, wantedJson, String.append_right_inj] at same
  exact absurd same (by decide +kernel)

theorem decode_wanted : gatedFormats.decodeArtifact wantedJson = .ok (gatedArtifact "s" []) := by
  simp only [gatedFormats, ↓reduceIte]

theorem decode_other
    : gatedFormats.decodeArtifact otherJson
      = .ok (gatedArtifact "t" [caseJudgment "e2" 50]) := by
  simp only [gatedFormats, otherJson_ne, ↓reduceIte]

theorem gatedFormats_sized : gatedFormats.Sized := by
  intro text value artifact parsed decoded
  have length : artifact.cases.length = 6 := by
    simp only [gatedFormats] at decoded
    split at decoded
    · cases decoded
      rfl
    · split at decoded
      · cases decoded
        rfl
      · cases decoded
  have long : 6 ≤ openJson.utf8ByteSize := by decide +kernel
  simp only [gatedFormats, Option.ite_none_right_eq_some] at parsed
  rw [length]
  rcases parsed.1 with rfl | rfl
  · rw [wantedJson, String.utf8ByteSize_append]
    omega
  · rw [otherJson, String.utf8ByteSize_append]
    omega

theorem gatedFormats_read {text : String} {artifact : CalibrationArtifact ℚ}
    (known : text = wantedJson ∨ text = otherJson)
    (decoded : gatedFormats.decodeArtifact text = .ok artifact)
    : readArtifact gatedFormats text.toUTF8 = .ok artifact := by
  have fits : text.utf8ByteSize ≤ evaluationDatasetBytes := by
    have start : openJson.utf8ByteSize ≤ 4000 := by decide +kernel
    have short : (restJson "s" "").utf8ByteSize ≤ 1000 := by decide +kernel
    have long : (restJson "t" ("," ++ judgmentJson "e2" "50")).utf8ByteSize ≤ 1000 := by
      decide +kernel
    rcases known with rfl | rfl
    · rw [wantedJson, String.utf8ByteSize_append, evaluationDatasetBytes]
      omega
    · rw [otherJson, String.utf8ByteSize_append, evaluationDatasetBytes]
      omega
  have decodes : String.fromUTF8? text.toUTF8 = some text := by
    unfold String.fromUTF8?
    exact dif_pos text.isValidUTF8
  simp only [readArtifact, bind_eq_ok, ensure_eq_ok, require_eq_ok, mapError_eq_ok]
  exact ⟨(), fits, _, decodes, _, if_pos known, decoded⟩

/-- What the policies lose on the two cases of a split. -/
def gatedSummary (total : Nat) : SplitLossSummary ℚ :=
  {
    totalCases := 2
    positiveCases := 1
    negativeCases := 1
    nearMissCases := 2
    operationalFailures := 0
    totalLoss := total
    meanLoss := total / 2
    normalizedBoundedLoss := total / 2 / 2
    estimable := true
  }

section Losses

variable {functions : LogExp ℚ} {priors : PriorSnapshot} {gate : ℚ}

/-- A gate above the case's abstains, and one up to it lets the skill through. -/
theorem gatedCase_loss (name : String) (split : CalibrationSplit) (time : Nat) (own : ℚ)
    (acceptable : List String)
    : evaluateCaseLoss functions (gatedCase name split time own acceptable) (gateAt gate) priors
        "v1"
      = some
          (if own < gate then (if acceptable = [] then 0 else 1)
            else if "s" ∈ acceptable then 0 else 2) := by
  have survives
      : fittingSkill.survives (gatedCase name split time own acceptable) (gateAt gate)
        = true := by
    norm_num [gatedCase, CalibrationCandidateInput.survives, gateAt, fittingSkill,
      ManagedRankingPolicy.baseline]
  have filtered
      : (gatedCase name split time own acceptable).candidates.filter
          (·.survives (gatedCase name split time own acceptable) (gateAt gate))
        = [fittingSkill] :=
    List.filter_cons_of_pos survives
  have lost
      : survivorLoss functions (gatedCase name split time own acceptable) (gateAt gate) priors
          "v1"
        = if "s" ∈ acceptable then 0 else 2 := by
    rw [survivorLoss, survivorsRanked, filtered, List.map_cons, List.map_nil,
      List.mergeSort_singleton]
    rfl
  by_cases closed : own < gate
  · simp [evaluateCaseLoss, gatedCase, gateAt, closed, abstentionLoss]
  · rw [evaluateCaseLoss, lost]
    simp [gatedCase, gateAt, closed]

/-- What a policy loses on a split that holds a case that wants a skill and one that wants none. -/
theorem evaluateSplit_gated (positive : 0 < gate) (one two : String) (split : CalibrationSplit)
    (time : Nat) (skill : String)
    : evaluateSplit functions
        [gatedCase one split time 0 [], gatedCase two split time (28 / 100) [skill]]
        (gateAt gate) priors "v1"
      = gatedSummary (if 28 / 100 < gate then 1 else if skill = "s" then 0 else 2) := by
  have losses
      : totalLoss functions (gateAt gate) priors "v1"
          [gatedCase one split time 0 [], gatedCase two split time (28 / 100) [skill]]
        = some (if 28 / 100 < gate then 1 else if skill = "s" then 0 else 2) := by
    simp only [totalLoss, List.foldlM_cons, List.foldlM_nil, gatedCase_loss, positive, if_true]
    by_cases closed : 28 / 100 < gate
    · simp [closed, saturatingAdd, u64Max]
    · by_cases wanted : skill = "s"
      · simp [closed, wanted, saturatingAdd]
      · simp [closed, wanted, saturatingAdd, u64Max, eq_comm]
  rw [evaluateSplit, losses]
  simp [gatedCase, gatedSummary]

variable {heldOut : String} {late : List PriorJudgmentRecord}

theorem evaluate_validation (positive : 0 < gate)
    : (gatedArtifact heldOut late).evaluate functions priors .validation (gateAt gate)
      = gatedSummary (if 28 / 100 < gate then 1 else 0) :=
  evaluateSplit_gated positive "c" "d" .validation 20 "s"

theorem evaluate_holdout (positive : 0 < gate)
    : (gatedArtifact heldOut late).evaluate functions priors .holdout (gateAt gate)
      = gatedSummary (if 28 / 100 < gate then 1 else if heldOut = "s" then 0 else 2) :=
  evaluateSplit_gated positive "e" "f" .holdout 30 heldOut

theorem baseline_gateAt : ManagedRankingPolicy.baseline = gateAt (30 / 100) := rfl

theorem gateAt_inj {other : ℚ} : gateAt gate = gateAt other ↔ gate = other :=
  ⟨congrArg ManagedRankingPolicy.gateThreshold, congrArg gateAt⟩

theorem gateAt_valid (least : 0 ≤ gate) (most : gate ≤ 1) : (gateAt gate).validate = .ok () := by
  have valid := ManagedRankingPolicy.baseline_valid (R := ℚ)
  exact (ManagedRankingPolicy.validate_eq_ok _).mpr
    ⟨⟨least, most⟩, valid.fit, valid.weights, valid.sizes⟩

/-- The first policy that lets the wanted skill through is selected. -/
theorem select_gated
    : select ((gatedArtifact heldOut late).evaluate functions priors .validation)
        [.baseline, gateAt (1 / 4), gateAt (1 / 5)]
      = {
        policy := gateAt (1 / 4)
        validation := gatedSummary 0
        nonEstimableCandidates := 0
      } := by
  have closed
      : (gatedArtifact heldOut late).evaluate functions priors .validation .baseline
        = gatedSummary 1 := by
    rw [baseline_gateAt, evaluate_validation (by norm_num), if_pos (by norm_num)]
  have first
      : (gatedArtifact heldOut late).evaluate functions priors .validation (gateAt (1 / 4))
        = gatedSummary 0 := by
    rw [evaluate_validation (by norm_num), if_neg (by norm_num)]
  have second
      : (gatedArtifact heldOut late).evaluate functions priors .validation (gateAt (1 / 5))
        = gatedSummary 0 := by
    rw [evaluate_validation (by norm_num), if_neg (by norm_num)]
  have better : (gatedSummary 0).improves (gatedSummary 1) = true := by
    norm_num [SplitLossSummary.improves, gatedSummary, lossSlack]
  have equal (total : Nat) : (gatedSummary total).improves (gatedSummary total) = false := by
    norm_num [SplitLossSummary.improves, gatedSummary, lossSlack]
  have estimable (total : Nat) : (gatedSummary total).estimable = true := rfl
  simp only [select, List.foldl_cons, List.foldl_nil, Selection.consider, closed, first, second,
    estimable, better, equal, Bool.true_eq_false, Bool.false_eq_true, if_true, if_false]

theorem gatedArtifact_calibrates (functions : LogExp ℚ)
    (accepted : (gatedArtifact heldOut late).check = .ok ())
    (counted
      : PriorSnapshot.fromJudgments (R := ℚ) (caseJudgment "e1" 5 :: late) 10 = .ok priors)
    : Calibrates functions (gatedArtifact heldOut late) priors
        [.baseline, gateAt (1 / 4), gateAt (1 / 5)] where
  accepted := accepted
  counted := counted
  estimable := by
    rw [baseline_gateAt, evaluate_validation (by norm_num)]
    rfl
  compared := by
    have valid : (gateAt (1 / 4)).validate = .ok () := gateAt_valid (by norm_num) (by norm_num)
    have valid' : (gateAt (1 / 5)).validate = .ok () := gateAt_valid (by norm_num) (by norm_num)
    have new : gateAt (1 / 4) ∉ [gateAt (30 / 100)] := by
      rw [List.mem_singleton, gateAt_inj]
      norm_num
    have new' : gateAt (1 / 5) ∉ [gateAt (30 / 100), gateAt (1 / 4)] := by
      rw [List.mem_pair, gateAt_inj, gateAt_inj]
      norm_num
    simp [-one_div, CalibrationArtifact.candidates, gatedArtifact, baseline_gateAt, valid, valid',
      addCandidate, new, new']
  heldOut := by
    rw [select_gated, baseline_gateAt, evaluate_holdout (by norm_num), evaluate_holdout (by norm_num)]
    exact ⟨rfl, rfl⟩

end Losses

def tangents : LogExp ℚ := { ln := fun x => x - 1, exp := fun x => 1 + x }

/-- Two calibrations that differ in what is held out, and in a judgment of a time behind the
training, select one policy of three with the least loss. Only the first is promotable.
-/
theorem calibration_selects_gated
    : ∃ report report' : CalibrationReport ℚ,
        runCalibrationFromBytes gatedFormats tangents wantedJson.toUTF8 = .ok report
        ∧ runCalibrationFromBytes gatedFormats tangents otherJson.toUTF8 = .ok report'
        ∧ report.selectedPolicy = gateAt (1 / 4)
        ∧ report.selectedPolicy = report'.selectedPolicy
        ∧ report.selectedValidation = report'.selectedValidation
        ∧ report.promotable = true
        ∧ report'.promotable = false
        ∧ ∃ artifact priors candidates, Selected tangents artifact priors candidates report := by
  have first : readArtifact gatedFormats wantedJson.toUTF8 = .ok (gatedArtifact "s" []) :=
    gatedFormats_read (.inl rfl) decode_wanted
  have second
      : readArtifact gatedFormats otherJson.toUTF8
        = .ok (gatedArtifact "t" [caseJudgment "e2" 50]) :=
    gatedFormats_read (.inr rfl) decode_other
  have ran :=
    runCalibrationFromBytes_eq_ok.mpr
      ⟨_, _, _, first, gatedArtifact_calibrates tangents rfl rfl, rfl⟩
  have ran' :=
    runCalibrationFromBytes_eq_ok.mpr
      ⟨_, _, _, second, gatedArtifact_calibrates tangents rfl rfl, rfl⟩
  have agree
      : AgreeOutsideHoldout (gatedArtifact "s" []) (gatedArtifact "t" [caseJudgment "e2" 50]) :=
    ⟨rfl, rfl, rfl, rfl, rfl, rfl, rfl⟩
  have selects := @calibration_selects ℚ _ _ _ _ tangents _ gatedFormats_sized
  obtain ⟨leakless, optimal⟩ := selects
  obtain ⟨policy, validation⟩ := leakless _ _ _ _ _ _ first second agree ran ran'
  obtain ⟨artifact, priors, candidates, _, _, _, selected⟩ := optimal _ _ ran
  have lower : gateAt (1 / 4) ≠ gateAt (30 / 100) := by
    rw [Ne, gateAt_inj]
    norm_num
  refine ⟨_, _, ran, ran', ?_, policy, validation, ?_, ?_, artifact, priors, candidates, selected⟩
  · exact congrArg Selection.policy select_gated
  · rw [calibrationReport, select_gated, baseline_gateAt, evaluate_holdout (by norm_num),
      evaluate_holdout (by norm_num), decide_eq_true lower]
    norm_num [SplitLossSummary.improves, gatedSummary, lossSlack]
  · rw [calibrationReport, select_gated, baseline_gateAt, evaluate_holdout (by norm_num),
      evaluate_holdout (by norm_num), decide_eq_true lower]
    have other : "t" ≠ "s" := by decide
    norm_num [SplitLossSummary.improves, gatedSummary, lossSlack, other]

end SkillRanker.Learning
