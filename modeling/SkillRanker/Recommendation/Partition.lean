import Mathlib.Data.List.Dedup
import SkillRanker.Recommendation.Eligibility

/-! The partition of a shortlist: each skill is eligible or removed once, at the first stage that
refuses it, and the verdict names the stage that removed the last.
-/

namespace SkillRanker.Recommendation

open SkillRanker.Context SkillRanker.Library SkillRanker.Roster
open Std (TreeMap)

variable {R : Type}

/-- The estimates are those of the shortlist, which names each skill once. -/
structure Matches (shortlist : List AdvisorySkill)
    (estimates : TreeMap SkillId (Estimate R) compare)
    : Prop where
  filled : shortlist ≠ []
  distinct : (shortlist.map (·.binding.id)).Nodup
  members : ∀ id, id ∈ estimates ↔ id ∈ shortlist.map (·.binding.id)

theorem estimates_keys_nodup (estimates : TreeMap SkillId (Estimate R) compare)
    : estimates.keys.Nodup :=
  estimates.distinct_keys.imp fun differ same => differ (by rw [same]; exact Std.ReflCmp.compare_self)

/-- The roster changed unless the estimates are those of the shortlist: a change is a matter of
membership, of an empty shortlist or of a repeated skill.
-/
theorem rosterChanged_iff (shortlist : List AdvisorySkill)
    (estimates : TreeMap SkillId (Estimate R) compare)
    : RosterChanged shortlist estimates ↔ ¬Matches shortlist estimates := by
  have keys : estimates.keys.length = estimates.size := TreeMap.length_keys
  have dedupLength
      : ((shortlist.map (·.binding.id)).dedup).length = shortlist.length
        ↔ (shortlist.map (·.binding.id)).Nodup := by
    constructor
    · intro full
      rw [← List.dedup_eq_self]
      apply (List.dedup_sublist _).eq_of_length
      rw [full, List.length_map]
    · intro distinct
      rw [distinct.dedup, List.length_map]
  constructor
  · rintro (rfl | repeated | sizes | missing) same
    · exact same.filled rfl
    · exact repeated (dedupLength.mpr same.distinct)
    · apply sizes
      rw [same.distinct.dedup, ← keys]
      apply List.Perm.length_eq
      apply (List.perm_ext_iff_of_nodup same.distinct (estimates_keys_nodup estimates)).mpr
      intro id
      rw [TreeMap.mem_keys, same.members]
    · apply missing
      intro id mem
      rw [List.mem_dedup, ← same.members, ← TreeMap.mem_keys]
      exact mem
  · intro differ
    by_contra unchanged
    simp only [RosterChanged, not_or, not_not] at unchanged
    obtain ⟨filled, full, sizes, covered⟩ := unchanged
    have distinct := dedupLength.mp full
    apply differ
    refine ⟨filled, distinct, fun id => ⟨fun mem => ?_, fun mem => ?_⟩⟩
    · exact List.mem_dedup.mp (covered id (TreeMap.mem_keys.mpr mem))
    · have within : estimates.keys.Subperm ((shortlist.map (·.binding.id)).dedup) :=
        List.subperm_of_subset (estimates_keys_nodup estimates) covered
      have same := within.perm_of_length_le (by rw [keys, sizes])
      exact TreeMap.mem_keys.mp (same.mem_iff.mpr (List.mem_dedup.mpr mem))

theorem Matches.estimate {shortlist : List AdvisorySkill}
    {estimates : TreeMap SkillId (Estimate R) compare} (same : Matches shortlist estimates)
    {skill : AdvisorySkill} (mem : skill ∈ shortlist)
    : ∃ estimate, estimates[skill.binding.id]? = some estimate := by
  have known := (same.members skill.binding.id).mpr (List.mem_map_of_mem mem)
  exact ⟨_, TreeMap.getElem?_eq_some_getElem known⟩

section Stages

variable [LE R] [LT R] [DecidableLE R] [DecidableLT R] {shortlist : List AdvisorySkill}
  {estimates : TreeMap SkillId (Estimate R) compare} {none' fitThreshold : R}
  {excluded : List SkillId} {loaded : LoadedState}

def firstRefusal (estimates : TreeMap SkillId (Estimate R) compare) (none' fitThreshold : R)
    (excluded : List SkillId) (loaded : LoadedState) (skill : AdvisorySkill)
    : Option Exclusion :=
  let estimate := estimates[skill.binding.id]?
  if skill.binding.restrictions.agentInvocable = false then some .restricted
  else if skill.binding.id ∈ excluded ∨ skill.record.id ∈ excluded then some .excluded
  else if provenLoaded skill loaded then some .alreadyLoaded
  else if ¬estimate.any (fitThreshold ≤ ·.fit) then some .lowFit
  else if ¬estimate.any (none' < ·.rerank) then some .notAboveNone
  else none

def fitRefusal (estimates : TreeMap SkillId (Estimate R) compare) (fitThreshold : R)
    (skill : AdvisorySkill)
    : Option Exclusion :=
  if estimates[skill.binding.id]?.any (fitThreshold ≤ ·.fit) then none else some .lowFit

def noneRefusal (estimates : TreeMap SkillId (Estimate R) compare) (none' : R)
    (skill : AdvisorySkill)
    : Option Exclusion :=
  if estimates[skill.binding.id]?.any (none' < ·.rerank) then none else some .notAboveNone

def documentedVerdict (refusals : List (Option Exclusion)) : Option Verdict :=
  if ∀ refusal ∈ refusals, refusal ∈ [some .restricted, some .excluded] then
    some (.abstain .excluded)
  else if ∀ refusal ∈ refusals,
      refusal ∈ [some .restricted, some .excluded, some .alreadyLoaded] then
    some (.abstain .alreadyLoaded)
  else if ∀ refusal ∈ refusals,
      refusal ∈ [some .restricted, some .excluded, some .alreadyLoaded, some .lowFit] then
    some (.abstain .lowFit)
  else if ∀ refusal ∈ refusals, refusal ≠ none then some (.abstain .noShortlistMatch)
  else none

theorem documentedVerdict_abstains {refusals : List (Option Exclusion)} {verdict : Verdict}
    (documented : documentedVerdict refusals = some verdict)
    : ∃ reason, verdict = .abstain reason := by
  unfold documentedVerdict at documented
  split at documented
  · exact ⟨_, (Option.some.inj documented).symm⟩
  · split at documented
    · exact ⟨_, (Option.some.inj documented).symm⟩
    · split at documented
      · exact ⟨_, (Option.some.inj documented).symm⟩
      · split at documented
        · exact ⟨_, (Option.some.inj documented).symm⟩
        · cases documented

/-- What an evaluation is to be where the estimates are those of the shortlist. -/
structure Partitioned (shortlist : List AdvisorySkill)
    (estimates : TreeMap SkillId (Estimate R) compare) (none' fitThreshold : R)
    (excluded : List SkillId) (loaded : LoadedState) (evaluation : Evaluation R)
    : Prop where
  placed
    : (evaluation.eligible.map (·.skill.binding.id) ++ evaluation.removed.map Prod.fst).Perm
        (shortlist.map (·.binding.id))
  eligible
    : ∀ skill,
        (∃ entry ∈ evaluation.eligible, entry.skill = skill)
        ↔ skill ∈ shortlist
          ∧ skill.binding.restrictions.agentInvocable = true
          ∧ (skill.binding.id ∉ excluded ∧ skill.record.id ∉ excluded)
          ∧ provenLoaded skill loaded = false
          ∧ ∃ estimate,
              estimates[skill.binding.id]? = some estimate
              ∧ fitThreshold ≤ estimate.fit
              ∧ none' < estimate.rerank
  estimated
    : ∀ entry ∈ evaluation.eligible,
        estimates[entry.skill.binding.id]? = some { fit := entry.fit, rerank := entry.rerank }
  removed
    : ∀ id reason,
        (id, reason) ∈ evaluation.removed
        ↔ ∃ skill ∈ shortlist,
            skill.binding.id = id
            ∧ firstRefusal estimates none' fitThreshold excluded loaded skill = some reason
  decided : evaluation.verdict.isSome ↔ evaluation.eligible = []
  verdict
    : evaluation.verdict
      = documentedVerdict
          (shortlist.map (firstRefusal estimates none' fitThreshold excluded loaded))

theorem firstRefusal_eq
    : firstRefusal estimates none' fitThreshold excluded loaded
      = fun skill =>
          (policyStop excluded skill).or
            ((loadedStop loaded skill).or
              ((fitRefusal estimates fitThreshold skill).or
                (noneRefusal estimates none' skill))) := by
  funext skill
  unfold firstRefusal policyStop loadedStop fitRefusal noneRefusal
  dsimp only
  split
  · rfl
  · split
    · rfl
    · split
      · rfl
      · split <;> split <;> simp_all

/-- A skill with an estimate is refused nowhere when it meets every condition. -/
theorem firstRefusal_eq_none {skill : AdvisorySkill} {estimate : Estimate R}
    (known : estimates[skill.binding.id]? = some estimate)
    : firstRefusal estimates none' fitThreshold excluded loaded skill = none
      ↔ skill.binding.restrictions.agentInvocable = true
        ∧ (skill.binding.id ∉ excluded ∧ skill.record.id ∉ excluded)
        ∧ provenLoaded skill loaded = false
        ∧ ∃ estimate,
            estimates[skill.binding.id]? = some estimate
            ∧ fitThreshold ≤ estimate.fit
            ∧ none' < estimate.rerank := by
  simp only [firstRefusal, known, Option.any_some, decide_eq_true_eq, Option.some.injEq,
    exists_eq_left']
  by_cases invocable : skill.binding.restrictions.agentInvocable = true
  · by_cases listed : skill.binding.id ∈ excluded ∨ skill.record.id ∈ excluded
    · simp only [invocable, Bool.true_eq_false, ↓reduceIte, listed, reduceCtorEq, false_iff]
      intro passes
      exact listed.elim passes.2.1.1 passes.2.1.2
    · have unlisted := not_or.mp listed
      by_cases present : provenLoaded skill loaded = true
      · simp [invocable, listed, present]
      · by_cases fits : fitThreshold ≤ estimate.fit
        · by_cases above : none' < estimate.rerank <;>
            simp [invocable, unlisted, present, fits, above]
        · simp [invocable, unlisted, present, fits]
  · simp [invocable]

theorem stopped_firstRefusal
    : let policy := passed (policyStop excluded) shortlist
      let admitted := passed (loadedStop loaded) policy
      let fitting := passed (fitRefusal estimates fitThreshold) admitted
      (stopped (policyStop excluded) shortlist ++ stopped (loadedStop loaded) policy
        ++ stopped (fitRefusal estimates fitThreshold) admitted
        ++ stopped (noneRefusal estimates none') fitting).Perm
          (stopped (firstRefusal estimates none' fitThreshold excluded loaded) shortlist) := by
  intro policy admitted fitting
  rw [firstRefusal_eq]
  have last := stopped_passed_perm (fitRefusal estimates fitThreshold)
    (noneRefusal estimates none') admitted
  have middle := stopped_passed_perm (loadedStop loaded)
    (fun skill => (fitRefusal estimates fitThreshold skill).or (noneRefusal estimates none' skill))
    policy
  have first := stopped_passed_perm (policyStop excluded)
    (fun skill =>
      (loadedStop loaded skill).or
        ((fitRefusal estimates fitThreshold skill).or (noneRefusal estimates none' skill)))
    shortlist
  rw [List.append_assoc, List.append_assoc]
  exact ((((last.append_left _).trans middle).append_left _).trans first)

theorem passed_firstRefusal
    : passed (noneRefusal estimates none')
        (passed (fitRefusal estimates fitThreshold)
          (passed (loadedStop loaded) (passed (policyStop excluded) shortlist)))
      = passed (firstRefusal estimates none' fitThreshold excluded loaded) shortlist := by
  rw [passed_passed, passed_passed, passed_passed, firstRefusal_eq]

def stagedVerdict (policy admitted fitting eligible : List AdvisorySkill) : Option Verdict :=
  if policy = [] then some (.abstain .excluded)
  else if admitted = [] then some (.abstain .alreadyLoaded)
  else if fitting = [] then some (.abstain .lowFit)
  else if eligible = [] then some (.abstain .noShortlistMatch)
  else none

variable {entries : List (AdvisorySkill × Estimate R)}

omit [LE R] [LT R] [DecidableLE R] [DecidableLT R] in
theorem stage_skills {stop : AdvisorySkill × Estimate R → Option Exclusion}
    {refusal : AdvisorySkill → Option Exclusion}
    (same : ∀ entry ∈ entries, stop entry = refusal entry.1)
    : (passed stop entries).map Prod.fst = passed refusal (entries.map Prod.fst)
      ∧ (stopped stop entries).map (fun entry => (entry.1.1.binding.id, entry.2))
        = removedIds (stopped refusal (entries.map Prod.fst)) := by
  rw [passed_map, stopped_map, passed_congr same, stopped_congr same, removedIds, List.map_map]
  exact ⟨rfl, rfl⟩

omit [LE R] [LT R] [DecidableLE R] [DecidableLT R] in
/-- There is a verdict where nothing is left. -/
theorem stagedVerdict_isSome {policy admitted fitting eligible : List AdvisorySkill}
    (noPolicy : policy = [] → eligible = []) (noAdmitted : admitted = [] → eligible = [])
    (noFitting : fitting = [] → eligible = [])
    : (stagedVerdict policy admitted fitting eligible).isSome ↔ eligible = [] := by
  unfold stagedVerdict
  split
  · next none => simp [noPolicy none]
  · split
    · next none => simp [noAdmitted none]
    · split
      · next none => simp [noFitting none]
      · split
        · next none => simp [none]
        · next some => simp [some]

/-- What the stages leave of candidates with their estimates. -/
theorem evaluateAdmitted_eq
    (known : ∀ entry ∈ entries, estimates[entry.1.binding.id]? = some entry.2)
    (removed : List (SkillId × Exclusion))
    : let fitting := passed (fitRefusal estimates fitThreshold) (entries.map Prod.fst)
      let eligible := passed (noneRefusal estimates none') fitting
      let evaluation := evaluateAdmitted entries none' fitThreshold removed
      evaluation.eligible.map (·.skill) = eligible
      ∧ (∀ entry ∈ evaluation.eligible,
          estimates[entry.skill.binding.id]? = some { fit := entry.fit, rerank := entry.rerank })
      ∧ evaluation.removed
        = removed
          ++ removedIds (stopped (fitRefusal estimates fitThreshold) (entries.map Prod.fst))
          ++ removedIds (stopped (noneRefusal estimates none') fitting)
      ∧ evaluation.verdict
        = if fitting = [] then some (.abstain .lowFit)
          else if eligible = [] then some (.abstain .noShortlistMatch) else none := by
  intro fitting eligible evaluation
  have sameFit
      : ∀ entry ∈ entries, fitStop fitThreshold entry = fitRefusal estimates fitThreshold entry.1 := by
    intro entry mem
    simp [fitStop, fitRefusal, known entry mem]
  obtain ⟨fits, unfit⟩ := stage_skills sameFit
  have stillKnown
      : ∀ entry ∈ passed (fitStop fitThreshold) entries,
          estimates[entry.1.binding.id]? = some entry.2 :=
    fun entry mem => known entry (mem_passed.mp mem).1
  have sameNone
      : ∀ entry ∈ passed (fitStop fitThreshold) entries,
          noneStop none' entry = noneRefusal estimates none' entry.1 := by
    intro entry mem
    simp [noneStop, noneRefusal, stillKnown entry mem]
  obtain ⟨above, notAbove⟩ := stage_skills sameNone
  rw [fits] at above notAbove
  have emptyFitting : passed (fitStop fitThreshold) entries = [] ↔ fitting = [] := by
    rw [← List.map_eq_nil_iff, fits]
  have emptyEligible
      : passed (noneStop none') (passed (fitStop fitThreshold) entries) = [] ↔ eligible = [] := by
    rw [← List.map_eq_nil_iff, above]
  by_cases none : fitting = []
  · have nothing := emptyFitting.mpr none
    have left : evaluation
        = {
            eligible := []
            removed := removed
              ++ (stopped (fitStop fitThreshold) entries).map
                fun entry => (entry.1.1.binding.id, entry.2)
            verdict := some (.abstain .lowFit)
          } := if_pos nothing
    rw [left, unfit, if_pos none]
    simp [eligible, none, passed, stopped, removedIds]
  · have some' : ¬passed (fitStop fitThreshold) entries = [] := fun empty =>
      none (emptyFitting.mp empty)
    have left : evaluation = _ := if_neg some'
    rw [left, unfit, notAbove, if_neg none]
    refine ⟨?_, ?_, rfl, ?_⟩
    · rw [List.map_map]
      exact above
    · intro entry mem
      obtain ⟨⟨skill, estimate⟩, inEligible, rfl⟩ := List.mem_map.mp mem
      exact stillKnown _ (mem_passed.mp inEligible).1
    · simp only [List.map_eq_nil_iff, emptyEligible]

/-- Where the estimates are those of the shortlist, the evaluation is what the four stages leave.
-/
theorem afterRerank_stages (same : Matches shortlist estimates) (none' fitThreshold : R)
    (excluded : List SkillId) (loaded : LoadedState)
    : let policy := passed (policyStop excluded) shortlist
      let admitted := passed (loadedStop loaded) policy
      let fitting := passed (fitRefusal estimates fitThreshold) admitted
      let eligible := passed (noneRefusal estimates none') fitting
      ∃ evaluation,
        afterRerank shortlist estimates none' fitThreshold excluded loaded = some evaluation
        ∧ evaluation.eligible.map (·.skill) = eligible
        ∧ (∀ entry ∈ evaluation.eligible,
            estimates[entry.skill.binding.id]? = some { fit := entry.fit, rerank := entry.rerank })
        ∧ evaluation.removed
          = removedIds
              (stopped (policyStop excluded) shortlist ++ stopped (loadedStop loaded) policy
                ++ stopped (fitRefusal estimates fitThreshold) admitted
                ++ stopped (noneRefusal estimates none') fitting)
        ∧ evaluation.verdict = stagedVerdict policy admitted fitting eligible := by
  intro policy admitted fitting eligible
  have unchanged : ¬RosterChanged shortlist estimates := fun changed =>
    (rosterChanged_iff shortlist estimates).mp changed same
  unfold afterRerank
  rw [if_neg unchanged]
  unfold admitCandidates
  rw [if_neg same.filled]
  by_cases noPolicy : policy = []
  · rw [if_pos noPolicy]
    refine ⟨_, rfl, ?_, fun _ mem => absurd mem List.not_mem_nil, ?_, ?_⟩
    · simp [eligible, fitting, admitted, noPolicy, passed]
    · simp [fitting, admitted, noPolicy, passed, stopped, removedIds]
    · rw [stagedVerdict, if_pos noPolicy]
  · rw [if_neg noPolicy]
    by_cases noAdmitted : admitted = []
    · have verdict
          : (if admitted = [] then some (Verdict.abstain .alreadyLoaded) else none)
            = some (.abstain .alreadyLoaded) := if_pos noAdmitted
      dsimp only
      rw [verdict]
      refine ⟨_, rfl, ?_, fun _ mem => absurd mem List.not_mem_nil, ?_, ?_⟩
      · simp [eligible, fitting, noAdmitted, passed]
      · simp [fitting, noAdmitted, passed, stopped, removedIds, policy]
      · rw [stagedVerdict, if_neg noPolicy, if_pos noAdmitted]
    · have verdict
          : (if admitted = [] then some (Verdict.abstain .alreadyLoaded) else none) = none :=
        if_neg noAdmitted
      have known
          : ∀ skill ∈ admitted, ∃ estimate, estimates[skill.binding.id]? = some estimate :=
        fun skill mem => same.estimate (mem_passed.mp (mem_passed.mp mem).1).1
      obtain ⟨entries, paired, skills, values⟩ := mapM_pairs known
      dsimp only
      rw [verdict, paired]
      obtain ⟨passes, estimated, removes, decides⟩ :=
        evaluateAdmitted_eq values
          (removedIds (stopped (policyStop excluded) shortlist)
            ++ removedIds (stopped (loadedStop loaded) policy))
      rw [skills] at passes removes decides
      refine ⟨_, rfl, passes, estimated, ?_, ?_⟩
      · rw [removes]
        simp [removedIds, fitting, policy]
      · rw [decides, stagedVerdict, if_neg noPolicy, if_neg noAdmitted]

/-- How far a skill gets is told by its first refusal. -/
theorem refusals_iff (estimates : TreeMap SkillId (Estimate R) compare)
    (none' fitThreshold : R) (excluded : List SkillId) (loaded : LoadedState)
    (skill : AdvisorySkill)
    : let refusal := firstRefusal estimates none' fitThreshold excluded loaded skill
      (policyStop excluded skill ≠ none ↔ refusal ∈ [some .restricted, some .excluded])
      ∧ ((policyStop excluded skill).or (loadedStop loaded skill) ≠ none
        ↔ refusal ∈ [some .restricted, some .excluded, some .alreadyLoaded])
      ∧ (((policyStop excluded skill).or (loadedStop loaded skill)).or
            (fitRefusal estimates fitThreshold skill) ≠ none
        ↔ refusal ∈ [some .restricted, some .excluded, some .alreadyLoaded, some .lowFit]) := by
  intro refusal
  have staged : refusal = _ := congrFun firstRefusal_eq skill
  rw [staged]
  unfold policyStop loadedStop fitRefusal noneRefusal
  split
  · simp
  · split
    · simp
    · split
      · simp
      · split <;> split <;> simp

theorem stagedVerdict_eq
    : let policy := passed (policyStop excluded) shortlist
      let admitted := passed (loadedStop loaded) policy
      let fitting := passed (fitRefusal estimates fitThreshold) admitted
      let eligible := passed (noneRefusal estimates none') fitting
      stagedVerdict policy admitted fitting eligible
        = documentedVerdict
            (shortlist.map (firstRefusal estimates none' fitThreshold excluded loaded)) := by
  intro policy admitted fitting eligible
  have far := refusals_iff estimates none' fitThreshold excluded loaded
  have noPolicy
      : policy = []
        ↔ ∀ refusal
            ∈ shortlist.map (firstRefusal estimates none' fitThreshold excluded loaded),
            refusal ∈ [some .restricted, some .excluded] := by
    rw [List.forall_mem_map, passed_eq_nil]
    exact forall₂_congr fun skill _ => (far skill).1
  have noAdmitted
      : admitted = []
        ↔ ∀ refusal
            ∈ shortlist.map (firstRefusal estimates none' fitThreshold excluded loaded),
            refusal ∈ [some .restricted, some .excluded, some .alreadyLoaded] := by
    rw [List.forall_mem_map]
    simp only [admitted, policy, passed_passed, passed_eq_nil]
    exact forall₂_congr fun skill _ => (far skill).2.1
  have noFitting
      : fitting = []
        ↔ ∀ refusal
            ∈ shortlist.map (firstRefusal estimates none' fitThreshold excluded loaded),
            refusal
              ∈ [some .restricted, some .excluded, some .alreadyLoaded, some .lowFit] := by
    rw [List.forall_mem_map]
    simp only [fitting, admitted, policy, passed_passed, passed_eq_nil, ← Option.or_assoc]
    exact forall₂_congr fun skill _ => (far skill).2.2
  have noEligible
      : eligible = []
        ↔ ∀ refusal
            ∈ shortlist.map (firstRefusal estimates none' fitThreshold excluded loaded),
            refusal ≠ none := by
    rw [List.forall_mem_map]
    simp only [eligible, fitting, admitted, policy, passed_firstRefusal, passed_eq_nil]
  unfold stagedVerdict documentedVerdict
  simp only [noPolicy, noAdmitted, noFitting, noEligible]

theorem afterRerank_partitioned (same : Matches shortlist estimates) (none' fitThreshold : R)
    (excluded : List SkillId) (loaded : LoadedState)
    : ∃ evaluation,
        afterRerank shortlist estimates none' fitThreshold excluded loaded = some evaluation
        ∧ Partitioned shortlist estimates none' fitThreshold excluded loaded evaluation := by
  obtain ⟨evaluation, ran, skills, estimated, removed, verdict⟩ :=
    afterRerank_stages same none' fitThreshold excluded loaded
  rw [passed_firstRefusal] at skills
  have stops : evaluation.removed.Perm (removedIds
      (stopped (firstRefusal estimates none' fitThreshold excluded loaded) shortlist)) := by
    rw [removed]
    exact stopped_firstRefusal.map _
  have eligibleIds
      : evaluation.eligible.map (·.skill.binding.id)
        = (passed (firstRefusal estimates none' fitThreshold excluded loaded) shortlist).map
            (·.binding.id) := by
    rw [← skills, List.map_map]
    rfl
  refine ⟨evaluation, ran, ?_⟩
  constructor
  case placed =>
    have once := (passed_stopped_perm
      (firstRefusal estimates none' fitThreshold excluded loaded) shortlist).map (·.binding.id)
    rw [List.map_append, List.map_map] at once
    rw [eligibleIds]
    refine ((stops.map Prod.fst).append_left _).trans ?_
    rw [removedIds, List.map_map]
    exact once
  case eligible =>
    intro skill
    have listed
        : (∃ entry ∈ evaluation.eligible, entry.skill = skill)
          ↔ skill ∈ evaluation.eligible.map (·.skill) := List.mem_map.symm
    rw [listed, skills, mem_passed]
    apply and_congr_right
    intro mem
    obtain ⟨estimate, known⟩ := same.estimate mem
    exact firstRefusal_eq_none known
  case estimated => exact estimated
  case removed =>
    intro id reason
    rw [stops.mem_iff, removedIds, List.mem_map]
    constructor
    · rintro ⟨⟨skill, other⟩, mem, same⟩
      obtain ⟨rfl, rfl⟩ := Prod.mk.inj same
      obtain ⟨listed, refused⟩ := mem_stopped.mp mem
      exact ⟨skill, listed, rfl, refused⟩
    · rintro ⟨skill, listed, rfl, refused⟩
      exact ⟨(skill, reason), mem_stopped.mpr ⟨listed, refused⟩, rfl⟩
  case decided =>
    rw [verdict, ← List.map_eq_nil_iff, skills, ← passed_firstRefusal]
    apply stagedVerdict_isSome
    · intro none
      rw [none]
      rfl
    · intro none
      rw [none]
      rfl
    · intro none
      rw [none]
      rfl
  case verdict =>
    rw [verdict]
    exact stagedVerdict_eq

/-- An evaluation after the rerank returns. It partitions the shortlist where the estimates are
those of the shortlist, and otherwise says that the roster changed.
-/
theorem afterRerank_partitions (shortlist : List AdvisorySkill)
    (estimates : TreeMap SkillId (Estimate R) compare) (none' fitThreshold : R)
    (excluded : List SkillId) (loaded : LoadedState)
    : ∃ evaluation,
        afterRerank shortlist estimates none' fitThreshold excluded loaded = some evaluation
        ∧ (Matches shortlist estimates
            ∧ Partitioned shortlist estimates none' fitThreshold excluded loaded evaluation
          ∨ ¬Matches shortlist estimates
            ∧ evaluation
              = {
                  eligible := []
                  removed := []
                  verdict := some (.unavailable .rosterChanged)
                }) := by
  by_cases same : Matches shortlist estimates
  · obtain ⟨evaluation, ran, partitioned⟩ :=
      afterRerank_partitioned same none' fitThreshold excluded loaded
    exact ⟨evaluation, ran, .inl ⟨same, partitioned⟩⟩
  · have changed := (rosterChanged_iff shortlist estimates).mpr same
    exact ⟨_, if_pos changed, .inr ⟨same, rfl⟩⟩

end Stages

def plainSkill (id : SkillId) : AdvisorySkill :=
  let name : InvocationName := { text := "review", valid := by decide +kernel }
  {
    record :=
      {
        id := id
        source := "project"
        sourcePriority := 0
        invocationName := name
        target := []
        sourceContent := "c1"
        renderedContent := none
        visibility := .verified "1"
        restrictions := .free
        usageKind := .workflow
        forkedContext := false
        dynamicContent := false
        aliases := []
      }
    binding :=
      {
        id := id
        source := "project"
        invocation := name
        visibility := .verified "1"
        restrictions := .free
        priority := none
      }
  }

/-- A shortlist without estimates is not partitioned: its skill is neither eligible nor removed.
-/
theorem afterRerank_places_nothing
    : ∃ evaluation,
        afterRerank [plainSkill "sk1"] (∅ : TreeMap SkillId (Estimate Nat) compare) 0 0 []
            { branch := none, records := [] }
          = some evaluation
        ∧ (plainSkill "sk1").binding.id
          ∉ evaluation.eligible.map (·.skill.binding.id) ++ evaluation.removed.map Prod.fst := by
  refine ⟨_, if_pos ?_, List.not_mem_nil⟩
  exact .inr (.inr (.inl (by decide)))

end SkillRanker.Recommendation
