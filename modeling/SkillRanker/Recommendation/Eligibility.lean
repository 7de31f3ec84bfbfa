import SkillRanker.Context.LoadRecords
import SkillRanker.Library.Sieve
import SkillRanker.Roster.Resolution

/-! Local eligibility before scoring: the stages that remove candidates, and the verdict where
they leave none.
-/

namespace SkillRanker.Recommendation

open SkillRanker.Context SkillRanker.Library SkillRanker.Roster
open Std (TreeMap)

inductive AbstainReason
  | lowFit
  | alreadyLoaded
  | excluded
  | snoozed
  | noShortlistMatch
deriving DecidableEq, Repr

inductive UnavailableReason
  | explicitResolution
  | emptyRoster
  | rosterChanged
deriving DecidableEq, Repr

/-- A decision reached locally, with no further provider request. -/
inductive Verdict
  | abstain (reason : AbstainReason)
  | unavailable (reason : UnavailableReason)
deriving DecidableEq, Repr

/-- The first stage that removed one candidate. -/
inductive Exclusion
  | restricted
  | excluded
  | alreadyLoaded
  | lowFit
  | notAboveNone
deriving DecidableEq, Repr

structure LoadedState where
  branch : Option ActiveBranch
  records : List LoadedSkillRecord

def provenLoaded (skill : AdvisorySkill) (loaded : LoadedState) : Bool :=
  let record := skill.record
  if record.usageKind ≠ .reference ∨ record.forkedContext ∨ record.dynamicContent then false
  else
    (evaluateLoadedSkillEligibility skill.binding.id .reference (some record.sourceContent)
      record.renderedContent loaded.branch loaded.records).isSuppressed

-- Before the wide call

structure Admission where
  admitted : List AdvisorySkill
  removed : List (SkillId × Exclusion)
  verdict : Option Verdict

/-- Invocation restrictions and explicit exclusions. -/
def policyStop (excluded : List SkillId) (skill : AdvisorySkill) : Option Exclusion :=
  if skill.binding.restrictions.agentInvocable = false then some .restricted
  else if skill.binding.id ∈ excluded ∨ skill.record.id ∈ excluded then some .excluded
  else none

def loadedStop (loaded : LoadedState) (skill : AdvisorySkill) : Option Exclusion :=
  if provenLoaded skill loaded then some .alreadyLoaded else none

def removedIds (entries : List (AdvisorySkill × Exclusion)) : List (SkillId × Exclusion) :=
  entries.map fun entry => (entry.1.binding.id, entry.2)

/-- `admit`: the candidates that neither policy nor loaded state stops. -/
def admitCandidates (candidates : List AdvisorySkill) (excluded : List SkillId)
    (loaded : LoadedState)
    : Admission :=
  if candidates = [] then
    {
      admitted := []
      removed := []
      verdict := some (.unavailable .emptyRoster)
    }
  else
    let policy := passed (policyStop excluded) candidates
    let removed := removedIds (stopped (policyStop excluded) candidates)
    if policy = [] then
      {
        admitted := policy
        removed := removed
        verdict := some (.abstain .excluded)
      }
    else
      let admitted := passed (loadedStop loaded) policy
      {
        admitted := admitted
        removed := removed ++ removedIds (stopped (loadedStop loaded) policy)
        verdict := if admitted = [] then some (.abstain .alreadyLoaded) else none
      }

-- After the rerank

structure Estimate (R : Type) where
  fit : R
  rerank : R

structure Eligible (R : Type) where
  skill : AdvisorySkill
  fit : R
  rerank : R

structure Evaluation (R : Type) where
  eligible : List (Eligible R)
  removed : List (SkillId × Exclusion)
  verdict : Option Verdict

section AfterRerank

-- The comparisons are all that is used of the numbers, so a number may be none at all.
variable {R : Type} [LE R] [LT R] [DecidableLE R] [DecidableLT R]

/-- The estimates do not cover exactly the shortlist. -/
def RosterChanged (shortlist : List AdvisorySkill)
    (estimates : TreeMap SkillId (Estimate R) compare)
    : Prop :=
  let members := (shortlist.map (·.binding.id)).dedup
  shortlist = []
  ∨ members.length ≠ shortlist.length
  ∨ members.length ≠ estimates.size
  ∨ ¬∀ id ∈ estimates.keys, id ∈ members

instance (shortlist : List AdvisorySkill) (estimates : TreeMap SkillId (Estimate R) compare)
    : Decidable (RosterChanged shortlist estimates) :=
  inferInstanceAs (Decidable (_ ∨ _ ∨ _ ∨ _))

def fitStop (fitThreshold : R) (entry : AdvisorySkill × Estimate R) : Option Exclusion :=
  if fitThreshold ≤ entry.2.fit then none else some .lowFit

def noneStop (none' : R) (entry : AdvisorySkill × Estimate R) : Option Exclusion :=
  if none' < entry.2.rerank then none else some .notAboveNone

/-- What is left of candidates with their estimates. -/
def evaluateAdmitted (entries : List (AdvisorySkill × Estimate R)) (none' fitThreshold : R)
    (removed : List (SkillId × Exclusion))
    : Evaluation R :=
  let stoppedIds := List.map fun (entry : (AdvisorySkill × Estimate R) × Exclusion) =>
    (entry.1.1.binding.id, entry.2)
  let fitting := passed (fitStop fitThreshold) entries
  let removed := removed ++ stoppedIds (stopped (fitStop fitThreshold) entries)
  if fitting = [] then
    {
      eligible := []
      removed := removed
      verdict := some (.abstain .lowFit)
    }
  else
    let eligible := (passed (noneStop none') fitting).map fun (skill, estimate) =>
      {
        skill := skill
        fit := estimate.fit
        rerank := estimate.rerank
      }
    {
      eligible := eligible
      removed := removed ++ stoppedIds (stopped (noneStop none') fitting)
      verdict := if eligible = [] then some (.abstain .noShortlistMatch) else none
    }

/-- The eligibility after the rerank; no value where the source would index a missing estimate.
-/
def afterRerank (shortlist : List AdvisorySkill)
    (estimates : TreeMap SkillId (Estimate R) compare) (none' fitThreshold : R)
    (excluded : List SkillId) (loaded : LoadedState)
    : Option (Evaluation R) :=
  if RosterChanged shortlist estimates then
    some
      {
        eligible := []
        removed := []
        verdict := some (.unavailable .rosterChanged)
      }
  else
    let admission := admitCandidates shortlist excluded loaded
    match admission.verdict with
    | some verdict =>
        some
          {
            eligible := []
            removed := admission.removed
            verdict := some verdict
          }
    | none => do
        let entries ← admission.admitted.mapM fun skill => do
          let estimate ← estimates[skill.binding.id]?
          return (skill, estimate)
        return evaluateAdmitted entries none' fitThreshold admission.removed

end AfterRerank

end SkillRanker.Recommendation
