import SkillRanker.Jev.Codec
import SkillRanker.Roster.Options

/-! The wide stage: gates that decide whether a rerank runs, and the shortlist it runs over. -/

namespace SkillRanker.Jev

open SkillRanker.Library
open SkillRanker.Roster
open Std

def maxSize : Nat := 32

def whichKey : String := "which"

def gateSpecializedMethod : String := "gate::specialized_method"

def gateMaterialHelp : String := "gate::material_help"

def gateContextSuffices : String := "gate::context_suffices"

def phaseKey : String := "phase"

inductive WideError
  | invalidSizes
  | invalidGate
  | noCandidates
  | tooManyCandidates
  | ineligibleCandidate
  | requestTooLarge
  | redaction
  | privacy
  | codec (error : CodecError)
  | missingAnswer
deriving DecidableEq, Repr

/-- Result sizes: `top` is returned, `shortlist` is reranked. -/
structure Sizes where
  top : Nat
  shortlist : Nat
  top_pos : 1 ≤ top
  top_le : top ≤ shortlist
  shortlist_le : shortlist ≤ maxSize
deriving DecidableEq

def Sizes.new (top shortlist : Nat) : Except WideError Sizes :=
  if valid : (1 ≤ top ∧ top ≤ shortlist) ∧ shortlist ≤ maxSize then
    .ok
      {
        top := top
        shortlist := shortlist
        top_pos := valid.1.1
        top_le := valid.1.2
        shortlist_le := valid.2
      }
  else .error .invalidSizes

def Sizes.effective (sizes : Sizes) (admitted : Nat) : Nat × Nat :=
  let shortlist := min sizes.shortlist admitted
  (shortlist, min sizes.top shortlist)

def validateGate (gate : ℚ) : Except WideError ℚ :=
  if 0 ≤ gate ∧ gate ≤ 1 then .ok gate else .error .invalidGate

structure StageRequest where
  request : Request
  options : OptionMap

structure Shortlisted where
  skill : AdvisorySkill
  wideProbability : ℚ
deriving DecidableEq

inductive WideDecision
  | lowNeed
  | shortlist (candidates : List Shortlisted)
deriving DecidableEq

structure WideOutcome where
  needsSkill : ℚ
  noneProbability : ℚ
  choiceConfidence : ℚ
  phase : TreeMap String ℚ compare
  top : Nat
  decision : WideDecision
  intrinsicShortlist : List Shortlisted

def noulAnswer (response : Response) (key : String) : Except WideError ℚ :=
  match response.answers[key]? with
  | some (.noul value) => .ok value
  | _ => .error .missingAnswer

def choiceAnswer (response : Response) (key : String) : Except WideError ChoiceAnswer :=
  match response.answers[key]? with
  | some (.choice answer) => .ok answer
  | _ => .error .missingAnswer

section Wide

variable (arithmetic : Arithmetic)

def needsSkill (specializedMethod materialHelp contextSuffices : ℚ) : ℚ :=
  arithmetic.div
    (arithmetic.add (arithmetic.add specializedMethod materialHelp)
      (arithmetic.sub 1 contextSuffices))
    3

/-- Higher probabilities come first, and equal ones by skill id. -/
def ranksBefore (left right : Shortlisted) : Bool :=
  right.wideProbability < left.wideProbability
    || (left.wideProbability = right.wideProbability
      && (compare left.skill.binding.id right.skill.binding.id).isLE)

/-- The skill of an option with its normalized probability. -/
def shortlisted (which : ChoiceAnswer) (entry : String × AdvisorySkill) : Option Shortlisted :=
  (which.normalizedProbability arithmetic entry.1).map
    (fun probability => { skill := entry.2, wideProbability := probability })

/-- The candidates with their normalized probabilities, best first. -/
def rankOptions (options : OptionMap) (which : ChoiceAnswer)
    : Except WideError (List Shortlisted) := do
  let ranked ←
    require (options.entries.toList.mapM (shortlisted arithmetic which)) .missingAnswer
  return ranked.mergeSort ranksBefore

/-- `wide::evaluate`. -/
def evaluateWide (wide : StageRequest) (response : Response) (gate : ℚ) (sizes : Sizes)
    : Except WideError WideOutcome := do
  let gate ← validateGate gate
  let specializedMethod ← noulAnswer response gateSpecializedMethod
  let materialHelp ← noulAnswer response gateMaterialHelp
  let contextSuffices ← noulAnswer response gateContextSuffices
  let needs := needsSkill arithmetic specializedMethod materialHelp contextSuffices
  let which ← choiceAnswer response whichKey
  let phase ← choiceAnswer response phaseKey
  let noneProbability ← require (which.normalizedProbability arithmetic noneOption) .missingAnswer
  let (shortlistSize, top) := sizes.effective wide.options.entries.size
  let sorted ← rankOptions arithmetic wide.options which
  let ranked := sorted.take shortlistSize
  return {
    needsSkill := needs
    noneProbability := noneProbability
    choiceConfidence := which.confidence
    phase := phase.normalizedProbabilities arithmetic
    top := top
    decision := if needs < gate then .lowNeed else .shortlist ranked
    intrinsicShortlist := ranked
  }

end Wide

-- The rerank stage: estimates of the shortlisted skills, by their ids

def rerankKey : String := "rerank"

def fitKey (handle : String) : String := "fits::" ++ handle

structure Estimate where
  fit : ℚ
  rerank : ℚ
deriving DecidableEq

structure RerankOutcome where
  noneProbability : ℚ
  choiceConfidence : ℚ
  candidates : List (AdvisorySkill × Estimate)

def RerankOutcome.estimates (outcome : RerankOutcome) : TreeMap SkillId Estimate compare :=
  .ofList (outcome.candidates.map (fun entry => (entry.1.binding.id, entry.2)))

section Rerank

variable (arithmetic : Arithmetic)

def estimate (response : Response) (choice : ChoiceAnswer) (handle : String) : Option Estimate :=
  do
    let rerank ← choice.normalizedProbability arithmetic handle
    let fit ← (noulAnswer response (fitKey handle)).toOption
    return { fit := fit, rerank := rerank }

def candidate (response : Response) (choice : ChoiceAnswer) (entry : String × AdvisorySkill)
    : Option (AdvisorySkill × Estimate) :=
  (estimate arithmetic response choice entry.1).map (fun estimate => (entry.2, estimate))

/-- `rerank::evaluate`. -/
def evaluateRerank (rerank : StageRequest) (response : Response)
    : Except WideError RerankOutcome := do
  let choice ← choiceAnswer response rerankKey
  let noneProbability ← require (choice.normalizedProbability arithmetic noneOption) .missingAnswer
  let candidates ←
    require
      (rerank.options.entries.toList.mapM (candidate arithmetic response choice))
      .missingAnswer
  return {
    noneProbability := noneProbability
    choiceConfidence := choice.confidence
    candidates := candidates
  }

end Rerank

end SkillRanker.Jev
