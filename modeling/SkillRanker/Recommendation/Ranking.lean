import Mathlib.Algebra.BigOperators.Group.List.Basic
import Mathlib.Algebra.Order.BigOperators.Group.List
import Mathlib.Algebra.Order.Ring.Defs
import Mathlib.Data.String.Basic
import SkillRanker.Learning.Foundations
import SkillRanker.Library.Sorting

/-! Local utility and normalization. Numbers are exact, so a sum does not depend on its order
and every number is finite.
-/

namespace SkillRanker.Recommendation

open SkillRanker.Library SkillRanker.Learning

def maxTopK : Nat := 32

inductive ScoringError
  | invalidWeight
  | invalidEstimate
  | invalidAdjustment
  | invalidTopK
  | duplicateCandidate
  | noCandidates
deriving DecidableEq, Repr

section Scores

variable {R : Type} [Field R] [LinearOrder R] (functions : LogExp R)

def epsilon : R := 1 / 10 ^ 6

def clip (x : R) : R := clamp x epsilon (1 - epsilon)

def logOdds (x : R) : R :=
  let c := clip x
  functions.ln (c / (1 - c))

def wFitMax : R := 4

def wPriorMax : R := 5 / 10

def wPhaseMax : R := 1

def Within (value max : R) : Prop := 0 ≤ value ∧ value ≤ max

instance (value max : R) : Decidable (Within value max) :=
  inferInstanceAs (Decidable (0 ≤ value ∧ value ≤ max))

structure Weights (R : Type) [Field R] [LinearOrder R] where
  fit : R
  prior : R
  phase : R
  within : Within fit wFitMax ∧ Within prior wPriorMax ∧ Within phase wPhaseMax

def Weights.new (fit prior phase : R) : Except ScoringError (Weights R) :=
  if within : Within fit wFitMax ∧ Within prior wPriorMax ∧ Within phase wPhaseMax then
    .ok ⟨fit, prior, phase, within⟩
  else .error .invalidWeight

structure Input (R : Type) where
  id : String
  rerank : R
  fit : R
  priorDelta : R
  phaseMatch : R

structure Scored (R : Type) where
  index : Nat
  utility : R
  rankScore : R

structure Ranking (R : Type) where
  returned : List (Scored R)
  omittedMass : R
  eligible : Nat

def utility (input : Input R) (weights : Weights R) : R :=
  functions.ln (clip input.rerank) + weights.fit * logOdds functions input.fit
    + weights.prior * input.priorDelta + weights.phase * input.phaseMatch

def validateInputs (seen : List String) : List (Input R) → Except ScoringError Unit
  | [] => .ok ()
  | input :: rest => do
      ensure (Within input.rerank 1 ∧ Within input.fit 1) .invalidEstimate
      ensure (Within input.phaseMatch 1) .invalidAdjustment
      ensure (input.id ∉ seen) .duplicateCandidate
      validateInputs (input.id :: seen) rest

def validate (inputs : List (Input R)) (topK : Nat) : Except ScoringError Unit := do
  ensure (inputs ≠ []) .noCandidates
  ensure (1 ≤ topK ∧ topK ≤ maxTopK) .invalidTopK
  validateInputs [] inputs

end Scores

-- Scores are normalized over every eligible candidate, and the best are returned

section Ranks

variable {R : Type} [Field R] [LinearOrder R] (functions : LogExp R)

def idAt (inputs : List (Input R)) (index : Nat) : String := ((inputs[index]?).map (·.id)).getD ""

/-- Higher scores come first, and lower identifiers among equal scores. -/
def scoredBefore (inputs : List (Input R)) : Scored R → Scored R → Bool :=
  scoreThenKey (·.rankScore) fun scored => idAt inputs scored.index

def scores (inputs : List (Input R)) (weights : Weights R) : List (Scored R) :=
  let utilities := inputs.map fun input => utility functions input weights
  let max := utilities.max?.getD 0
  let total := (utilities.map fun u => functions.exp (u - max)).sum
  utilities.mapIdx fun index u =>
    {
      index := index
      utility := u
      rankScore := functions.exp (u - max) / total
    }

/-- Scores every candidate, and returns the best and the mass left out. -/
def rank (inputs : List (Input R)) (weights : Weights R) (topK : Nat)
    : Except ScoringError (Ranking R) := do
  validate inputs topK
  let scored := (scores functions inputs weights).mergeSort (scoredBefore inputs)
  return {
    returned := scored.take topK
    omittedMass := ((scored.drop topK).map (·.rankScore)).sum
    eligible := inputs.length
  }

variable {functions} {inputs : List (Input R)} {weights : Weights R}

def Preferred (functions : LogExp R) (weights : Weights R) (input other : Input R) : Prop :=
  utility functions other weights < utility functions input weights
  ∨ utility functions other weights = utility functions input weights ∧ input.id ≤ other.id

def maxUtility (functions : LogExp R) (inputs : List (Input R)) (weights : Weights R) : R :=
  (inputs.map fun input => utility functions input weights).max?.getD 0

def totalScore (functions : LogExp R) (inputs : List (Input R)) (weights : Weights R) : R :=
  (inputs.map fun input =>
    functions.exp (utility functions input weights - maxUtility functions inputs weights)).sum

def scoreAt (functions : LogExp R) (inputs : List (Input R)) (weights : Weights R) (index : Nat)
    (input : Input R)
    : Scored R :=
  {
    index := index
    utility := utility functions input weights
    rankScore :=
      functions.exp (utility functions input weights - maxUtility functions inputs weights)
        / totalScore functions inputs weights
  }

theorem scores_eq
    : scores functions inputs weights
      = inputs.mapIdx (scoreAt functions inputs weights) := by
  unfold scores
  dsimp only
  rw [List.mapIdx_eq_iff, List.map_map]
  intro index
  simp only [List.getElem?_mapIdx, List.getElem?_map, Option.map_map]
  rfl

theorem mem_scores {scored : Scored R}
    : scored ∈ scores functions inputs weights
      ↔ ∃ index input,
          inputs[index]? = some input ∧ scored = scoreAt functions inputs weights index input := by
  rw [scores_eq, List.mem_mapIdx]
  constructor
  · rintro ⟨index, bound, rfl⟩
    exact ⟨index, inputs[index], List.getElem?_eq_getElem bound, rfl⟩
  · rintro ⟨index, input, found, rfl⟩
    obtain ⟨bound, rfl⟩ := List.getElem?_eq_some_iff.mp found
    exact ⟨index, bound, rfl⟩

/-- Where the exponential is increasing and positive, the candidate with the first score is
preferred to every other.
-/
theorem scores_order [IsStrictOrderedRing R] (increasing : StrictMono functions.exp)
    (positive : ∀ x, 0 < functions.exp x) {first : Scored R}
    (mem : first ∈ scores functions inputs weights)
    (best : ∀ other ∈ scores functions inputs weights, scoredBefore inputs first other = true)
    : ∃ input,
        inputs[first.index]? = some input
        ∧ ∀ other ∈ inputs, Preferred functions weights input other := by
  obtain ⟨index, input, found, rfl⟩ := mem_scores.mp mem
  refine ⟨input, found, ?_⟩
  intro other listed
  have total : 0 < totalScore functions inputs weights := by
    apply List.sum_pos
    · intro score inScores
      obtain ⟨_, _, rfl⟩ := List.mem_map.mp inScores
      exact positive _
    · intro none
      rw [List.map_eq_nil_iff] at none
      rw [none] at listed
      cases listed
  obtain ⟨place, found'⟩ := List.mem_iff_getElem?.mp listed
  have ids : idAt inputs index = input.id ∧ idAt inputs place = other.id := by
    simp [idAt, found, found']
  have before := best _ (mem_scores.mpr ⟨place, other, found', rfl⟩)
  simp only [scoredBefore, scoreThenKey_iff, scoreAt, ids.1, ids.2,
    div_lt_div_iff_of_pos_right total, div_left_inj' (ne_of_gt total)] at before
  rcases before with above | ⟨same, first⟩
  · exact .inl (by simpa using increasing.lt_iff_lt.mp above)
  · refine .inr ⟨?_, first⟩
    have equal := increasing.injective same
    simpa using equal.symm

/-- Inputs within their ranges and with distinct identifiers are accepted, by induction on them.
-/
theorem validateInputs_eq_ok {seen : List String}
    (within
      : ∀ input ∈ inputs,
          (Within input.rerank 1 ∧ Within input.fit 1) ∧ Within input.phaseMatch 1)
    (distinct : (inputs.map (·.id)).Nodup) (fresh : ∀ input ∈ inputs, input.id ∉ seen)
    : validateInputs seen inputs = .ok () := by
  induction inputs generalizing seen with
  | nil => rfl
  | cons input rest ih =>
      obtain ⟨unlisted, distinct⟩ := List.nodup_cons.mp distinct
      obtain ⟨estimates, phase⟩ := within input List.mem_cons_self
      have new := fresh input List.mem_cons_self
      rw [validateInputs, ensure_bind estimates, ensure_bind phase, ensure_bind new]
      apply ih (fun other mem => within other (List.mem_cons_of_mem _ mem)) distinct
      intro other mem
      rw [List.mem_cons, not_or]
      refine ⟨?_, fresh other (List.mem_cons_of_mem _ mem)⟩
      intro same
      exact unlisted (List.mem_map.mpr ⟨other, mem, same⟩)

/-- A ranking returns first the candidate that is preferred to every other. -/
theorem rank_top [IsStrictOrderedRing R] (increasing : StrictMono functions.exp)
    (positive : ∀ x, 0 < functions.exp x) {topK : Nat} {ranking : Ranking R}
    (ranked : rank functions inputs weights topK = .ok ranking)
    : ∃ top rest input,
        ranking.returned = top :: rest
        ∧ inputs[top.index]? = some input
        ∧ ∀ other ∈ inputs, Preferred functions weights input other := by
  simp only [rank, bind_eq_ok, validate, ensure_eq_ok, pure_eq_ok] at ranked
  obtain ⟨_, ⟨_, filled, _, sizes, _⟩, rfl⟩ := ranked
  cases sorted : (scores functions inputs weights).mergeSort (scoredBefore inputs) with
  | nil =>
      have none : (scores functions inputs weights).length = 0 := by
        rw [← List.length_mergeSort, sorted, List.length_nil]
      rw [scores_eq, List.length_mapIdx, List.length_eq_zero_iff] at none
      exact absurd none filled
  | cons top rest =>
      obtain ⟨mem, best⟩ :=
        head_mergeSort (scoreThenKey_trans _ _) (scoreThenKey_total _ _) sorted
      obtain ⟨input, found, preferred⟩ := scores_order increasing positive mem best
      obtain ⟨more, rfl⟩ : ∃ more, topK = more + 1 := ⟨topK - 1, by omega⟩
      exact ⟨top, rest.take more, input, by rw [List.take_succ_cons], found, preferred⟩

end Ranks

end SkillRanker.Recommendation
