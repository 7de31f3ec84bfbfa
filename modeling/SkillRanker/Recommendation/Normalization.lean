import SkillRanker.Learning.Monitor
import SkillRanker.Recommendation.Ranking

/-! What a ranking says about all of its candidates: the scores share out one whole, the
returned candidates come first in the order, and the order of the inputs does not matter.
-/

namespace SkillRanker.Recommendation

open SkillRanker.Library SkillRanker.Learning

variable {R : Type} [Field R] [LinearOrder R]

/-- A scored candidate by its identifier, which does not depend on its position. -/
structure Placed (R : Type) where
  id : String
  utility : R
  rankScore : R

def placed (inputs : List (Input R)) (scored : Scored R) : Placed R :=
  {
    id := idAt inputs scored.index
    utility := scored.utility
    rankScore := scored.rankScore
  }

/-- One scored candidate stands strictly before another. -/
def Precedes (first second : Placed R) : Prop :=
  second.rankScore < first.rankScore
  ∨ first.rankScore = second.rankScore ∧ first.id < second.id

/-- What `validate` asks of the inputs and the number of candidates to return. -/
structure Rankable (inputs : List (Input R)) (topK : Nat) : Prop where
  filled : inputs ≠ []
  size : 1 ≤ topK ∧ topK ≤ maxTopK
  within
    : ∀ input ∈ inputs,
        (Within input.rerank 1 ∧ Within input.fit 1) ∧ Within input.phaseMatch 1
  distinct : (inputs.map (·.id)).Nodup

/-- A ranking of the inputs: returned and omitted candidates share out one whole. -/
structure Shares (functions : LogExp R) (inputs : List (Input R)) (weights : Weights R)
    (topK : Nat) (ranking : Ranking R) (omitted : List (Scored R))
    : Prop where
  /-- No candidate is added or lost. -/
  everyone : ((ranking.returned ++ omitted).map (·.index)).Perm (List.range inputs.length)
  scored : ∀ scored ∈ ranking.returned ++ omitted, scored ∈ scores functions inputs weights
  whole : ((ranking.returned ++ omitted).map (·.rankScore)).sum = 1
  mass : (ranking.returned.map (·.rankScore)).sum + ranking.omittedMass = 1
  ordered : ((ranking.returned ++ omitted).map (placed inputs)).Pairwise Precedes
  first : ranking.returned = (ranking.returned ++ omitted).take topK
  eligible : ranking.eligible = inputs.length

variable {functions : LogExp R} {inputs permuted : List (Input R)} {weights : Weights R}
  {topK : Nat}

-- Acceptance

theorem Rankable.perm (rankable : Rankable inputs topK) (same : permuted.Perm inputs)
    : Rankable permuted topK where
  filled := by
    intro none
    rw [none] at same
    exact rankable.filled (List.nil_perm.mp same)
  size := rankable.size
  within input mem := rankable.within input (same.mem_iff.mp mem)
  distinct := (same.map _).nodup_iff.mpr rankable.distinct

def orderOf (functions : LogExp R) (inputs : List (Input R)) (weights : Weights R)
    : List (Scored R) :=
  (scores functions inputs weights).mergeSort (scoredBefore inputs)

theorem rank_ok (rankable : Rankable inputs topK)
    : rank functions inputs weights topK
      = .ok
          {
            returned := (orderOf functions inputs weights).take topK
            omittedMass :=
              (((orderOf functions inputs weights).drop topK).map (·.rankScore)).sum
            eligible := inputs.length
          } := by
  have checked : validateInputs [] inputs = .ok () :=
    validateInputs_eq_ok rankable.within rankable.distinct (fun _ _ => List.not_mem_nil)
  simp only [rank, validate]
  rw [ensure_bind rankable.filled, ensure_bind rankable.size, checked]
  rfl

-- One whole

/-- The shifted exponentials add up to something. -/
theorem totalScore_pos [IsStrictOrderedRing R] (weights : Weights R)
    (positive : ∀ x, 0 < functions.exp x)
    (filled : inputs ≠ [])
    : 0 < totalScore functions inputs weights := by
  apply List.sum_pos
  · intro score inScores
    obtain ⟨_, _, rfl⟩ := List.mem_map.mp inScores
    exact positive _
  · simpa using filled

/-- The score of a candidate, wherever it stands. -/
def placeOf (functions : LogExp R) (inputs : List (Input R)) (weights : Weights R)
    (input : Input R)
    : Placed R :=
  {
    id := input.id
    utility := utility functions input weights
    rankScore :=
      functions.exp (utility functions input weights - maxUtility functions inputs weights)
        / totalScore functions inputs weights
  }

theorem scores_placed (functions : LogExp R) (inputs : List (Input R)) (weights : Weights R)
    : (scores functions inputs weights).map (placed inputs)
      = inputs.map (placeOf functions inputs weights) := by
  rw [scores_eq]
  apply List.ext_getElem?
  intro index
  simp only [List.getElem?_map, List.getElem?_mapIdx, Option.map_map]
  cases found : inputs[index]? with
  | none => rfl
  | some input => simp [placed, scoreAt, placeOf, idAt, found]

theorem scores_sum [IsStrictOrderedRing R] (positive : ∀ x, 0 < functions.exp x)
    (filled : inputs ≠ [])
    : ((scores functions inputs weights).map (·.rankScore)).sum = 1 := by
  have total := totalScore_pos weights positive filled
  have shares : (scores functions inputs weights).map (·.rankScore)
      = (inputs.map fun input =>
          functions.exp
            (utility functions input weights - maxUtility functions inputs weights)).map
          (· / totalScore functions inputs weights) := by
    have places := congrArg (List.map Placed.rankScore)
      (scores_placed functions inputs weights)
    rw [List.map_map, List.map_map] at places
    rw [List.map_map]
    exact places
  simp only [div_eq_mul_inv] at shares
  rw [shares, List.sum_map_mul_right, List.map_id']
  exact mul_inv_cancel₀ (ne_of_gt total)

-- One order

def placedBefore : Placed R → Placed R → Bool := scoreThenKey (·.rankScore) (·.id)

theorem orderOf_placed
    : (orderOf functions inputs weights).map (placed inputs)
      = (inputs.map (placeOf functions inputs weights)).mergeSort placedBefore := by
  rw [← scores_placed]
  exact List.map_mergeSort (fun _ _ _ _ => rfl)

/-- Distinct identifiers leave no ties. -/
theorem placeOf_antisymm (distinct : (inputs.map (·.id)).Nodup)
    {first second : Placed R} (inFirst : first ∈ inputs.map (placeOf functions inputs weights))
    (inSecond : second ∈ inputs.map (placeOf functions inputs weights))
    (before : placedBefore first second = true) (after : placedBefore second first = true)
    : first = second := by
  obtain ⟨input, mem, rfl⟩ := List.mem_map.mp inFirst
  obtain ⟨other, listed, rfl⟩ := List.mem_map.mp inSecond
  have same : input.id = other.id := by
    rw [placedBefore, scoreThenKey_iff] at before after
    rcases before with above | ⟨equal, first⟩
    · rcases after with above' | ⟨equal, _⟩
      · exact absurd above' (lt_asymm above)
      · exact absurd equal (ne_of_lt above)
    · rcases after with above' | ⟨_, second⟩
      · exact absurd equal (ne_of_lt above')
      · exact le_antisymm first second
  rw [List.inj_on_of_nodup_map distinct mem listed same]

/-- Candidates stand in the order of their scores, then of their identifiers. -/
theorem orderOf_ordered (distinct : (inputs.map (·.id)).Nodup)
    : ((orderOf functions inputs weights).map (placed inputs)).Pairwise Precedes := by
  have sorted := List.pairwise_mergeSort (scoreThenKey_trans Placed.rankScore Placed.id)
    (scoreThenKey_total _ _) (inputs.map (placeOf functions inputs weights))
  have apart : ((inputs.map (placeOf functions inputs weights)).mergeSort
      placedBefore).Pairwise (fun first second => first.id ≠ second.id) := by
    have perm := (List.mergeSort_perm (inputs.map (placeOf functions inputs weights))
      placedBefore).map Placed.id
    have nodup : ((inputs.map (placeOf functions inputs weights)).map Placed.id).Nodup := by
      rw [List.map_map]
      exact distinct
    exact List.pairwise_map.mp (perm.nodup_iff.mpr nodup)
  rw [orderOf_placed]
  refine (sorted.and apart).imp ?_
  rintro first second ⟨before, differ⟩
  rcases scoreThenKey_iff.mp before with above | ⟨same, keys⟩
  · exact .inl above
  · exact .inr ⟨same, lt_of_le_of_ne keys differ⟩

/-- The largest of the utilities does not depend on their order. -/
theorem maxUtility_perm (same : permuted.Perm inputs)
    : maxUtility functions permuted weights = maxUtility functions inputs weights := by
  have utilities := same.map (fun input => utility functions input weights)
  have largest : (permuted.map fun input => utility functions input weights).max?
      = (inputs.map fun input => utility functions input weights).max? := by
    apply Option.ext
    intro value
    simp only [List.max?_eq_some_iff, utilities.mem_iff]
  rw [maxUtility, maxUtility, largest]

/-- The value of a candidate does not depend on the order of the inputs. -/
theorem placeOf_perm (same : permuted.Perm inputs)
    : placeOf functions permuted weights = placeOf functions inputs weights := by
  have total : totalScore functions permuted weights = totalScore functions inputs weights := by
    rw [totalScore, totalScore, maxUtility_perm same]
    exact (same.map _).sum_eq
  funext input
  rw [placeOf, placeOf, total, maxUtility_perm same]

theorem orderOf_perm (functions : LogExp R) (weights : Weights R)
    (distinct : (inputs.map (·.id)).Nodup) (same : permuted.Perm inputs)
    : (orderOf functions permuted weights).map (placed permuted)
      = (orderOf functions inputs weights).map (placed inputs) := by
  rw [orderOf_placed, orderOf_placed, placeOf_perm same]
  refine (mergeSort_eq_of_perm (same.map _).symm (scoreThenKey_trans _ _)
    (scoreThenKey_total _ _) ?_).symm
  intro first inFirst second inSecond
  exact placeOf_antisymm distinct inFirst inSecond

theorem scores_index (functions : LogExp R) (inputs : List (Input R)) (weights : Weights R)
    : (scores functions inputs weights).map (·.index) = List.range inputs.length := by
  rw [scores_eq]
  refine List.ext_getElem (by simp) ?_
  intro index _ _
  simp [scoreAt]

-- Rankings

/-- The first candidates of the order, and the mass of the others. -/
theorem shares_orderOf [IsStrictOrderedRing R] (positive : ∀ x, 0 < functions.exp x)
    (rankable : Rankable inputs topK)
    : Shares functions inputs weights topK
        {
          returned := (orderOf functions inputs weights).take topK
          omittedMass :=
            (((orderOf functions inputs weights).drop topK).map (·.rankScore)).sum
          eligible := inputs.length
        }
        ((orderOf functions inputs weights).drop topK) := by
  have same : (orderOf functions inputs weights).Perm (scores functions inputs weights) :=
    List.mergeSort_perm _ _
  have whole : ((orderOf functions inputs weights).map (·.rankScore)).sum = 1 :=
    (same.map _).sum_eq.trans (scores_sum positive rankable.filled)
  constructor
  case everyone =>
    rw [List.take_append_drop, ← scores_index functions inputs weights]
    exact same.map _
  case scored =>
    intro scored mem
    rw [List.take_append_drop] at mem
    exact same.mem_iff.mp mem
  case whole => rw [List.take_append_drop, whole]
  case mass => rw [← List.sum_append, ← List.map_append, List.take_append_drop, whole]
  case ordered =>
    rw [List.take_append_drop]
    exact orderOf_ordered rankable.distinct
  case first => rw [List.take_append_drop]
  case eligible => rfl

/-- Ranking: valid inputs are ranked by one order of all of them, whose scores share out one
whole and whose first candidates are returned. Permuted inputs get the same scores, order and
omitted mass.
-/
theorem rank_shares [IsStrictOrderedRing R] (positive : ∀ x, 0 < functions.exp x)
    (rankable : Rankable inputs topK)
    : ∃ ranking omitted,
        rank functions inputs weights topK = .ok ranking
        ∧ Shares functions inputs weights topK ranking omitted
        ∧ ∀ permuted,
            permuted.Perm inputs
            → ∃ other left,
                rank functions permuted weights topK = .ok other
                ∧ Shares functions permuted weights topK other left
                ∧ (other.returned ++ left).map (placed permuted)
                  = (ranking.returned ++ omitted).map (placed inputs)
                ∧ other.returned.map (placed permuted) = ranking.returned.map (placed inputs)
                ∧ other.omittedMass = ranking.omittedMass := by
  refine ⟨_, _, rank_ok rankable, shares_orderOf positive rankable, ?_⟩
  intro permuted same
  have moved := rankable.perm same
  have order := orderOf_perm functions weights rankable.distinct same
  refine ⟨_, _, rank_ok moved, shares_orderOf positive moved, ?_, ?_, ?_⟩
  · rw [List.take_append_drop, List.take_append_drop, order]
  · rw [List.map_take, List.map_take, order]
  · have scores := congrArg (fun places => ((places.drop topK).map Placed.rankScore).sum) order
    rw [← List.map_drop, ← List.map_drop, List.map_map, List.map_map] at scores
    exact scores

noncomputable def twins : List (Input ℝ) :=
  [
    { id := "b", rerank := 1, fit := 1 / 2, priorDelta := 0, phaseMatch := 0 },
    { id := "a", rerank := 1, fit := 1 / 2, priorDelta := 0, phaseMatch := 0 }
  ]

noncomputable def fitWeights : Weights ℝ where
  fit := 1
  prior := 0
  phase := 0
  within := by norm_num [Within, wFitMax, wPriorMax, wPhaseMax]

/-- One of the twins is returned, and the other is omitted with its mass. -/
theorem rank_shares_twins
    : ∃ ranking omitted,
        rank LogExp.real twins fitWeights 1 = .ok ranking
        ∧ Shares LogExp.real twins fitWeights 1 ranking omitted := by
  have rankable : Rankable twins 1 :=
    ⟨by simp [twins], by decide, by norm_num [twins, Within], by simp [twins]⟩
  obtain ⟨ranking, omitted, ranked, shares, _⟩ := rank_shares
    (show ∀ x, 0 < LogExp.real.exp x from Real.exp_pos) rankable
  exact ⟨ranking, omitted, ranked, shares⟩

end SkillRanker.Recommendation
