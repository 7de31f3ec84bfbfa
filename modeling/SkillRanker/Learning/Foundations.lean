import Mathlib.Algebra.Order.Field.Basic
import SkillRanker.Identity

/-! What the learning modules share: the functions of their numbers, which are exact here where
the program has floats, and their errors.
-/

namespace SkillRanker.Learning

structure LogExp (R : Type) where
  ln : R → R
  exp : R → R

def evaluationDatasetBytes : Nat := 256 * 1024 * 1024

inductive LearningError (R : Type)
  | oversizedInput (len max : Nat)
  | malformedInput (message : String)
  | splitContamination (message : String)
  | insufficientCohort (message : String)
  | notPromotable (message : String)
  | policyConflict (message : String)
  | incompatibleRevision (message : String)
  | monitorInvalid (message : String)
  | alphaBudgetExhausted (requested remaining : R)
  | storage (message : String)
deriving DecidableEq

/-- `f64::clamp`. -/
def clamp {R : Type} [LinearOrder R] (value low high : R) : R :=
  if value < low then low else if high < value then high else value

theorem clamp_of_within {R : Type} [LinearOrder R] {value low high : R} (above : low ≤ value)
    (below : value ≤ high)
    : clamp value low high = value := by
  rw [clamp, if_neg (not_lt.mpr above), if_neg (not_lt.mpr below)]

end SkillRanker.Learning
