import Mathlib.Algebra.Order.Field.Basic
import Mathlib.Algebra.Order.Field.Rat
import Mathlib.Data.Rat.Cast.Order
import Mathlib.Tactic.Linarith
import SkillRanker.Evaluation.AllocationRuns

/-! What every allocation is: of all strata, within floors and populations, in all the budget, and
near the quotas or near equality, by its method.
-/

namespace SkillRanker.Evaluation
open SkillRanker.Library

def AllocationMethod.floor : AllocationMethod → Nat
  | proportional minFloor => max minFloor 1
  | equalPerStratum minFloor => max minFloor 1
  | explicit _ => 1

/-- An allocation of the target over the strata: each gets its floor and at most all that it has. -/
structure Allocated (strataSizes : List (String × Nat)) (target floor : Nat)
    (allocations : List (String × Nat))
    : Prop where
  keys : allocations.map Prod.fst = strataSizes.map Prod.fst
  within : ∀ stratum ∈ strataSizes, ∃ count, allocations.lookup stratum.1 = some count
    ∧ 1 ≤ count ∧ min floor stratum.2 ≤ count ∧ count ≤ stratum.2
  total : totalOf allocations = target

/-- The counts of a proportional allocation: the strata whose quotas of what remains are below their
floors get these, and the others, whose quotas are not, are less than one away from the quotas.
-/
def NearQuotas (strataSizes : List (String × Nat)) (target floor : Nat)
    (allocations : List (String × Nat))
    : Prop :=
  ∃ unconstrained remaining,
    (∀ stratum ∈ unconstrained, stratum ∈ strataSizes)
    ∧ cappedCount (strataSizes.filter (· ∉ unconstrained)) floor + remaining = target
    ∧ (∀ stratum ∈ strataSizes, stratum ∉ unconstrained
        → remaining * stratum.2 < min floor stratum.2 * totalOf unconstrained
          ∧ allocations.lookup stratum.1 = some (min floor stratum.2))
    ∧ ∀ stratum ∈ unconstrained, ∃ count, allocations.lookup stratum.1 = some count
        ∧ min floor stratum.2 * totalOf unconstrained ≤ remaining * stratum.2
        ∧ |(count : ℚ) - (remaining * stratum.2 : ℚ) / totalOf unconstrained| < 1

/-- The counts of an equal allocation: any two strata below their populations get almost the same. -/
def NearEqual (strataSizes allocations : List (String × Nat)) : Prop :=
  ∀ stratum ∈ strataSizes, ∀ other ∈ strataSizes, ∀ count otherCount,
    allocations.lookup stratum.1 = some count → allocations.lookup other.1 = some otherCount
    → count < stratum.2 → otherCount < other.2
    → count ≤ otherCount + 1 ∧ otherCount ≤ count + 1

variable {strataSizes allocations : List (String × Nat)} {totalSampleSize target leastCount : Nat}

-- Explicit allocations and censuses

theorem census_allocated (ordered : Ordered strataSizes)
    (populated : ∀ stratum ∈ strataSizes, stratum.2 ≠ 0) (floor : Nat)
    : Allocated strataSizes (totalOf strataSizes) floor strataSizes where
  keys := rfl
  within := fun stratum mem => ⟨stratum.2, ordered.lookup_eq_some_iff.mpr mem,
    Nat.one_le_iff_ne_zero.mpr (populated stratum mem), Nat.min_le_right _ _, Nat.le_refl _⟩
  total := rfl

variable {given : List (String × Nat)}

theorem explicit_allocated (ordered : Ordered strataSizes)
    (done : allocateExplicitly strataSizes target given = .ok allocations)
    : Allocated strataSizes target 1 allocations := by
  unfold allocateExplicitly at done
  obtain ⟨_, sameKeys, done⟩ := bind_eq_ok.mp done
  obtain ⟨total, counted, done⟩ := bind_eq_ok.mp done
  obtain ⟨_, reached, done⟩ := bind_eq_ok.mp done
  have same := pure_eq_ok.mp done
  subst same
  have keys := ensure_eq_ok.mp sameKeys
  obtain rfl := ensure_eq_ok.mp reached
  refine ⟨keys, fun stratum mem => ?_, ?_⟩
  · have listed : stratum.1 ∈ given.map Prod.fst := by
      rw [keys]
      exact List.mem_map_of_mem mem
    obtain ⟨allocation, allocated, same⟩ := List.mem_map.mp listed
    obtain ⟨_, _, checked⟩ := of_mem_foldlM counted allocated
    obtain ⟨_, bounds, _⟩ := bind_eq_ok.mp checked
    obtain ⟨some, within⟩ := ensure_eq_ok.mp bounds
    have population : strataSizes.lookup stratum.1 = Option.some stratum.2 :=
      ordered.lookup_eq_some_iff.mpr mem
    rw [same, population, Option.getD_some] at within
    have found := (ordered_of_keys ordered keys).lookup_eq_some_iff.mpr
      (show (allocation.1, allocation.2) ∈ given from allocated)
    rw [same] at found
    exact ⟨_, found, Nat.one_le_iff_ne_zero.mpr some,
      (Nat.min_le_left _ _).trans (Nat.one_le_iff_ne_zero.mpr some), within⟩
  · have added := foldlM_total (fun _ _ _ stepped =>
      let ⟨_, _, sum⟩ := bind_eq_ok.mp stepped
      checkedAdd_eq_some (require_eq_ok.mp sum)) counted
    rw [added, Nat.zero_add]

theorem equal_allocated (ordered : Ordered strataSizes)
    (populated : ∀ stratum ∈ strataSizes, stratum.2 ≠ 0) {floor level : Nat} (some : 1 ≤ floor)
    (atLeast : min floor (largestPopulation strataSizes) ≤ level)
    (holds : cappedCount strataSizes level ≤ target)
    (room : target - cappedCount strataSizes level ≤ roomAbove strataSizes level)
    : Allocated strataSizes target floor
        (fillUp level (target - cappedCount strataSizes level) strataSizes)
      ∧ NearEqual strataSizes
        (fillUp level (target - cappedCount strataSizes level) strataSizes) := by
  have keys := fillUp_keys level (target - cappedCount strataSizes level) strataSizes
  have filled : ∀ stratum ∈ strataSizes, ∃ count,
      (fillUp level (target - cappedCount strataSizes level) strataSizes).lookup stratum.1
        = Option.some count
      ∧ (count = min stratum.2 level ∨ count = level + 1 ∧ level < stratum.2) := by
    intro stratum mem
    obtain ⟨count, listed, filled⟩ :=
      exists_fillUp level (target - cappedCount strataSizes level) mem
    exact ⟨count, (ordered_of_keys ordered keys).lookup_eq_some_iff.mpr listed, filled⟩
  refine ⟨⟨keys, fun stratum mem => ?_, ?_⟩, ?_⟩
  · obtain ⟨count, found, filled⟩ := filled stratum mem
    have positive := populated stratum mem
    have largest := le_largestPopulation mem
    exact ⟨count, found, by omega, by omega, by omega⟩
  · rw [totalOf_fillUp room]
    omega
  · intro stratum mem other otherMem count otherCount found otherFound below otherBelow
    obtain ⟨_, same, one⟩ := filled stratum mem
    obtain ⟨_, otherSame, two⟩ := filled other otherMem
    obtain rfl := Option.some.inj (found.symm.trans same)
    obtain rfl := Option.some.inj (otherFound.symm.trans otherSame)
    omega

-- Proportional allocations

variable {state : Apportionment}

/-- The shares are the floors of the strata that are not active. -/
theorem cappedCount_fixed (ordered : Ordered strataSizes) {floor : Nat}
    (funded : Funded strataSizes target floor state)
    : cappedCount (strataSizes.filter (· ∉ state.active)) floor + state.remaining = target := by
  have table : state.allocated
      = (strataSizes.filter (· ∉ state.active)).map
          fun stratum => (stratum.1, min floor stratum.2) := by
    refine funded.tableOrdered.ext ?_ fun entry => ?_
    · exact List.Pairwise.map _ (fun _ _ below => below) (List.Pairwise.filter _ ordered)
    · rw [List.mem_map]
      refine ⟨fun mem => ?_, ?_⟩
      · have found := funded.tableOrdered.lookup_eq_some_iff.mpr
          (show (entry.1, entry.2) ∈ state.allocated from mem)
        obtain ⟨stratum, listed, same, inactive, value⟩ := funded.fixed _ _ found
        refine ⟨stratum, List.mem_filter.mpr ⟨listed, decide_eq_true inactive⟩, ?_⟩
        exact Prod.ext same value.symm
      · rintro ⟨stratum, mem, rfl⟩
        obtain ⟨listed, inactive⟩ := List.mem_filter.mp mem
        exact mem_of_lookup (funded.shared stratum listed (of_decide_eq_true inactive))
  have total : totalOf state.allocated
      = cappedCount (strataSizes.filter (· ∉ state.active)) floor := by
    rw [table, totalOf, List.map_map, cappedCount]
    exact congrArg List.sum (List.map_congr_left fun stratum _ => Nat.min_comm _ _)
  rw [← total]
  exact funded.spent

/-- A count that is less than a divisor away from a number of divisors is near the quotient. -/
theorem abs_sub_div_lt_one {count number divisor : Nat} (positive : 0 < divisor)
    (above : count * divisor < number + divisor) (below : number < count * divisor + divisor)
    : |(count : ℚ) - (number : ℚ) / divisor| < 1 := by
  have divides : (0 : ℚ) < divisor := Nat.cast_pos.mpr positive
  have upper : (count : ℚ) * divisor < number + divisor := by exact_mod_cast above
  have lower : (number : ℚ) < count * divisor + divisor := by exact_mod_cast below
  have split : (count : ℚ) - (number : ℚ) / divisor = (count * divisor - number) / divisor := by
    rw [sub_div, mul_div_assoc, div_self (ne_of_gt divides), mul_one]
  rw [split, abs_div, abs_of_pos divides, div_lt_one divides, abs_lt]
  exact ⟨by linarith, by linarith⟩

/-- An apportionment whose floors are all given is completed by the largest remainders. -/
theorem proportional_allocated (ordered : Ordered strataSizes)
    (populated : ∀ stratum ∈ strataSizes, stratum.2 ≠ 0) {floor : Nat} (some : 1 ≤ floor)
    (funded : Funded strataSizes target floor state)
    (room : state.remaining ≤ state.activePopulation) (low : state.Low strataSizes floor)
    (above : ∀ stratum ∈ state.active, state.constrained floor stratum = false)
    : Allocated strataSizes target floor (largestRemainders state)
      ∧ NearQuotas strataSizes target floor (largestRemainders state) := by
  have covered : ∀ stratum ∈ state.active,
      min floor stratum.2 * state.activePopulation ≤ state.remaining * stratum.2 := by
    intro stratum mem
    simpa [Apportionment.constrained] using above stratum mem
  have divided : ∀ stratum, state.activePopulation * wholeQuota state stratum
      + remainder state stratum = state.remaining * stratum.2 :=
    fun stratum => Nat.div_add_mod _ _
  refine ⟨⟨largestRemainders_keys ordered populated funded, fun stratum listed => ?_,
    largestRemainders_total ordered populated funded room⟩, state.active, state.remaining,
    funded.active, cappedCount_fixed ordered funded,
    fun stratum listed inactive => ⟨?_, largestRemainders_fixed funded ordered listed inactive⟩,
    fun stratum active => ?_⟩
  · have stratumSome := populated stratum listed
    by_cases active : stratum ∈ state.active
    · obtain ⟨count, found, quota⟩ := largestRemainders_active populated funded active
      have positive := activePopulation_pos populated funded active
      have least : min floor stratum.2 ≤ wholeQuota state stratum :=
        (Nat.le_div_iff_mul_le positive).mpr (covered stratum active)
      have most : state.remaining * stratum.2 ≤ state.activePopulation * stratum.2 :=
        Nat.mul_le_mul_right _ room
      have product := divided stratum
      have whole : wholeQuota state stratum ≤ stratum.2 :=
        Nat.le_of_mul_le_mul_left (by omega) positive
      refine ⟨count, found, by omega, by omega, ?_⟩
      rcases quota with rfl | ⟨rfl, left⟩
      · exact whole
      · exact Nat.lt_of_mul_lt_mul_left (a := state.activePopulation) (by omega)
    · exact ⟨_, largestRemainders_fixed funded ordered listed active, by omega, Nat.le_refl _,
        Nat.min_le_right _ _⟩
  · rw [← funded.population]
    exact of_decide_eq_true (low stratum listed inactive)
  · obtain ⟨count, found, quota⟩ := largestRemainders_active populated funded active
    have positive := activePopulation_pos populated funded active
    have product := divided stratum
    have small : remainder state stratum < state.activePopulation := Nat.mod_lt _ positive
    rw [← funded.population]
    refine ⟨count, found, covered stratum active, ?_⟩
    have near : count * state.activePopulation
          < state.remaining * stratum.2 + state.activePopulation
        ∧ state.remaining * stratum.2
          < count * state.activePopulation + state.activePopulation := by
      rw [Nat.mul_comm count]
      rcases quota with rfl | ⟨rfl, left⟩
      · omega
      · rw [Nat.mul_succ]
        omega
    simpa using abs_sub_div_lt_one positive near.1 near.2

theorem census_nearQuotas (ordered : Ordered strataSizes)
    (populated : ∀ stratum ∈ strataSizes, stratum.2 ≠ 0) (floor : Nat)
    : NearQuotas strataSizes (totalOf strataSizes) floor strataSizes := by
  refine ⟨strataSizes, totalOf strataSizes, fun _ mem => mem, ?_,
    fun _ mem unlisted => absurd mem unlisted, fun stratum mem => ?_⟩
  · have none : strataSizes.filter (· ∉ strataSizes) = [] := by
      rw [List.filter_eq_nil_iff]
      intro stratum mem
      simpa using mem
    rw [none]
    exact Nat.zero_add _
  · have positive : 0 < totalOf strataSizes :=
      Nat.lt_of_lt_of_le (Nat.pos_of_ne_zero (populated stratum mem)) (le_totalOf mem)
    refine ⟨stratum.2, ordered.lookup_eq_some_iff.mpr mem, ?_, ?_⟩
    · rw [Nat.mul_comm]
      exact Nat.mul_le_mul_left _ (Nat.min_le_right _ _)
    · have quota : |((stratum.2 : Nat) : ℚ)
          - ((totalOf strataSizes * stratum.2 : Nat) : ℚ) / totalOf strataSizes| < 1 := by
        refine abs_sub_div_lt_one positive ?_ ?_
        all_goals
          rw [Nat.mul_comm]
          omega
      simpa using quota

-- All methods

variable {error : EvaluationError}

/-- Populations that a word holds are counted, by induction on the strata. -/
theorem foldlM_counts {start : Nat} (fits : start + totalOf strataSizes ≤ u64Max)
    : ∃ total, strataSizes.foldlM (fun sum stratum => require (checkedAdd sum stratum.2) error) start
        = .ok total := by
  induction strataSizes generalizing start with
  | nil => exact ⟨start, rfl⟩
  | cons stratum rest ih =>
      rw [totalOf_cons] at fits
      have added : checkedAdd start stratum.2 = some (start + stratum.2) := if_pos (by omega)
      rw [List.foldlM_cons, added]
      exact ih (by omega)

/-- An explicit allocation that is refused does not fit. -/
theorem explicit_fails (failed : allocateExplicitly strataSizes target given = .error error)
    : ∃ message, error = .invalidStratumAllocation message := by
  unfold allocateExplicitly at failed
  rcases bind_eq_error.mp failed with keys | ⟨_, _, failed⟩
  · exact ⟨_, (ensure_eq_error.mp keys).2.symm⟩
  rcases bind_eq_error.mp failed with counted | ⟨_, _, failed⟩
  · obtain ⟨_, allocation, _, stepped⟩ := foldlM_eq_error counted
    rcases bind_eq_error.mp stepped with bounds | ⟨_, _, sum⟩
    · exact ⟨_, (ensure_eq_error.mp bounds).2.symm⟩
    · exact ⟨_, (require_eq_error.mp sum).2.symm⟩
  rcases bind_eq_error.mp failed with reached | ⟨_, _, failed⟩
  · exact ⟨_, (ensure_eq_error.mp reached).2.symm⟩
  · cases failed

variable {method : AllocationMethod}

/-- An allocation fails only where there is no stratum, where a word does not hold the populations,
where an explicit one does not fit, or where the budget does not cover the floors.
-/
theorem allocateSampleSizes_fails (populated : ∀ stratum ∈ strataSizes, stratum.2 ≠ 0)
    (failed : allocateSampleSizes strataSizes totalSampleSize method = .error error)
    : (∃ message, error = .invalidStratumAllocation message)
        ∧ (strataSizes = [] ∨ u64Max < totalOf strataSizes ∨ ∃ given, method = .explicit given)
      ∨ error = .insufficientSampleBudgetForStrata totalSampleSize
            (cappedCount strataSizes method.floor)
          ∧ min totalSampleSize (totalOf strataSizes) < cappedCount strataSizes method.floor := by
  unfold allocateSampleSizes at failed
  rcases bind_eq_error.mp failed with represented | ⟨_, _, failed⟩
  · obtain ⟨refused, rfl⟩ := ensure_eq_error.mp represented
    refine Or.inl ⟨⟨_, rfl⟩, Or.inl ?_⟩
    by_contra some
    exact refused ⟨some, populated⟩
  rcases bind_eq_error.mp failed with uncounted | ⟨population, counted, failed⟩
  · obtain ⟨_, _, _, stepped⟩ := foldlM_eq_error uncounted
    refine Or.inl ⟨⟨_, (require_eq_error.mp stepped).2.symm⟩, Or.inr (Or.inl ?_)⟩
    by_contra fits
    obtain ⟨total, counted⟩ := foldlM_counts (show 0 + totalOf strataSizes ≤ u64Max by omega)
    exact nomatch uncounted.symm.trans counted
  obtain rfl := totalPopulation_eq counted
  have short {floor : Nat}
      (uncovered : checkFloors strataSizes totalSampleSize
        (min totalSampleSize (totalOf strataSizes)) floor = .error error)
      : error = .insufficientSampleBudgetForStrata totalSampleSize (cappedCount strataSizes floor)
        ∧ min totalSampleSize (totalOf strataSizes) < cappedCount strataSizes floor := by
    obtain ⟨exceeds, same⟩ := ensure_eq_error.mp uncovered
    exact ⟨same.symm, not_le.mp exceeds⟩
  cases method with
  | explicit given =>
      exact Or.inl ⟨explicit_fails failed, Or.inr (Or.inr ⟨given, rfl⟩)⟩
  | equalPerStratum minFloor =>
      rcases bind_eq_error.mp failed with uncovered | ⟨_, _, failed⟩
      · exact Or.inr (short uncovered)
      · split at failed <;> cases failed
  | proportional minFloor =>
      rcases bind_eq_error.mp failed with uncovered | ⟨_, _, failed⟩
      · exact Or.inr (short uncovered)
      · split at failed <;> cases failed

theorem allocateSampleSizes_done (ordered : Ordered strataSizes)
    (done : allocateSampleSizes strataSizes totalSampleSize method = .ok allocations)
    : Allocated strataSizes (min totalSampleSize (totalOf strataSizes)) method.floor allocations
      ∧ (∀ minFloor, method = .proportional minFloor
          → NearQuotas strataSizes (min totalSampleSize (totalOf strataSizes)) method.floor
            allocations)
      ∧ (∀ minFloor, method = .equalPerStratum minFloor → NearEqual strataSizes allocations) := by
  unfold allocateSampleSizes at done
  obtain ⟨_, represented, done⟩ := bind_eq_ok.mp done
  obtain ⟨_, populated⟩ := ensure_eq_ok.mp represented
  obtain ⟨population, counted, done⟩ := bind_eq_ok.mp done
  obtain rfl := totalPopulation_eq counted
  cases method with
  | explicit given => exact ⟨explicit_allocated ordered done, nofun, nofun⟩
  | equalPerStratum minFloor =>
      obtain ⟨_, covered, done⟩ := bind_eq_ok.mp done
      have fits := ensure_eq_ok.mp covered
      split at done
      · next whole =>
        cases pure_eq_ok.mp done
        rw [whole]
        refine ⟨census_allocated ordered populated _, nofun, ?_⟩
        intro _ _ stratum mem other _ count _ found _ below _
        obtain rfl := Option.some.inj (found.symm.trans (ordered.lookup_eq_some_iff.mpr mem))
        exact absurd below (Nat.lt_irrefl _)
      · next less =>
        cases pure_eq_ok.mp done
        obtain ⟨holds, room⟩ := equalLevel_spec fits (by omega)
        obtain ⟨allocated, equal⟩ := equal_allocated ordered populated
          (Nat.le_max_right minFloor 1) (commonLevel_spec strataSizes _ _ _
            (Nat.min_le_right _ _) ((cappedCount_mono strataSizes (Nat.min_le_left _ _)).trans
              fits)).1 holds room
        exact ⟨allocated, nofun, fun _ _ => equal⟩
  | proportional minFloor =>
      obtain ⟨_, covered, done⟩ := bind_eq_ok.mp done
      have fits := ensure_eq_ok.mp covered
      split at done
      · next whole =>
        cases pure_eq_ok.mp done
        rw [whole]
        exact ⟨census_allocated ordered populated _,
          fun _ _ => census_nearQuotas ordered populated _, nofun⟩
      · cases pure_eq_ok.mp done
        obtain ⟨fixed, room, low, above⟩ := fixFloors_spec ordered (funded_start ordered fits)
          (Nat.min_le_right _ _) low_start (Nat.le_refl _)
        obtain ⟨allocated, near⟩ := proportional_allocated ordered populated
          (Nat.le_max_right minFloor 1) fixed room low above
        exact ⟨allocated, fun _ _ => near, nofun⟩

end SkillRanker.Evaluation
