import Mathlib.Algebra.BigOperators.Ring.List
import Mathlib.Algebra.Ring.Nat
import Mathlib.Data.List.Sort
import SkillRanker.Evaluation.Allocations
import SkillRanker.Library.Panics

/-! The largest remainders of a proportional allocation, and its runs on the machine. -/

namespace SkillRanker.Evaluation
open SkillRanker.Library

section

-- Largest remainders

def wholeQuota (state : Apportionment) (stratum : String × Nat) : Nat :=
  state.remaining * stratum.2 / state.activePopulation

def remainder (state : Apportionment) (stratum : String × Nat) : Nat :=
  state.remaining * stratum.2 % state.activePopulation

def rankedRemainders (state : Apportionment) : List (String × Nat) :=
  (state.active.map fun stratum => (stratum.1, remainder state stratum)).mergeSort
    (scoreThenKey Prod.snd Prod.fst)

/-- How many strata get one more. -/
def spare (state : Apportionment) : Nat :=
  state.remaining - (state.active.map (wholeQuota state)).sum

theorem largestRemainders_eq (state : Apportionment)
    : largestRemainders state
      = insertAll Prod.fst (fun _ kept => kept.getD 0 + 1)
          ((rankedRemainders state).take (spare state))
          (insertAll Prod.fst (fun stratum _ => wholeQuota state stratum) state.active
            state.allocated) := by
  unfold largestRemainders insertAll rankedRemainders spare
  simp only [List.foldl_map, List.map_map]
  rfl

variable {strataSizes : List (String × Nat)} {target floor : Nat} {state : Apportionment}

theorem rankedRemainders_perm (state : Apportionment)
    : (rankedRemainders state).Perm
        (state.active.map fun stratum => (stratum.1, remainder state stratum)) :=
  List.mergeSort_perm _ _

variable {stratum : String × Nat}

theorem activePopulation_pos (populated : ∀ stratum ∈ strataSizes, stratum.2 ≠ 0)
    (funded : Funded strataSizes target floor state) (mem : stratum ∈ state.active)
    : 0 < state.activePopulation := by
  rw [funded.population]
  exact Nat.lt_of_lt_of_le (Nat.pos_of_ne_zero (populated _ (funded.active _ mem))) (le_totalOf mem)

section

variable (funded : Funded strataSizes target floor state)
include funded

/-- The quotas, taken whole, and their remainders are all that remains. -/
theorem quotas_total
    : state.activePopulation * (state.active.map (wholeQuota state)).sum
        + ((rankedRemainders state).map Prod.snd).sum
      = state.activePopulation * state.remaining := by
  have divided := sum_div_mod state.activePopulation
    (state.active.map fun stratum => state.remaining * stratum.2)
  have product : (state.active.map fun stratum => state.remaining * stratum.2).sum
      = state.activePopulation * state.remaining := by
    rw [List.sum_map_mul_left, funded.population, Nat.mul_comm]
    rfl
  have sorted : ((rankedRemainders state).map Prod.snd).sum
      = (state.active.map (remainder state)).sum := by
    rw [((rankedRemainders_perm state).map Prod.snd).sum_eq, List.map_map]
    rfl
  rw [product, List.map_map, List.map_map] at divided
  rw [sorted]
  exact divided

/-- The quotas, taken whole, do not exceed what remains. -/
theorem whole_le (positive : 0 < state.activePopulation)
    : (state.active.map (wholeQuota state)).sum ≤ state.remaining := by
  have whole := quotas_total funded
  exact Nat.le_of_mul_le_mul_left (by omega) positive

/-- There are strata for all that is spare, and each of them has a remainder. -/
theorem ranked_take (positive : 0 < state.activePopulation)
    : spare state ≤ (rankedRemainders state).length
      ∧ ∀ entry ∈ (rankedRemainders state).take (spare state), 0 < entry.2 := by
  have sorted : ((rankedRemainders state).map Prod.snd).Pairwise (· ≥ ·) := by
    refine List.pairwise_map.mpr ?_
    refine (List.pairwise_mergeSort (scoreThenKey_trans _ _) (scoreThenKey_total _ _) _).imp ?_
    intro first later above
    rcases scoreThenKey_iff.mp above with greater | same
    · exact Nat.le_of_lt greater
    · exact Nat.le_of_eq same.1.symm
  have small : ∀ rest ∈ (rankedRemainders state).map Prod.snd, rest < state.activePopulation := by
    intro rest mem
    obtain ⟨entry, listed, rfl⟩ := List.mem_map.mp mem
    obtain ⟨stratum, _, rfl⟩ := List.mem_map.mp ((rankedRemainders_perm state).mem_iff.mp listed)
    exact Nat.mod_lt _ positive
  have much : state.activePopulation * spare state
      < ((rankedRemainders state).map Prod.snd).sum + state.activePopulation := by
    have whole := quotas_total funded
    rw [spare, Nat.mul_sub]
    omega
  obtain ⟨enough, some⟩ := take_positive sorted small much
  rw [List.length_map] at enough
  refine ⟨enough, fun entry mem => ?_⟩
  rw [← List.map_take] at some
  exact some _ (List.mem_map_of_mem mem)

omit funded in
theorem active_of_ranked {many : Nat} {key : String}
    (mem : key ∈ ((rankedRemainders state).take many).map Prod.fst)
    : key ∈ state.active.map Prod.fst := by
  obtain ⟨entry, taken, rfl⟩ := List.mem_map.mp mem
  obtain ⟨stratum, active, rfl⟩ := List.mem_map.mp
    ((rankedRemainders_perm state).mem_iff.mp (List.mem_of_mem_take taken))
  exact List.mem_map.mpr ⟨stratum, active, rfl⟩

theorem ranked_distinct (many : Nat)
    : (((rankedRemainders state).take many).map Prod.fst).Nodup := by
  have all : ((rankedRemainders state).map Prod.fst).Nodup := by
    rw [((rankedRemainders_perm state).map Prod.fst).nodup_iff, List.map_map]
    exact funded.ordered.nodup
  rw [List.map_take]
  exact all.sublist (List.take_sublist _ _)

end

/-- What an active stratum gets: its quota taken whole, and perhaps one more for its remainder. -/
theorem largestRemainders_active (populated : ∀ stratum ∈ strataSizes, stratum.2 ≠ 0)
    (funded : Funded strataSizes target floor state) (mem : stratum ∈ state.active)
    : ∃ count, (largestRemainders state).lookup stratum.1 = some count
      ∧ (count = wholeQuota state stratum
        ∨ count = wholeQuota state stratum + 1 ∧ 0 < remainder state stratum) := by
  have quota := lookup_insertAll (fun stratum _ => wholeQuota state stratum) state.allocated
    funded.ordered.nodup mem
  rw [largestRemainders_eq]
  by_cases spared : stratum.1 ∈ ((rankedRemainders state).take (spare state)).map Prod.fst
  · obtain ⟨entry, taken, same⟩ := List.mem_map.mp spared
    obtain ⟨other, otherMem, rfl⟩ := List.mem_map.mp
      ((rankedRemainders_perm state).mem_iff.mp (List.mem_of_mem_take taken))
    obtain rfl := funded.ordered.eq_of_key otherMem mem same
    have raised := lookup_insertAll (fun _ kept => kept.getD 0 + 1)
      (insertAll Prod.fst (fun stratum _ => wholeQuota state stratum) state.active
        state.allocated) (ranked_distinct funded (spare state)) taken
    refine ⟨_, raised, Or.inr ⟨?_, ?_⟩⟩
    · rw [quota]
      rfl
    · exact (ranked_take funded (activePopulation_pos populated funded mem)).2 _ taken
  · exact ⟨_, (lookup_insertAll_of_notMem spared).trans quota, Or.inl rfl⟩

/-- A stratum that has its floor keeps it. -/
theorem largestRemainders_fixed (funded : Funded strataSizes target floor state)
    (sizesOrdered : Ordered strataSizes) (listed : stratum ∈ strataSizes)
    (inactive : stratum ∉ state.active)
    : (largestRemainders state).lookup stratum.1 = some (min floor stratum.2) := by
  have apart : stratum.1 ∉ state.active.map Prod.fst := by
    intro mem
    obtain ⟨other, active, same⟩ := List.mem_map.mp mem
    exact inactive (sizesOrdered.eq_of_key (funded.active other active) listed same ▸ active)
  rw [largestRemainders_eq, lookup_insertAll_of_notMem fun ranked => apart (active_of_ranked ranked),
    lookup_insertAll_of_notMem apart]
  exact funded.shared stratum listed inactive

theorem largestRemainders_ordered (funded : Funded strataSizes target floor state)
    : Ordered (largestRemainders state) := by
  rw [largestRemainders_eq]
  exact (funded.tableOrdered.insertAll _ _ _).insertAll _ _ _

theorem largestRemainders_total (sizesOrdered : Ordered strataSizes)
    (populated : ∀ stratum ∈ strataSizes, stratum.2 ≠ 0)
    (funded : Funded strataSizes target floor state)
    (room : state.remaining ≤ state.activePopulation)
    : totalOf (largestRemainders state) = target := by
  have quotas := totalOf_insertAll (fun stratum _ => wholeQuota state stratum)
    funded.ordered.nodup funded.tableOrdered
  have fresh : (state.active.map fun stratum =>
      (state.allocated.lookup stratum.1).getD 0).sum = 0 := by
    rw [List.sum_eq_zero_iff]
    intro value mem
    obtain ⟨stratum, active, rfl⟩ := List.mem_map.mp mem
    rw [funded.fresh sizesOrdered active]
    rfl
  have raised := totalOf_insertAll (fun _ kept => kept.getD 0 + 1)
    (ranked_distinct funded (spare state))
    (funded.tableOrdered.insertAll Prod.fst (fun stratum _ => wholeQuota state stratum)
      state.active)
  rw [List.sum_map_add, List.map_const', List.sum_replicate_nat, Nat.mul_one,
    List.length_take] at raised
  rw [fresh] at quotas
  change _ = _ + (state.active.map (wholeQuota state)).sum at quotas
  rw [largestRemainders_eq]
  have spent := funded.spent
  have given : (state.active.map (wholeQuota state)).sum ≤ state.remaining
      ∧ spare state ≤ (rankedRemainders state).length := by
    cases active : state.active with
    | nil =>
        have none : state.activePopulation = 0 := by
          rw [funded.population, active]
          rfl
        refine ⟨Nat.zero_le _, ?_⟩
        rw [spare]
        omega
    | cons stratum rest =>
        have positive := activePopulation_pos populated funded (active ▸ List.mem_cons_self)
        exact ⟨active ▸ whole_le funded positive, (ranked_take funded positive).1⟩
  have spared : spare state = state.remaining - (state.active.map (wholeQuota state)).sum := rfl
  omega

theorem largestRemainders_keys (sizesOrdered : Ordered strataSizes)
    (populated : ∀ stratum ∈ strataSizes, stratum.2 ≠ 0)
    (funded : Funded strataSizes target floor state)
    : (largestRemainders state).map Prod.fst = strataSizes.map Prod.fst := by
  refine (largestRemainders_ordered funded).keys_eq sizesOrdered fun key => ?_
  rw [mem_keys_iff, List.mem_map]
  refine ⟨fun found => ?_, ?_⟩
  · by_contra unlisted
    have inactive : key ∉ state.active.map Prod.fst := by
      intro mem
      obtain ⟨stratum, active, same⟩ := List.mem_map.mp mem
      exact unlisted ⟨stratum, funded.active _ active, same⟩
    rw [largestRemainders_eq,
      lookup_insertAll_of_notMem fun ranked => inactive (active_of_ranked ranked),
      lookup_insertAll_of_notMem inactive] at found
    obtain ⟨count, shared⟩ := Option.isSome_iff_exists.mp found
    obtain ⟨stratum, listed, same, _⟩ := funded.fixed key count shared
    exact unlisted ⟨stratum, listed, same⟩
  · rintro ⟨stratum, listed, rfl⟩
    by_cases active : stratum ∈ state.active
    · obtain ⟨count, found, _⟩ := largestRemainders_active populated funded active
      rw [found]
      rfl
    · rw [largestRemainders_fixed funded sizesOrdered listed active]
      rfl

end

-- The allocation as the machine runs it: an underflow, a division by zero or a missing key
-- has no result

/-- The pass of a loop that goes on from the next state, unless there is none. -/
def passTo {State Result : Type} (next : Option State) : Pass State (Option Result) :=
  match next with
  | some state => .again state
  | none => .done none

-- The machine

/-- One pass of the bisection of `allocate_sample_sizes`. -/
def levelPass (strataSizes : List (String × Nat)) (target : Nat) (bounds : Nat × Nat)
    : Pass (Nat × Nat) (Option Nat) :=
  let (low, high) := bounds
  if low < high then
    passTo do
      let gap ← checkedSub high low
      let mid := low + gap / 2 + gap % 2
      if cappedCount strataSizes mid ≤ target then return (mid, high)
      else do
        let below ← checkedSub mid 1
        return (low, below)
  else .done (some low)

def fixChecked (floor : Nat) (state : Apportionment) (stratum : String × Nat)
    : Option Apportionment := do
  let population ← state.active.lookup stratum.1
  let count := min floor population
  let remaining ← checkedSub state.remaining count
  let activePopulation ← checkedSub state.activePopulation population
  return {
    allocated := insertEntry stratum.1 count state.allocated
    active := removeEntry stratum.1 state.active
    remaining := remaining
    activePopulation := activePopulation }

def floorPass (floor : Nat) (state : Apportionment) : Pass Apportionment (Option Apportionment) :=
  let constrained := state.active.filter (state.constrained floor)
  if constrained.isEmpty then .done (some state)
  else passTo (constrained.foldlM (fixChecked floor) state)

def quotaOf (state : Apportionment) (stratum : String × Nat) : Option (String × Nat × Nat) :=
  if state.activePopulation = 0 then none
  else some (stratum.1, state.remaining * stratum.2 / state.activePopulation,
    state.remaining * stratum.2 % state.activePopulation)

def remaindersRun (state : Apportionment) : Option (List (String × Nat)) := do
  let quotas ← state.active.mapM (quotaOf state)
  let allocated := quotas.foldl (fun allocated quota => insertEntry quota.1 quota.2.1 allocated)
    state.allocated
  let spare ← checkedSub state.remaining (quotas.map fun quota => quota.2.1).sum
  let ranked := (quotas.map fun quota => (quota.1, quota.2.2)).mergeSort
    (scoreThenKey Prod.snd Prod.fst)
  (ranked.take spare).foldlM
    (fun allocated quota => do
      let count ← allocated.lookup quota.1
      return insertEntry quota.1 (count + 1) allocated)
    allocated

def explicitRun (strataSizes : List (String × Nat)) (target : Nat)
    (allocations : List (String × Nat))
    : Panicking EvaluationError (List (String × Nat)) := do
  returned (ensure (allocations.map Prod.fst = strataSizes.map Prod.fst)
    (.invalidStratumAllocation "explicit allocation keys must match represented strata"))
  let total ← allocations.foldlM
    (fun total allocation => do
      let population ← present (strataSizes.lookup allocation.1)
      returned (ensure (allocation.2 ≠ 0 ∧ allocation.2 ≤ population)
        (.invalidStratumAllocation
          "explicit allocations must be positive and within population"))
      returned (require (checkedAdd total allocation.2)
        (.invalidStratumAllocation "total explicit allocation overflows usize")))
    0
  returned (ensure (total = target)
    (.invalidStratumAllocation
      "explicit allocations must sum to the population-capped sample budget"))
  return allocations

/-- `allocate_sample_sizes` as the machine runs it. -/
def allocateRun (fuel : Nat) (strataSizes : List (String × Nat)) (totalSampleSize : Nat)
    (method : AllocationMethod)
    : Panicking EvaluationError (List (String × Nat)) := do
  returned (ensure (strataSizes ≠ [] ∧ ∀ stratum ∈ strataSizes, stratum.2 ≠ 0)
    (.invalidStratumAllocation "represented strata must have positive populations"))
  let population ← returned (totalPopulation strataSizes)
  let target := min totalSampleSize population
  match method with
  | .explicit allocations => explicitRun strataSizes target allocations
  | .equalPerStratum minFloor => do
      let floor := max minFloor 1
      returned (checkFloors strataSizes totalSampleSize target floor)
      if target = population then return strataSizes
      else do
        let largest ← present (strataSizes.map Prod.snd).max?
        let level ← ExceptT.lift
          (loop (levelPass strataSizes target) fuel (min floor largest, largest)).join
        let remaining ← present (checkedSub target (cappedCount strataSizes level))
        return fillUp level remaining strataSizes
  | .proportional minFloor => do
      let floor := max minFloor 1
      returned (checkFloors strataSizes totalSampleSize target floor)
      if target = population then return strataSizes
      else do
        let state ← present (loop (floorPass floor) fuel
          { allocated := [], active := strataSizes, remaining := target,
            activePopulation := population }).join
        present (remaindersRun state)

-- The loops come to their ends

variable {strataSizes : List (String × Nat)} {target : Nat}

/-- The bisection ends after as many passes as there are levels. -/
theorem loop_levelPass (low high fuel : Nat) (enough : high - low < fuel)
    : loop (levelPass strataSizes target) fuel (low, high)
      = some (some (commonLevel strataSizes target low high)) := by
  fun_induction commonLevel strataSizes target low high generalizing fuel with
  | case1 low high below gap mid within ih =>
      obtain ⟨fuel, rfl⟩ := Nat.exists_eq_succ_of_ne_zero (Nat.ne_zero_of_lt enough)
      have again : levelPass strataSizes target (low, high) = .again (mid, high) := by
        simp only [levelPass, if_pos below, checkedSub_eq (Nat.le_of_lt below)]
        change passTo (if cappedCount strataSizes mid ≤ target then _ else _) = _
        rw [if_pos within]
        rfl
      rw [loop_again again]
      exact ih fuel (by omega)
  | case2 low high below gap mid beyond ih =>
      obtain ⟨fuel, rfl⟩ := Nat.exists_eq_succ_of_ne_zero (Nat.ne_zero_of_lt enough)
      have again : levelPass strataSizes target (low, high) = .again (low, mid - 1) := by
        simp only [levelPass, if_pos below, checkedSub_eq (Nat.le_of_lt below)]
        change passTo (if cappedCount strataSizes mid ≤ target then _ else _) = _
        rw [if_neg beyond, checkedSub_eq (by omega)]
        rfl
      rw [loop_again again]
      exact ih fuel (by omega)
  | case3 low high done =>
      obtain ⟨fuel, rfl⟩ := Nat.exists_eq_succ_of_ne_zero (Nat.ne_zero_of_lt enough)
      exact loop_done (if_neg done)

variable {floor : Nat} {state : Apportionment}

/-- The floors of a round are given without underflow. -/
theorem foldlM_fixChecked (sizesOrdered : Ordered strataSizes)
    (funded : Funded strataSizes target floor state) {constrained : List (String × Nat)}
    (distinct : Ordered constrained) (listed : ∀ stratum ∈ constrained, stratum ∈ state.active)
    : constrained.foldlM (fixChecked floor) state
      = some (constrained.foldl (·.fix floor) state) := by
  refine foldlM_known (fun state rest => Funded strataSizes target floor state ∧ Ordered rest
    ∧ ∀ stratum ∈ rest, stratum ∈ state.active) ?_ ⟨funded, distinct, listed⟩
  rintro state stratum rest ⟨funded, distinct, listed⟩
  obtain ⟨below, restDistinct⟩ := List.pairwise_cons.mp distinct
  have mem := listed stratum List.mem_cons_self
  obtain ⟨kept, least, within⟩ := funded.fix sizesOrdered mem
  refine ⟨?_, kept, restDistinct, ?_⟩
  · have found := funded.ordered.lookup_eq_some_iff.mpr
      (show (stratum.1, stratum.2) ∈ state.active from mem)
    simp only [fixChecked, found]
    change (checkedSub state.remaining (min floor stratum.2)).bind _ = _
    rw [checkedSub_eq least]
    change (checkedSub state.activePopulation stratum.2).bind _ = _
    rw [checkedSub_eq within]
    rfl
  · intro other later
    exact mem_fix_active.mpr
      ⟨listed other (List.mem_cons_of_mem _ later), ne_of_gt (below other later)⟩

/-- The rounds of floors end after as many as there are strata. -/
theorem loop_floorPass (sizesOrdered : Ordered strataSizes) {rounds fuel : Nat}
    (funded : Funded strataSizes target floor state)
    (room : state.remaining ≤ state.activePopulation) (enough : state.active.length ≤ rounds)
    (fueled : rounds < fuel)
    : loop (floorPass floor) fuel state = some (some (fixFloors floor rounds state)) := by
  induction rounds generalizing state fuel with
  | zero =>
      obtain ⟨fuel, rfl⟩ := Nat.exists_eq_succ_of_ne_zero (Nat.ne_zero_of_lt fueled)
      have none : state.active = [] := List.eq_nil_of_length_eq_zero (Nat.le_zero.mp enough)
      refine loop_done ?_
      unfold floorPass
      rw [none]
      rfl
  | succ rounds ih =>
      obtain ⟨fuel, rfl⟩ := Nat.exists_eq_succ_of_ne_zero (Nat.ne_zero_of_lt fueled)
      unfold fixFloors
      dsimp only
      split
      · next none => exact loop_done (if_pos none)
      · next more =>
        have found : state.active.filter (state.constrained floor) ≠ [] :=
          fun empty => more (List.isEmpty_iff.mpr empty)
        obtain ⟨kept, roomy, _, shorter⟩ := funded_round sizesOrdered funded room found
        have again : floorPass floor state = .again
            ((state.active.filter (state.constrained floor)).foldl (·.fix floor) state) := by
          unfold floorPass
          dsimp only
          rw [if_neg more, foldlM_fixChecked sizesOrdered funded
            (List.Pairwise.filter _ funded.ordered) fun stratum mem => (List.mem_filter.mp mem).1]
          rfl
        rw [loop_again again]
        exact ih kept roomy (by omega) (by omega)

/-- The largest remainders are given without underflow or a division by zero. -/
theorem remaindersRun_eq (populated : ∀ stratum ∈ strataSizes, stratum.2 ≠ 0)
    (funded : Funded strataSizes target floor state)
    : remaindersRun state = some (largestRemainders state) := by
  have quotas : state.active.mapM (quotaOf state)
      = pure (state.active.map fun stratum =>
          (stratum.1, wholeQuota state stratum, remainder state stratum)) := by
    refine mapM_known fun stratum mem => ?_
    have positive := activePopulation_pos populated funded mem
    exact if_neg (Nat.ne_of_gt positive)
  have whole : (state.active.map (wholeQuota state)).sum ≤ state.remaining := by
    cases active : state.active with
    | nil => exact Nat.zero_le _
    | cons stratum rest =>
        rw [← active]
        exact whole_le funded
          (activePopulation_pos populated funded (active ▸ List.mem_cons_self))
  unfold remaindersRun
  rw [quotas]
  simp only [pure_bind, List.map_map, List.foldl_map]
  change (checkedSub state.remaining (state.active.map (wholeQuota state)).sum).bind _ = _
  rw [checkedSub_eq whole, largestRemainders_eq]
  change List.foldlM _ (insertAll Prod.fst (fun stratum _ => wholeQuota state stratum) state.active
    state.allocated) ((rankedRemainders state).take (spare state)) = _
  refine foldlM_known (fun table rest => ∀ entry ∈ rest, (table.lookup entry.1).isSome) ?_ ?_
  · intro table entry rest present
    obtain ⟨count, found⟩ := Option.isSome_iff_exists.mp (present entry List.mem_cons_self)
    refine ⟨?_, fun other mem => ?_⟩
    · rw [found]
      rfl
    · by_cases same : other.1 = entry.1
      · rw [same, lookup_insertEntry_self]
        rfl
      · rw [lookup_insertEntry_of_ne same]
        exact present other (List.mem_cons_of_mem _ mem)
  · intro entry taken
    obtain ⟨stratum, active, same⟩ :=
      List.mem_map.mp (active_of_ranked (List.mem_map_of_mem taken))
    rw [← same, lookup_insertAll _ _ funded.ordered.nodup active]
    rfl

theorem explicitRun_eq (allocations : List (String × Nat))
    : explicitRun strataSizes target allocations
      = returned (allocateExplicitly strataSizes target allocations) := by
  unfold explicitRun allocateExplicitly
  refine returned_bind fun _ sameKeys => ?_
  have keys := ensure_eq_ok.mp sameKeys
  rw [returned_foldlM]
  · refine returned_bind fun total _ => ?_
    exact returned_bind fun _ _ => rfl
  · intro allocation mem total
    have listed : allocation.1 ∈ strataSizes.map Prod.fst := by
      rw [← keys]
      exact List.mem_map_of_mem mem
    obtain ⟨population, found⟩ := Option.isSome_iff_exists.mp (mem_keys_iff.mp listed)
    rw [found, present_bind, Option.getD_some]
    exact returned_bind fun _ _ => rfl

/-- The first state of a proportional allocation. -/
theorem funded_start (sizesOrdered : Ordered strataSizes)
    (fits : cappedCount strataSizes floor ≤ target)
    : Funded strataSizes target floor
        { allocated := [], active := strataSizes, remaining := target,
          activePopulation := totalOf strataSizes } where
  ordered := sizesOrdered
  active := fun _ listed => listed
  tableOrdered := List.Pairwise.nil
  fixed := fun _ _ none => nomatch none
  shared := fun _ listed inactive => absurd listed inactive
  population := rfl
  spent := Nat.zero_add target
  floors := fits

theorem low_start
    : Apportionment.Low strataSizes floor
        { allocated := [], active := strataSizes, remaining := target,
          activePopulation := totalOf strataSizes } :=
  fun _ listed inactive => absurd listed inactive

/-- A fold whose steps add comes to the sum, by induction on the strata. -/
theorem foldlM_total {step : Nat → String × Nat → Except EvaluationError Nat}
    (adds : ∀ sum stratum next, step sum stratum = .ok next → next = sum + stratum.2)
    {start total : Nat} (ran : strataSizes.foldlM step start = .ok total)
    : total = start + totalOf strataSizes := by
  induction strataSizes generalizing start with
  | nil => exact (pure_eq_ok.mp ran).symm
  | cons stratum rest ih =>
      rw [List.foldlM_cons] at ran
      obtain ⟨sum, added, ran⟩ := bind_eq_ok.mp ran
      rw [ih ran, adds _ _ _ added, totalOf_cons, Nat.add_assoc]

theorem checkedAdd_eq_some {left right sum : Nat} (added : checkedAdd left right = some sum)
    : sum = left + right := by
  unfold checkedAdd at added
  split at added
  · exact (Option.some.inj added).symm
  · cases added

theorem totalPopulation_eq {population : Nat}
    (counted : totalPopulation strataSizes = .ok population)
    : population = totalOf strataSizes := by
  have total := foldlM_total
    (fun _ _ _ added => checkedAdd_eq_some (require_eq_ok.mp added)) counted
  rw [total, Nat.zero_add]

theorem le_foldl_max {values : List Nat} {value start : Nat} (mem : value ∈ values ∨ value ≤ start)
    : value ≤ values.foldl max start := by
  induction values generalizing start with
  | nil =>
      rcases mem with listed | below
      · cases listed
      · exact below
  | cons first rest ih =>
      rw [List.foldl_cons]
      refine ih ?_
      rcases mem with listed | below
      · rcases List.mem_cons.mp listed with rfl | later
        · exact Or.inr (Nat.le_max_right _ _)
        · exact Or.inl later
      · exact Or.inr (Nat.le_trans below (Nat.le_max_left _ _))

def largestPopulation (strataSizes : List (String × Nat)) : Nat :=
  (strataSizes.map Prod.snd).foldl max 0

theorem le_largestPopulation {stratum : String × Nat} (mem : stratum ∈ strataSizes)
    : stratum.2 ≤ largestPopulation strataSizes :=
  le_foldl_max (Or.inl (List.mem_map_of_mem mem))

theorem max?_populations (some : strataSizes ≠ [])
    : (strataSizes.map Prod.snd).max? = Option.some (largestPopulation strataSizes) := by
  cases strataSizes with
  | nil => exact absurd rfl some
  | cons first rest =>
      rw [List.map_cons, List.max?_cons', largestPopulation, List.map_cons, List.foldl_cons,
        Nat.zero_max]

/-- The level of an equal allocation fits, and one more of every stratum with room does not. -/
theorem equalLevel_spec (fits : cappedCount strataSizes floor ≤ target)
    (less : target < totalOf strataSizes)
    : cappedCount strataSizes (commonLevel strataSizes target
          (min floor (largestPopulation strataSizes)) (largestPopulation strataSizes)) ≤ target
      ∧ target - cappedCount strataSizes (commonLevel strataSizes target
          (min floor (largestPopulation strataSizes)) (largestPopulation strataSizes))
        ≤ roomAbove strataSizes (commonLevel strataSizes target
          (min floor (largestPopulation strataSizes)) (largestPopulation strataSizes)) := by
  have lowFits : cappedCount strataSizes (min floor (largestPopulation strataSizes)) ≤ target :=
    (cappedCount_mono strataSizes (Nat.min_le_left _ _)).trans fits
  obtain ⟨_, _, holds, last⟩ := commonLevel_spec strataSizes target _ _
    (Nat.min_le_right floor (largestPopulation strataSizes)) lowFits
  refine ⟨holds, ?_⟩
  rcases last with top | exceeds
  · rw [top, cappedCount_eq_total fun stratum mem => le_largestPopulation mem] at holds
    omega
  · rw [cappedCount_succ] at exceeds
    omega

/-- The machine always comes to the same end: without underflow, a division by zero, a missing key or
an endless loop.
-/
theorem allocateRun_eq (sizesOrdered : Ordered strataSizes) (totalSampleSize : Nat)
    (method : AllocationMethod) {fuel : Nat}
    (enough : largestPopulation strataSizes + strataSizes.length < fuel)
    : allocateRun fuel strataSizes totalSampleSize method
      = returned (allocateSampleSizes strataSizes totalSampleSize method) := by
  unfold allocateRun allocateSampleSizes
  refine returned_bind fun _ represented => ?_
  obtain ⟨some, populated⟩ := ensure_eq_ok.mp represented
  refine returned_bind fun population counted => ?_
  obtain rfl := totalPopulation_eq counted
  dsimp only
  cases method with
  | explicit allocations => exact explicitRun_eq allocations
  | equalPerStratum minFloor =>
      refine returned_bind fun _ covered => ?_
      have fits := ensure_eq_ok.mp covered
      split
      · rfl
      · next less =>
        obtain ⟨holds, _⟩ := equalLevel_spec fits (by omega)
        rw [max?_populations some, present_bind, loop_levelPass _ _ _ (by omega)]
        change (present (checkedSub _ _) >>= _) = _
        rw [checkedSub_eq holds]
        rfl
  | proportional minFloor =>
      refine returned_bind fun _ covered => ?_
      have fits := ensure_eq_ok.mp covered
      split
      · rfl
      · have funded := funded_start sizesOrdered fits
        have room : min totalSampleSize (totalOf strataSizes) ≤ totalOf strataSizes :=
          Nat.min_le_right _ _
        obtain ⟨fixed, _⟩ :=
          fixFloors_spec sizesOrdered funded room low_start (Nat.le_refl _)
        rw [loop_floorPass sizesOrdered funded room (Nat.le_refl _)
          (show strataSizes.length < fuel by omega)]
        change present (remaindersRun _) = _
        rw [remaindersRun_eq populated fixed]
        rfl

end SkillRanker.Evaluation
