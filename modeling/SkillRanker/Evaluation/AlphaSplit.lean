import SkillRanker.Evaluation.AlphaBudget

/-! The budget of explicit alphas is their exact sum, and an equal split is within it. -/

namespace SkillRanker.Evaluation
open SkillRanker.Library

variable {totalAlpha : Float.Model} {endpointNames : List String}

-- Exact sums

def exactSum (endpoints : List (String × Float.Model)) : ℚ :=
  (endpoints.map fun endpoint => exactValue endpoint.2).sum

variable {endpoints : List (String × Float.Model)}

/-- A sum of fractions of one denominator, by induction on them. -/
theorem exactSum_eq {one : ℚ}
    (values : ∀ endpoint ∈ endpoints, exactValue endpoint.2 = unitsOf endpoint.2 / one)
    : exactSum endpoints = unitsSum endpoints / one := by
  induction endpoints with
  | nil => simp [exactSum, unitsSum]
  | cons endpoint rest ih =>
      have others := ih fun other mem => values other (List.mem_cons_of_mem _ mem)
      unfold exactSum unitsSum at others ⊢
      rw [List.map_cons, List.map_cons, List.sum_cons, List.sum_cons, others,
        values endpoint List.mem_cons_self, Nat.cast_add, add_div]

theorem unitsSum_le_iff (total : IsFraction totalAlpha)
    (fractions : ∀ endpoint ∈ endpoints, IsFraction endpoint.2)
    : unitsSum endpoints ≤ unitsOf totalAlpha ↔ exactSum endpoints ≤ exactValue totalAlpha := by
  have positive : (0 : ℚ) < 2 ^ 1074 := pow_pos two_pos _
  have value : exactValue totalAlpha = unitsOf totalAlpha / 2 ^ 1074 := total.bits.2.2
  have sum : exactSum endpoints = unitsSum endpoints / 2 ^ 1074 :=
    exactSum_eq fun endpoint mem => (fractions endpoint mem).bits.2.2
  rw [value, sum, div_le_div_iff_of_pos_right positive, Nat.cast_le]

variable {allocations : List (String × Float.Model)} {result : MultiEndpointAlphaAllocation}

theorem exactSum_le_of_explicit (accepted : explicit totalAlpha allocations = returned (.ok result))
    : result = { totalAlpha, allocations } ∧ exactSum allocations ≤ exactValue totalAlpha := by
  obtain ⟨total, fractions, same⟩ := fractions_of_explicit accepted
  have within := ((explicit_iff total fractions).2.mp ⟨result, accepted⟩).2.2
  exact ⟨same, (unitsSum_le_iff total fractions).mp within⟩

-- Equal splits

structure Shared (endpointNames : List String) (share : Float.Model)
    (allocations : List (String × Float.Model))
    : Prop where
  given : ∀ name ∈ endpointNames, allocations.lookup name = some share
  only : ∀ endpoint ∈ allocations, endpoint.1 ∈ endpointNames ∧ endpoint.2 = share

variable {share : Float.Model}

/-- A share for one name after the other, each new, by induction on the names. -/
theorem foldlM_shares {table result : List (String × Float.Model)}
    (ran
      : endpointNames.foldlM
          (fun allocations name => do
            ensure (isBlank name = false ∧ allocations.lookup name = none)
              DesignWeightedError.invalidEndpoints
            return insertEntry name share allocations)
          table
        = .ok result)
    : (∀ name ∈ endpointNames, result.lookup name = some share)
      ∧ (∀ endpoint ∈ result,
          endpoint ∈ table ∨ endpoint.1 ∈ endpointNames ∧ endpoint.2 = share)
      ∧ ∀ name kept, table.lookup name = some kept → result.lookup name = some kept := by
  induction endpointNames generalizing table with
  | nil =>
      cases pure_eq_ok.mp ran
      exact ⟨nofun, fun _ mem => Or.inl mem, fun _ _ found => found⟩
  | cons name rest ih =>
      rw [List.foldlM_cons] at ran
      obtain ⟨next, stepped, ran⟩ := bind_eq_ok.mp ran
      obtain ⟨_, checked, stepped⟩ := bind_eq_ok.mp stepped
      have fresh := (ensure_eq_ok.mp checked).2
      cases pure_eq_ok.mp stepped
      obtain ⟨others, only, kept⟩ := ih ran
      refine ⟨?_, ?_, ?_⟩
      · intro other mem
        rcases List.mem_cons.mp mem with rfl | later
        · exact kept _ _ (lookup_insertEntry_self _ _ _)
        · exact others other later
      · intro endpoint mem
        rcases only endpoint mem with before | ⟨named, same⟩
        · rcases of_mem_insertEntry before with rfl | old
          · exact Or.inr ⟨List.mem_cons_self, rfl⟩
          · exact Or.inl old
        · exact Or.inr ⟨List.mem_cons_of_mem _ named, same⟩
      · intro other value found
        refine kept _ _ ?_
        rw [lookup_insertEntry_of_ne, found]
        rintro rfl
        rw [fresh] at found
        cases found

theorem lookup_map_value {change : Float.Model → Float.Model}
    (entries : List (String × Float.Model)) (name : String)
    : (entries.map fun entry => (entry.1, change entry.2)).lookup name
      = (entries.lookup name).map change := by
  induction entries with
  | nil => rfl
  | cons entry rest ih =>
      obtain ⟨key, value⟩ := entry
      rw [List.map_cons, List.lookup_cons, List.lookup_cons]
      dsimp only
      cases name == key with
      | true => rfl
      | false => exact ih

theorem Shared.map (shared : Shared endpointNames share allocations)
    (change : Float.Model → Float.Model)
    : Shared endpointNames (change share)
        (allocations.map fun endpoint => (endpoint.1, change endpoint.2)) where
  given := by
    intro name mem
    rw [lookup_map_value, shared.given name mem]
    rfl
  only := by
    intro endpoint mem
    obtain ⟨before, listed, rfl⟩ := List.mem_map.mp mem
    obtain ⟨named, same⟩ := shared.only before listed
    exact ⟨named, congrArg change same⟩

/-- An equal split is within its total, whatever the division rounds to. -/
theorem equalSplit_within (done : equalSplit totalAlpha endpointNames = returned (.ok result))
    : ∃ share, Shared endpointNames share result.allocations
      ∧ exactSum result.allocations ≤ exactValue totalAlpha := by
  unfold equalSplit at done
  obtain ⟨_, _, done⟩ := bind_eq_returned.mp done
  obtain ⟨_, _, done⟩ := bind_eq_returned.mp done
  obtain ⟨_, _, done⟩ := bind_eq_returned.mp done
  obtain ⟨allocations, listed, done⟩ := bind_eq_returned.mp done
  obtain ⟨given, only, _⟩ := foldlM_shares (returned_inj.mp listed)
  have shared : Shared endpointNames (totalAlpha / .ofNat endpointNames.length) allocations := by
    refine ⟨given, fun endpoint mem => ?_⟩
    rcases only endpoint mem with none | named
    · cases none
    · exact named
  split at done
  · obtain ⟨rfl, within⟩ := exactSum_le_of_explicit done
    exact ⟨_, shared.map nextDown, within⟩
  · obtain ⟨rfl, within⟩ := exactSum_le_of_explicit done
    exact ⟨_, shared, within⟩

-- The budget

/-- Every endpoint is added without an index out of bounds and without a carry that is lost. -/
theorem addAlpha_carries {before : List (String × Float.Model)} {endpoint : String × Float.Model}
    {budgetUnits allocated : List (BitVec 64)} {sum : Float.Model} (total : IsFraction totalAlpha)
    (made : alphaUnits totalAlpha = some budgetUnits)
    (fractions : ∀ earlier ∈ before, IsFraction earlier.2) (fraction : IsFraction endpoint.2)
    (ran : before.foldlM (addAlpha totalAlpha budgetUnits) (zeroWords 17, .ofNat 0)
      = returned (.ok (allocated, sum)))
    : ∃ units, alphaUnits endpoint.2 = some units ∧ (addWords allocated units).2 = false
      ∧ (addWords allocated units).1.length = 17
      ∧ wordsValue (addWords allocated units).1 = unitsSum before + unitsOf endpoint.2 := by
  obtain ⟨_, found, budgetLength, budget⟩ := alphaUnits_spec total
  obtain rfl := Option.some.inj (found.symm.trans made)
  have start : Exact [] (zeroWords 17, Float.Model.ofNat 0) :=
    ⟨by rw [zeroWords, List.length_replicate], wordsValue_zeroWords 17⟩
  have small := unitsOf_lt total
  obtain ⟨units, unitsMade, length, value⟩ := alphaUnits_spec fraction
  rcases foldlM_addAlpha start (Nat.zero_le _) (budget ▸ small) budgetLength fractions with
    ⟨fits, last, added, exact⟩ | ⟨_, error, failed⟩
  · cases returned_inj.mp (added.symm.trans ran)
    rw [List.nil_append] at fits exact
    have below : wordsValue allocated < 2 ^ 1074 := by
      rw [exact.2]
      exact Nat.lt_of_le_of_lt (budget ▸ fits) small
    obtain ⟨sumValue, carry, sumLength⟩ := addWords_alpha exact.1 below length
      (by rw [value]; exact unitsOf_lt fraction)
    refine ⟨units, unitsMade, carry, sumLength, ?_⟩
    rw [sumValue, exact.2, value]
  · cases returned_inj.mp (failed.symm.trans ran)

/-- The budget of explicit alphas is exact: endpoints with names are accepted exactly if the sum of
their alphas is at most the total. The words hold every sum on the way, and an equal split that
succeeds is of equal shares within the total.
-/
theorem alpha_budget_exact
    : (∀ totalAlpha allocations, IsFraction totalAlpha
        → (∀ endpoint ∈ allocations, IsFraction endpoint.2)
        → (∃ result, explicit totalAlpha allocations = returned result)
          ∧ ((∃ result, explicit totalAlpha allocations = returned (.ok result))
            ↔ allocations ≠ [] ∧ (∀ endpoint ∈ allocations, isBlank endpoint.1 = false)
              ∧ exactSum allocations ≤ exactValue totalAlpha)
          ∧ ∀ before endpoint after budgetUnits allocated sum,
              allocations = before ++ endpoint :: after
              → alphaUnits totalAlpha = some budgetUnits
              → before.foldlM (addAlpha totalAlpha budgetUnits) (zeroWords 17, .ofNat 0)
                = returned (.ok (allocated, sum))
              → ∃ units, alphaUnits endpoint.2 = some units
                ∧ (addWords allocated units).2 = false
                ∧ (addWords allocated units).1.length = 17
                ∧ wordsValue (addWords allocated units).1
                  = unitsSum before + unitsOf endpoint.2)
      ∧ (∀ alpha, IsFraction alpha → exactValue alpha = unitsOf alpha / 2 ^ 1074)
      ∧ ∀ totalAlpha endpointNames result,
          equalSplit totalAlpha endpointNames = returned (.ok result)
          → ∃ share, Shared endpointNames share result.allocations
            ∧ exactSum result.allocations ≤ exactValue totalAlpha := by
  refine ⟨fun totalAlpha allocations total fractions => ?_, fun alpha fraction => fraction.bits.2.2,
    fun totalAlpha endpointNames result done => equalSplit_within done⟩
  obtain ⟨ends, accepts⟩ := explicit_iff total fractions
  refine ⟨ends, ?_, ?_⟩
  · rw [accepts, unitsSum_le_iff total fractions]
  · rintro before endpoint after budgetUnits allocated sum rfl made ran
    exact addAlpha_carries total made
      (fun earlier mem => fractions earlier (List.mem_append_left _ mem))
      (fractions endpoint (List.mem_append_right _ List.mem_cons_self)) ran

def half : Float.Model := .ofBits 0x3fe0000000000000

def quarter : Float.Model := .ofBits 0x3fd0000000000000

theorem half_isFraction : IsFraction half := by decide +kernel

theorem quarter_isFraction : IsFraction quarter := by decide +kernel

theorem quarters_fractions
    : ∀ endpoint ∈ [("a", quarter), ("b", quarter)], IsFraction endpoint.2 := by
  intro endpoint mem
  rcases List.mem_cons.mp mem with first | later
  · rw [first]
    exact quarter_isFraction
  · rw [List.mem_singleton.mp later]
    exact quarter_isFraction

/-- Two quarters are accepted exactly if they are within a half. -/
theorem quarters_exact
    : (∃ result, explicit half [("a", quarter), ("b", quarter)] = returned (.ok result))
      ↔ [("a", quarter), ("b", quarter)] ≠ []
        ∧ (∀ endpoint ∈ [("a", quarter), ("b", quarter)], isBlank endpoint.1 = false)
        ∧ exactSum [("a", quarter), ("b", quarter)] ≤ exactValue half :=
  (alpha_budget_exact.1 half [("a", quarter), ("b", quarter)] half_isFraction
    quarters_fractions).2.1

/-- A total without endpoints is refused, although nothing is above it. -/
theorem empty_refused
    : ¬ ∀ totalAlpha allocations, IsFraction totalAlpha
        → (∀ endpoint ∈ allocations, IsFraction endpoint.2)
        → ((∃ result, explicit totalAlpha allocations = returned (.ok result))
          ↔ exactSum allocations ≤ exactValue totalAlpha) := by
  intro always
  have fractions : ∀ endpoint ∈ ([] : List (String × Float.Model)), IsFraction endpoint.2 := nofun
  have nothing : unitsSum [] ≤ unitsOf half := Nat.zero_le (unitsOf half)
  have within := (unitsSum_le_iff half_isFraction fractions).mp nothing
  obtain ⟨result, accepted⟩ := (always half [] half_isFraction fractions).mpr within
  have named := ((explicit_iff half_isFraction fractions).2.mp ⟨result, accepted⟩).1
  exact named rfl

end SkillRanker.Evaluation
