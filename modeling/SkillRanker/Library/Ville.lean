import Mathlib.Data.Set.Countable
import Mathlib.MeasureTheory.Function.ConditionalExpectation.PullOut
import Mathlib.Probability.Process.Filtration

/-! The inequality of Ville for a bettor with a budget. Money comes in only from the budget, every
bet is unfavourable given the past, and an alarm needs a capital of one; so the probability of
an alarm is at most what the budget is expected to have paid.
-/

namespace SkillRanker.Library

open MeasureTheory

section

variable {Ω : Type*} {m : MeasurableSpace Ω} {μ : Measure Ω} {ℱ : Filtration ℕ m}

/-- A bettor: its alarms, its capital, its stakes on the outcomes and what its budget has paid.
-/
structure Bettor (ℱ : Filtration ℕ m) (μ : Measure Ω) (alarmed : ℕ → Set Ω)
    (capital stake outcome spent : ℕ → Ω → ℝ) : Prop where
  known : ∀ time, MeasurableSet[ℱ time] (alarmed time)
  lasting : ∀ time, alarmed time ⊆ alarmed (time + 1)
  calm : alarmed 0 = ∅
  start : capital 0 = spent 0
  solvent : ∀ time ω, 0 ≤ capital time ω
  reached : ∀ time ω, ω ∈ alarmed (time + 1) → ω ∉ alarmed time → 1 ≤ capital (time + 1) ω
  paid
    : ∀ time ω,
        ω ∉ alarmed time
        → capital (time + 1) ω
          ≤ capital time ω + stake time ω * outcome time ω
            + (spent (time + 1) ω - spent time ω)
  rising : ∀ time ω, spent time ω ≤ spent (time + 1) ω
  capital_integrable : ∀ time, Integrable (capital time) μ
  spent_integrable : ∀ time, Integrable (spent time) μ
  stake_known : ∀ time, StronglyMeasurable[ℱ time] (stake time)
  stake_nonneg : ∀ time ω, 0 ≤ stake time ω
  stake_bounded : ∀ time, ∃ bound, ∀ ω, stake time ω ≤ bound
  outcome_integrable : ∀ time, Integrable (outcome time) μ
  unfavourable : ∀ time, μ[outcome time | ℱ time] ≤ᵐ[μ] 0

/-- A bounded stake on an unfavourable outcome gains nothing on what is known. -/
theorem setIntegral_stake_le {past : MeasurableSpace Ω} (coarser : past ≤ m)
    [IsProbabilityMeasure μ] {stake outcome : Ω → ℝ} (known : StronglyMeasurable[past] stake)
    (nonneg : ∀ ω, 0 ≤ stake ω) {bound : ℝ} (bounded : ∀ ω, stake ω ≤ bound)
    (integrable : Integrable outcome μ) (unfavourable : μ[outcome | past] ≤ᵐ[μ] 0) {event : Set Ω}
    (measurable : MeasurableSet[past] event)
    : ∫ ω in event, stake ω * outcome ω ∂μ ≤ 0 := by
  have limited : ∀ᵐ ω ∂μ, ‖stake ω‖ ≤ bound := by
    refine .of_forall ?_
    intro ω
    rw [Real.norm_of_nonneg (nonneg ω)]
    exact bounded ω
  have product : Integrable (stake * outcome) μ :=
    integrable.bdd_mul (known.mono coarser).aestronglyMeasurable limited
  have pulled := condExp_stronglyMeasurable_mul_of_bound coarser known integrable bound limited
  have loses : ∀ᵐ ω ∂μ, (μ[stake * outcome | past]) ω ≤ 0 := by
    filter_upwards [pulled, unfavourable] with ω same below
    rw [same]
    exact mul_nonpos_of_nonneg_of_nonpos (nonneg ω) below
  calc ∫ ω in event, stake ω * outcome ω ∂μ
      = ∫ ω in event, (μ[stake * outcome | past]) ω ∂μ :=
        (setIntegral_condExp coarser product measurable).symm
    _ ≤ 0 := setIntegral_nonpos_ae (coarser _ measurable) (loses.mono fun _ below _ => below)

section Bound

variable [IsProbabilityMeasure μ] {alarmed : ℕ → Set Ω} {capital stake outcome spent : ℕ → Ω → ℝ}

variable (bettor : Bettor ℱ μ alarmed capital stake outcome spent)
include bettor

omit [IsProbabilityMeasure μ] in
theorem Bettor.measurable (time : ℕ)
    : MeasurableSet (alarmed time) :=
  ℱ.le time _ (bettor.known time)

theorem Bettor.alarm_le (time : ℕ)
    : μ.real (alarmed (time + 1)) + ∫ ω in (alarmed (time + 1))ᶜ, capital (time + 1) ω ∂μ
      ≤ μ.real (alarmed time) + ∫ ω in (alarmed time)ᶜ, capital (time + 1) ω ∂μ := by
  have before := bettor.measurable time
  have after := bettor.measurable (time + 1)
  have integrable := bettor.capital_integrable (time + 1)
  have both : alarmed time ∪ (alarmed (time + 1) \ alarmed time) = alarmed (time + 1) :=
    Set.union_sdiff_cancel (bettor.lasting time)
  have probability
      : μ.real (alarmed (time + 1))
        = μ.real (alarmed time) + μ.real (alarmed (time + 1) \ alarmed time) := by
    rw [← measureReal_union Set.disjoint_sdiff_right (after.diff before), both]
  have others : (alarmed time)ᶜ
      = (alarmed (time + 1))ᶜ ∪ (alarmed (time + 1) \ alarmed time) := by
    ext ω
    have lasts := @bettor.lasting time ω
    simp only [Set.mem_compl_iff, Set.mem_union, Set.mem_sdiff]
    tauto
  have apart : Disjoint (alarmed (time + 1))ᶜ (alarmed (time + 1) \ alarmed time) :=
    Set.disjoint_left.mpr (fun _ outside inside => outside inside.1)
  have capitals
      : ∫ ω in (alarmed time)ᶜ, capital (time + 1) ω ∂μ
        = ∫ ω in (alarmed (time + 1))ᶜ, capital (time + 1) ω ∂μ
          + ∫ ω in alarmed (time + 1) \ alarmed time, capital (time + 1) ω ∂μ := by
    rw [others]
    exact setIntegral_union apart (after.diff before) integrable.integrableOn
      integrable.integrableOn
  have reached
      : μ.real (alarmed (time + 1) \ alarmed time)
        ≤ ∫ ω in alarmed (time + 1) \ alarmed time, capital (time + 1) ω ∂μ := by
    rw [← mul_one (μ.real _), ← smul_eq_mul, ← setIntegral_const]
    refine setIntegral_mono_on (integrable_const 1).integrableOn integrable.integrableOn
      (after.diff before) ?_
    rintro ω ⟨inside, outside⟩
    exact bettor.reached time ω inside outside
  linarith

/-- Without an alarm, only the budget is expected to add to the capital. -/
theorem Bettor.capital_le (time : ℕ)
    : ∫ ω in (alarmed time)ᶜ, capital (time + 1) ω ∂μ
      ≤ ∫ ω in (alarmed time)ᶜ, capital time ω ∂μ
        + (∫ ω, spent (time + 1) ω ∂μ - ∫ ω, spent time ω ∂μ) := by
  obtain ⟨bound, bounded⟩ := bettor.stake_bounded time
  have limited : ∀ᵐ ω ∂μ, ‖stake time ω‖ ≤ bound := by
    refine .of_forall ?_
    intro ω
    rw [Real.norm_of_nonneg (bettor.stake_nonneg time ω)]
    exact bounded ω
  have wins : Integrable (fun ω => stake time ω * outcome time ω) μ :=
    (bettor.outcome_integrable time).bdd_mul
      ((bettor.stake_known time).mono (ℱ.le time)).aestronglyMeasurable limited
  have pays : Integrable (fun ω => spent (time + 1) ω - spent time ω) μ :=
    (bettor.spent_integrable (time + 1)).sub (bettor.spent_integrable time)
  have loses :=
    setIntegral_stake_le (ℱ.le time) (bettor.stake_known time) (bettor.stake_nonneg time) bounded
      (bettor.outcome_integrable time) (bettor.unfavourable time) (bettor.known time).compl
  have payments
      : ∫ ω in (alarmed time)ᶜ, (spent (time + 1) ω - spent time ω) ∂μ
        ≤ ∫ ω, (spent (time + 1) ω - spent time ω) ∂μ :=
    setIntegral_le_integral pays
      (.of_forall (fun ω => sub_nonneg.mpr (bettor.rising time ω)))
  have held := (bettor.capital_integrable time).integrableOn (s := (alarmed time)ᶜ)
  have played
      : IntegrableOn (fun ω => capital time ω + stake time ω * outcome time ω) (alarmed time)ᶜ μ :=
    held.add wins.integrableOn
  calc ∫ ω in (alarmed time)ᶜ, capital (time + 1) ω ∂μ
      ≤ ∫ ω in (alarmed time)ᶜ, (capital time ω + stake time ω * outcome time ω
          + (spent (time + 1) ω - spent time ω)) ∂μ := by
        refine setIntegral_mono_on (bettor.capital_integrable _).integrableOn
          (played.add pays.integrableOn)
          (bettor.measurable time).compl ?_
        exact fun ω calm => bettor.paid time ω calm
    _ = ∫ ω in (alarmed time)ᶜ, capital time ω ∂μ
          + ∫ ω in (alarmed time)ᶜ, stake time ω * outcome time ω ∂μ
          + ∫ ω in (alarmed time)ᶜ, (spent (time + 1) ω - spent time ω) ∂μ := by
        rw [integral_add played pays.integrableOn, integral_add held wins.integrableOn]
    _ ≤ ∫ ω in (alarmed time)ᶜ, capital time ω ∂μ + 0
          + (∫ ω, spent (time + 1) ω ∂μ - ∫ ω, spent time ω ∂μ) := by
        rw [← integral_sub (bettor.spent_integrable (time + 1)) (bettor.spent_integrable time)]
        exact add_le_add (add_le_add_right loses _) payments
    _ = _ := by rw [add_zero]

/-- Alarms and what is left of the capital are paid by the budget, by induction on the time. -/
theorem Bettor.balance (time : ℕ)
    : μ.real (alarmed time) + ∫ ω in (alarmed time)ᶜ, capital time ω ∂μ
      ≤ ∫ ω, spent time ω ∂μ := by
  induction time with
  | zero =>
      rw [bettor.calm, bettor.start]
      simp
  | succ time ih =>
      have alarm := bettor.alarm_le time
      have capital := bettor.capital_le time
      linarith

/-- The probability of an alarm is at most what the budget is expected to have paid. -/
theorem Bettor.probability_le (time : ℕ)
    : μ.real (alarmed time) ≤ ∫ ω, spent time ω ∂μ := by
  have left : 0 ≤ ∫ ω in (alarmed time)ᶜ, capital time ω ∂μ :=
    setIntegral_nonneg (bettor.measurable time).compl (fun ω _ => bettor.solvent time ω)
  have balance := bettor.balance time
  linarith

/-- A bound on what the budget pays bounds the probability that there is ever an alarm. -/
theorem Bettor.ever_le {limit : ℝ} (limited : ∀ time ω, spent time ω ≤ limit)
    : μ.real (⋃ time, alarmed time) ≤ limit := by
  have growing : Monotone alarmed := monotone_nat_of_le_succ bettor.lasting
  have reached := tendsto_measure_iUnion_atTop (μ := μ) growing
  have finite : μ (⋃ time, alarmed time) ≠ ⊤ := measure_ne_top μ _
  have real := (ENNReal.tendsto_toReal finite).comp reached
  refine le_of_tendsto' real ?_
  intro time
  refine (bettor.probability_le time).trans ?_
  calc ∫ ω, spent time ω ∂μ
      ≤ ∫ _, limit ∂μ :=
        integral_mono (bettor.spent_integrable time) (integrable_const limit) (limited time)
    _ = limit := by simp

end Bound

end

-- The past of a process with countably many values: what is a function of it is known

variable {Ω α β : Type*} {m : MeasurableSpace Ω}

/-- The values of a process before a time, in order. -/
def past (process : ℕ → Ω → α) (time : ℕ) (ω : Ω) : List α :=
  (List.range time).map (fun earlier => process earlier ω)

theorem past_succ (process : ℕ → Ω → α) (time : ℕ) (ω : Ω)
    : past process (time + 1) ω = past process time ω ++ [process time ω] := by
  simp [past, List.range_succ]

@[simp]
theorem length_past (process : ℕ → Ω → α) (time : ℕ) (ω : Ω)
    : (past process time ω).length = time := by
  simp [past]

/-- A process with countably many values, each known after its time. -/
structure Discrete (ℱ : Filtration ℕ m) (process : ℕ → Ω → α) : Prop where
  countable : ∀ time, (Set.range (process time)).Countable
  known : ∀ time value, MeasurableSet[ℱ (time + 1)] {ω | process time ω = value}

variable {ℱ : Filtration ℕ m} {process : ℕ → Ω → α}

theorem Discrete.past_countable (discrete : Discrete ℱ process) (time : ℕ)
    : (Set.range (past process time)).Countable := by
  induction time with
  | zero =>
      refine (Set.countable_singleton ([] : List α)).mono ?_
      rintro _ ⟨ω, rfl⟩
      rfl
  | succ time ih =>
      refine (ih.image2 (discrete.countable time) (fun earlier value => earlier ++ [value])).mono ?_
      rintro _ ⟨ω, rfl⟩
      rw [past_succ]
      exact ⟨_, ⟨ω, rfl⟩, _, ⟨ω, rfl⟩, rfl⟩

theorem Discrete.past_eq_known (discrete : Discrete ℱ process) (time : ℕ) (values : List α)
    : MeasurableSet[ℱ time] {ω | past process time ω = values} := by
  induction time generalizing values with
  | zero =>
      have always : {ω : Ω | past process 0 ω = values} = {ω | [] = values} := rfl
      rw [always]
      exact MeasurableSet.const _
  | succ time ih =>
      rcases List.eq_nil_or_concat values with rfl | ⟨earlier, value, rfl⟩
      · have never : {ω | past process (time + 1) ω = []} = ∅ := by
          refine Set.eq_empty_iff_forall_notMem.mpr ?_
          intro ω same
          have length := congrArg List.length (show past process (time + 1) ω = [] from same)
          rw [length_past] at length
          exact absurd length (Nat.succ_ne_zero time)
        rw [never]
        exact @MeasurableSet.empty Ω (ℱ (time + 1))
      · have both
            : {ω | past process (time + 1) ω = earlier.concat value}
              = {ω | past process time ω = earlier} ∩ {ω | process time ω = value} := by
          ext ω
          simp [past_succ]
        rw [both]
        exact (ℱ.mono (Nat.le_succ time) _ (ih earlier)).inter (discrete.known time value)

/-- A function of the past is known in its time. -/
theorem Discrete.measurable [MeasurableSpace β] (discrete : Discrete ℱ process) (time : ℕ)
    (view : List α → β)
    : Measurable[ℱ time] (fun ω => view (past process time ω)) := by
  intro values _
  have united
      : Set.preimage (fun ω => view (past process time ω)) values
        = ⋃ earlier ∈ Set.range (past process time) ∩ {earlier | view earlier ∈ values},
            {ω | past process time ω = earlier} := by
    ext ω
    simp
  rw [united]
  refine MeasurableSet.biUnion ((discrete.past_countable time).mono Set.inter_subset_left) ?_
  intro earlier _
  exact discrete.past_eq_known time earlier

end SkillRanker.Library
