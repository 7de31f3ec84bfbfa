import SkillRanker.Library.Ville
import SkillRanker.Learning.Monitor

/-! False alarms of the accumulator: where every unit is flagged with at most the ceiling's
probability given its past, the mixture e-value is unlikely ever to reach its threshold.
-/

namespace SkillRanker.Learning

open SkillRanker.Library
open MeasureTheory

variable {Ω : Type*} {m : MeasurableSpace Ω} {μ : Measure Ω} {ℱ : Filtration ℕ m}

structure KnownEvidence (ℱ : Filtration ℕ m) (logE : ℕ → Ω → Fin 3 → ℝ) : Prop where
  known : ∀ time index, Measurable[ℱ time] (fun ω => logE time ω index)
  bounded : ∀ time, ∃ bound, ∀ ω index, Real.exp (logE time ω index) ≤ bound

section Known

variable {logE : ℕ → Ω → Fin 3 → ℝ} {tau : ℝ}

theorem KnownEvidence.mixture_known (evidence : KnownEvidence ℱ logE) (time : ℕ)
    : Measurable[ℱ time] (fun ω => mixture (logE time ω)) := by
  refine Measurable.div_const ?_ 3
  refine Finset.measurable_fun_sum _ ?_
  intro index _
  exact Real.measurable_exp.comp (evidence.known time index)

theorem KnownEvidence.gain_known (evidence : KnownEvidence ℱ logE) (time : ℕ)
    : StronglyMeasurable[ℱ time] (fun ω => gain tau (logE time ω)) := by
  refine Measurable.stronglyMeasurable (Measurable.div_const ?_ 3)
  refine Finset.measurable_fun_sum _ ?_
  intro index _
  exact (Real.measurable_exp.comp (evidence.known time index)).mul_const _

theorem KnownEvidence.mixture_bounded (evidence : KnownEvidence ℱ logE) (time : ℕ)
    : ∃ bound, ∀ ω, mixture (logE time ω) ≤ bound := by
  obtain ⟨bound, bounded⟩ := evidence.bounded time
  refine ⟨bound, ?_⟩
  intro ω
  rw [mixture, Fin.sum_univ_three]
  linarith [bounded ω 0, bounded ω 1, bounded ω 2]

theorem KnownEvidence.gain_bounded (evidence : KnownEvidence ℱ logE) (nonneg : 0 ≤ tau)
    (below : tau < monitorAlternatives 0) (time : ℕ)
    : ∃ bound, ∀ ω, gain tau (logE time ω) ≤ bound := by
  obtain ⟨bound, bounded⟩ := evidence.bounded time
  refine ⟨gain tau (fun _ => Real.log bound), ?_⟩
  intro ω
  refine div_le_div_of_nonneg_right (Finset.sum_le_sum ?_) (by norm_num)
  intro index _
  obtain ⟨above, small⟩ := monitorAlternatives_bounds index
  have positive : 0 < bound := (Real.exp_pos _).trans_le (bounded ω index)
  rw [Real.exp_log positive]
  refine mul_le_mul_of_nonneg_right (bounded ω index) (div_nonneg (by linarith) ?_)
  exact mul_nonneg nonneg (by linarith)

theorem KnownEvidence.mixture_integrable [IsProbabilityMeasure μ]
    (evidence : KnownEvidence ℱ logE) (time : ℕ)
    : Integrable (fun ω => mixture (logE time ω)) μ := by
  obtain ⟨bound, bounded⟩ := evidence.mixture_bounded time
  have known := (evidence.mixture_known time).mono (ℱ.le time) le_rfl
  refine .of_bound known.aestronglyMeasurable bound (.of_forall ?_)
  intro ω
  rw [Real.norm_of_nonneg (mixture_nonneg _)]
  exact bounded ω

end Known

theorem odds_nonneg (tau : ℝ) (flagged : Bool) (q : ℝ) : 0 ≤ odds tau flagged q :=
  (Real.exp_pos _).le

/-- A unit multiplies an e-value by a bounded factor. -/
theorem exists_odds_le (tau : ℝ)
    : ∃ limit,
        0 ≤ limit ∧ ∀ flagged index, odds tau flagged (monitorAlternatives index) ≤ limit := by
  refine ⟨∑ index, (odds tau true (monitorAlternatives index)
    + odds tau false (monitorAlternatives index)), ?_, ?_⟩
  · exact Finset.sum_nonneg (fun _ _ => add_nonneg (odds_nonneg _ _ _) (odds_nonneg _ _ _))
  · intro flagged index
    have both
        : odds tau flagged (monitorAlternatives index)
          ≤ odds tau true (monitorAlternatives index)
            + odds tau false (monitorAlternatives index) := by
      cases flagged with
      | true => exact le_add_of_nonneg_right (odds_nonneg _ _ _)
      | false => exact le_add_of_nonneg_left (odds_nonneg _ _ _)
    refine both.trans ?_
    refine Finset.single_le_sum
      (f := fun index => odds tau true (monitorAlternatives index)
        + odds tau false (monitorAlternatives index)) ?_ (Finset.mem_univ index)
    exact fun _ _ => add_nonneg (odds_nonneg _ _ _) (odds_nonneg _ _ _)

/-- A label of a unit: harm was judged, or nothing was resolved. -/
structure Label where
  judgedHarm : Bool
  unresolved : Bool
deriving DecidableEq

def Label.flagged (label : Label) : Bool := label.judgedHarm || label.unresolved

noncomputable def CompositeRiskAccumulator.observed (start : CompositeRiskAccumulator ℝ)
    (units : ℕ → Label)
    : ℕ → CompositeRiskAccumulator ℝ
  | 0 => start
  | time + 1 =>
      ((CompositeRiskAccumulator.observed start units time).observeUnit .real
        (units time).judgedHarm (units time).unresolved).1

/-- Units that come one by one: each is known after its time, and is flagged with probability at
most `tau` given what is known before.
-/
structure UnderCeiling (ℱ : Filtration ℕ m) (μ : Measure Ω) (tau : ℝ) (units : ℕ → Ω → Label)
    : Prop where
  known : ∀ time, MeasurableSet[ℱ (time + 1)] {ω | (units time ω).flagged = true}
  ceiling
    : ∀ time, ∀ᵐ ω ∂μ, (μ[fun ω => indicator (units time ω).flagged | ℱ time]) ω ≤ tau

theorem unfavourable_of_ceiling [IsProbabilityMeasure μ] {tau : ℝ} {time : ℕ} {flag : Ω → ℝ}
    (integrable : Integrable flag μ) (ceiling : ∀ᵐ ω ∂μ, (μ[flag | ℱ time]) ω ≤ tau)
    : μ[fun ω => flag ω - tau | ℱ time] ≤ᵐ[μ] 0 := by
  have split := condExp_sub (m := ℱ time) integrable (integrable_const (μ := μ) tau)
  rw [condExp_const (ℱ.le time) tau] at split
  filter_upwards [split, ceiling] with ω same below
  refine same.trans_le ?_
  exact sub_nonpos.mpr below

section Accumulator

variable {tau alpha : ℝ} {start : CompositeRiskAccumulator ℝ} {units : ℕ → Ω → Label}

theorem withTau_ok (begun : CompositeRiskAccumulator.withTau tau alpha = .ok start)
    : (0 ≤ tau ∧ tau < monitorAlternatives 0) ∧ (0 < alpha ∧ alpha < 1)
      ∧ start.tau = tau ∧ start.alphaMonitor = alpha ∧ start.logE = fun _ => 0 := by
  simp only [CompositeRiskAccumulator.withTau, bind_eq_ok, ensure_eq_ok, pure_eq_ok] at begun
  obtain ⟨_, within, _, ⟨⟨nonneg, below⟩, nonzero⟩, rfl⟩ := begun
  exact ⟨within, ⟨lt_of_le_of_ne nonneg nonzero.symm, below⟩, rfl, rfl, rfl⟩

/-- Observing units changes neither the ceiling nor the share of alpha. -/
theorem observed_constants (start : CompositeRiskAccumulator ℝ) (units : ℕ → Label) (time : ℕ)
    : (start.observed units time).tau = start.tau
      ∧ (start.observed units time).alphaMonitor = start.alphaMonitor := by
  induction time with
  | zero => exact ⟨rfl, rfl⟩
  | succ time ih => exact ih

noncomputable def evidenceAt (start : CompositeRiskAccumulator ℝ) (units : ℕ → Ω → Label)
    (time : ℕ) (ω : Ω)
    : Fin 3 → ℝ :=
  (start.observed (fun time => units time ω) time).logE

theorem evidenceAt_succ (time : ℕ) (ω : Ω) (index : Fin 3)
    : evidenceAt start units (time + 1) ω index
      = evidenceAt start units time ω index
        + start.evidence .real (units time ω).flagged (monitorAlternatives index) := by
  obtain ⟨ceiling, _⟩ := observed_constants start (fun time => units time ω) time
  change _ + CompositeRiskAccumulator.evidence .real _ _ _ = _
  refine congrArg _ ?_
  rw [CompositeRiskAccumulator.evidence, CompositeRiskAccumulator.evidence, ceiling]
  rfl

/-- The evidence of units that are known in time is known in time, by induction on it. -/
theorem evidenceAt_known (begun : start.logE = fun _ => 0)
    (known : ∀ time, MeasurableSet[ℱ (time + 1)] {ω | (units time ω).flagged = true})
    : KnownEvidence ℱ (evidenceAt start units) where
  known time index := by
    induction time with
    | zero =>
        change Measurable[ℱ 0] (fun _ => start.logE index)
        exact measurable_const
    | succ time ih =>
        simp only [evidenceAt_succ, CompositeRiskAccumulator.evidence]
        refine (ih.mono (ℱ.mono (Nat.le_succ time)) le_rfl).add ?_
        exact Measurable.ite (known time) measurable_const measurable_const
  bounded time := by
    obtain ⟨limit, nonneg, limited⟩ := exists_odds_le start.tau
    induction time with
    | zero =>
        refine ⟨1, ?_⟩
        intro ω index
        change Real.exp (start.logE index) ≤ 1
        rw [begun, Real.exp_zero]
    | succ time ih =>
        obtain ⟨bound, bounded⟩ := ih
        refine ⟨bound * limit, ?_⟩
        intro ω index
        rw [evidenceAt_succ, Real.exp_add, exp_evidence]
        exact mul_le_mul (bounded ω index) (limited _ _) (odds_nonneg _ _ _)
          ((Real.exp_pos _).le.trans (bounded ω index))

def reachedBy (start : CompositeRiskAccumulator ℝ) (units : ℕ → Ω → Label) (time : ℕ) : Set Ω :=
  {ω | ∃ earlier ≤ time,
    start.threshold ≤ (start.observed (fun time => units time ω) earlier).mixtureEValue .real}

theorem mixtureEValue_evidenceAt (time : ℕ) (ω : Ω)
    : (start.observed (fun time => units time ω) time).mixtureEValue .real
      = mixture (evidenceAt start units time ω) :=
  mixtureEValue_real _

theorem mem_reachedBy {time : ℕ} {ω : Ω}
    : ω ∈ reachedBy start units time
      ↔ ∃ earlier ≤ time, start.threshold ≤ mixture (evidenceAt start units earlier ω) := by
  simp only [reachedBy, Set.mem_ofPred_eq, mixtureEValue_evidenceAt]

theorem threshold_le_iff (positive : 0 < alpha) (share : start.alphaMonitor = alpha) {value : ℝ}
    : start.threshold ≤ value ↔ 1 ≤ alpha * value := by
  rw [CompositeRiskAccumulator.threshold, share, div_le_iff₀ positive, mul_comm]

theorem reachedBy_known (evidence : KnownEvidence ℱ (evidenceAt start units)) (time : ℕ)
    : MeasurableSet[ℱ time] (reachedBy start units time) := by
  have united
      : reachedBy start units time
        = ⋃ earlier ∈ Set.Iic time,
            {ω | start.threshold ≤ mixture (evidenceAt start units earlier ω)} := by
    ext ω
    simp [mem_reachedBy]
  rw [united]
  refine MeasurableSet.biUnion (Set.to_countable _) ?_
  intro earlier before
  exact measurableSet_le measurable_const
    ((evidence.mixture_known earlier).mono (ℱ.mono before) le_rfl)

theorem accumulator_bettor [IsProbabilityMeasure μ]
    (begun : CompositeRiskAccumulator.withTau tau alpha = .ok start)
    (under : UnderCeiling ℱ μ tau units)
    : Bettor ℱ μ (reachedBy start units)
        (fun time ω => alpha * mixture (evidenceAt start units time ω))
        (fun time ω => alpha * gain tau (evidenceAt start units time ω))
        (fun time ω => indicator (units time ω).flagged - tau) (fun _ _ => alpha) := by
  obtain ⟨⟨nonneg, below⟩, ⟨positive, small⟩, ceiling, share, zero⟩ := withTau_ok begun
  have evidence := evidenceAt_known zero under.known
  have flags (time : ℕ) : Integrable (fun ω => indicator (units time ω).flagged) μ := by
    have known : Measurable (fun ω => indicator (units time ω).flagged) :=
      Measurable.ite (ℱ.le (time + 1) _ (under.known time)) measurable_const measurable_const
    refine .of_bound known.aestronglyMeasurable 1 (.of_forall ?_)
    intro ω
    rw [indicator]
    split <;> norm_num
  exact {
    known := reachedBy_known evidence
    lasting := by
      rintro time ω ⟨earlier, before, reached⟩
      exact ⟨earlier, Nat.le_succ_of_le before, reached⟩
    calm := by
      refine Set.eq_empty_iff_forall_notMem.mpr ?_
      intro ω reached
      obtain ⟨earlier, before, reached⟩ := mem_reachedBy.mp reached
      obtain rfl := Nat.le_zero.mp before
      have flat : evidenceAt start units 0 ω = fun _ => 0 := zero
      rw [flat, mixture_zero, threshold_le_iff positive share, mul_one] at reached
      exact absurd reached (not_le.mpr small)
    start := by
      funext ω
      have flat : evidenceAt start units 0 ω = fun _ => 0 := zero
      rw [flat, mixture_zero, mul_one]
    solvent := fun time ω => mul_nonneg positive.le (mixture_nonneg _)
    reached := by
      intro time ω inside outside
      obtain ⟨earlier, before, reached⟩ := mem_reachedBy.mp inside
      rcases Nat.le_succ_iff.mp before with sooner | rfl
      · exact absurd (mem_reachedBy.mpr ⟨earlier, sooner, reached⟩) outside
      · exact (threshold_le_iff positive share).mp reached
    paid := by
      intro time ω _
      obtain ⟨kept, _⟩ := observed_constants start (fun time => units time ω) time
      have counted :=
        count_mixture_le (start.observed (fun time => units time ω) time)
          (by rw [kept, ceiling]; exact nonneg) (by rw [kept, ceiling]; exact below)
          (units time ω).judgedHarm (units time ω).unresolved
      rw [kept, ceiling] at counted
      have step := mul_le_mul_of_nonneg_left counted positive.le
      rw [sub_self, add_zero, mul_assoc, ← mul_add]
      exact step
    rising := fun _ _ => le_rfl
    capital_integrable := fun time => (evidence.mixture_integrable time).const_mul alpha
    spent_integrable := fun _ => integrable_const alpha
    stake_known := fun time => (evidence.gain_known time).const_mul alpha
    stake_nonneg := fun time ω => mul_nonneg positive.le (gain_nonneg nonneg below _)
    stake_bounded := by
      intro time
      obtain ⟨bound, bounded⟩ := evidence.gain_bounded nonneg below time
      exact ⟨alpha * bound, fun ω => mul_le_mul_of_nonneg_left (bounded ω) positive.le⟩
    outcome_integrable := fun time => (flags time).sub (integrable_const tau)
    unfavourable := fun time => unfavourable_of_ceiling (flags time) (under.ceiling time)
  }

/-- The mixture e-value of units under the ceiling ever reaches its threshold with probability
at most `alpha`.
-/
theorem accumulator_alarm_le [IsProbabilityMeasure μ]
    (begun : CompositeRiskAccumulator.withTau tau alpha = .ok start)
    (under : UnderCeiling ℱ μ tau units)
    : μ.real
        {ω | ∃ time,
          start.threshold
          ≤ (start.observed (fun time => units time ω) time).mixtureEValue .real}
      ≤ alpha := by
  have ever
      : {ω | ∃ time,
          start.threshold
          ≤ (start.observed (fun time => units time ω) time).mixtureEValue .real}
        = ⋃ time, reachedBy start units time := by
    ext ω
    simp only [Set.mem_ofPred_eq, Set.mem_iUnion, reachedBy]
    constructor
    · rintro ⟨time, reached⟩
      exact ⟨time, time, le_rfl, reached⟩
    · rintro ⟨_, time, _, reached⟩
      exact ⟨time, reached⟩
  rw [ever]
  exact (accumulator_bettor begun under).ever_le (fun _ _ => le_rfl)

end Accumulator

end SkillRanker.Learning
