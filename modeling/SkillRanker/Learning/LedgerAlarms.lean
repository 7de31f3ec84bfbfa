import Mathlib.Order.CompletePartialOrder
import Mathlib.Probability.Distributions.Bernoulli
import SkillRanker.Learning.FalseAlarms
import SkillRanker.Learning.FreshUnits

/-! False alarms of the whole ledger: the probability of any alarm, in any of its epochs, is at
most the alpha that is expected to be spent on them.
-/

namespace SkillRanker.Learning

open SkillRanker.Library
open MeasureTheory

/-- What a ledger keeps for its bets. -/
structure StakeKept (ledger : MonitorLedgerState ℝ) : Prop where
  ceiling : ledger.tau = defaultMonitorTau
  share : 0 < ledger.currentEpochAlpha
  spent : ledger.currentEpochAlpha ≤ ledger.alphaSpent

def takenUnit (step : LedgerStep ℝ) : ℝ := indicator (contribution step).isSome

def flaggedUnit (step : LedgerStep ℝ) : ℝ :=
  match step.event with
  | .recordUnit unit =>
      indicator ((contribution step).isSome && (unit.judgedHarm || unit.unresolved))
  | .startNewEpoch _ _ => 0

noncomputable def MonitorLedgerState.capital (ledger : MonitorLedgerState ℝ) : ℝ :=
  ledger.currentEpochAlpha * mixture ledger.logE

noncomputable def MonitorLedgerState.stake (ledger : MonitorLedgerState ℝ) : ℝ :=
  ledger.currentEpochAlpha * gain ledger.tau ledger.logE

section Step

variable {ledger after : MonitorLedgerState ℝ} {operation : MonitorOperation ℝ}
  {result : Except (LearningError ℝ) Unit}

variable (ledger)

/-- What observing a unit takes over from the accumulator. -/
theorem observed_evidence (unit : FinalizedMonitorUnit)
    : (ledger.observed .real unit).logE
        = (ledger.accumulator.count .real unit.judgedHarm unit.unresolved).logE
      ∧ (ledger.observed .real unit).tau = ledger.tau
      ∧ (ledger.observed .real unit).currentEpochAlpha = ledger.currentEpochAlpha
      ∧ ((ledger.observed .real unit).alarmTriggered = true
        → ledger.alarmTriggered = true
          ∨ 1 / ledger.currentEpochAlpha
            ≤ mixture (ledger.accumulator.count .real unit.judgedHarm unit.unresolved).logE) := by
  have compared
      : (ledger.accumulator.observeUnit .real unit.judgedHarm unit.unresolved).1.alarmTriggered
        = (ledger.alarmTriggered
          || decide (1 / ledger.currentEpochAlpha
            ≤ mixture
              (ledger.accumulator.count .real unit.judgedHarm unit.unresolved).logE)) := by
    rw [← mixtureEValue_real]
    rfl
  cases alarmed
    : (ledger.accumulator.observeUnit .real unit.judgedHarm unit.unresolved).1.alarmTriggered
  with
  | false =>
      rw [alarmed] at compared
      simp only [MonitorLedgerState.observed, alarmed, Bool.false_eq_true, if_false]
      refine ⟨rfl, rfl, rfl, ?_⟩
      exact .inl
  | true =>
      rw [alarmed] at compared
      simp only [MonitorLedgerState.observed, alarmed, if_true]
      refine ⟨rfl, rfl, rfl, ?_⟩
      intro _
      rcases Bool.or_eq_true_iff.mp compared.symm with before | reached
      · exact .inl before
      · exact .inr (of_decide_eq_true reached)

/-- The fields of a new epoch that its bets use. -/
theorem restarted_evidence (newAlpha : ℝ) (order : List String)
    : (ledger.restarted newAlpha order).logE = (fun _ => 0)
      ∧ (ledger.restarted newAlpha order).tau = ledger.tau
      ∧ (ledger.restarted newAlpha order).currentEpochAlpha = newAlpha
      ∧ (ledger.restarted newAlpha order).alarmTriggered = false := by
  by_cases invalidated : ledger.status = .invalidated
  · simp [MonitorLedgerState.restarted, beginEpoch, invalidated]
  · simp [MonitorLedgerState.restarted, beginEpoch, invalidated, MonitorLedgerState.archive]

variable {ledger}

theorem Effect.stakeKept (effect : Effect .real ledger operation after result)
    (kept : StakeKept ledger)
    : StakeKept after := by
  cases effect with
  | refused => exact kept
  | repeated => exact kept
  | corrected => exact ⟨kept.ceiling, kept.share, kept.spent⟩
  | observed unit =>
      obtain ⟨_, tau, alpha, _⟩ := observed_evidence ledger unit
      obtain ⟨_, spent, _⟩ := observed_fields ledger unit LogExp.real
      refine ⟨tau.trans kept.ceiling, ?_, ?_⟩
      · rw [alpha]
        exact kept.share
      · rw [alpha, spent]
        exact kept.spent
  | restarted newAlpha order startable =>
      obtain ⟨_, tau, alpha, _⟩ := restarted_evidence ledger newAlpha order
      obtain ⟨_, spent, _⟩ := restarted_fields ledger newAlpha order
      refine ⟨tau.trans kept.ceiling, ?_, ?_⟩
      · rw [alpha]
        exact startable.positive
      · rw [alpha, spent]
        exact le_add_of_nonneg_left (kept.share.le.trans kept.spent)

theorem defaultMonitorTau_bounds
    : (0 : ℝ) ≤ defaultMonitorTau ∧ (defaultMonitorTau : ℝ) < monitorAlternatives 0 := by
  simp only [defaultMonitorTau, monitorAlternatives, Matrix.cons_val_zero]
  norm_num

/-- A step that takes no unit wins nothing and loses nothing. -/
theorem outcome_idle {step : LedgerStep ℝ} (idle : contribution step = none)
    : flaggedUnit step - defaultMonitorTau * takenUnit step = 0 := by
  have taken : takenUnit step = 0 := by
    rw [takenUnit, idle]
    rfl
  have flagged : flaggedUnit step = 0 := by
    unfold flaggedUnit
    rw [idle]
    split <;> rfl
  rw [taken, flagged, mul_zero, sub_zero]

section

variable (effect : Effect .real ledger operation after result)
include effect

/-- A step pays its capital from its stake and from the alpha it spends. -/
theorem Effect.paid (kept : StakeKept ledger)
    : after.capital
      ≤ ledger.capital
        + ledger.stake
          * (flaggedUnit ⟨ledger, operation, result, after⟩
            - defaultMonitorTau * takenUnit ⟨ledger, operation, result, after⟩)
        + (after.alphaSpent - ledger.alphaSpent) := by
  cases effect with
  | refused operation error =>
      rw [outcome_idle (by cases operation <;> rfl), mul_zero, add_zero, sub_self, add_zero]
  | repeated unit known =>
      rw [outcome_idle (contribution_known known), mul_zero, add_zero, sub_self, add_zero]
  | corrected unit existing corrects =>
      have known : unit.unitId ∈ ledger.finalizedUnits :=
        mem_iff_getElem?.mpr ⟨existing, corrects.known⟩
      rw [outcome_idle (contribution_known known), mul_zero, add_zero]
      change ledger.capital ≤ ledger.capital + (ledger.alphaSpent - ledger.alphaSpent)
      rw [sub_self, add_zero]
  | observed unit inTurn =>
      obtain ⟨evidence, tau, alpha, _⟩ := observed_evidence ledger unit
      obtain ⟨_, spent, _⟩ := observed_fields ledger unit LogExp.real
      obtain ⟨nonneg, below⟩ := defaultMonitorTau_bounds
      have missing : unit.unitId ∉ ledger.finalizedUnits := inTurn.missing
      have outcome
          : flaggedUnit ⟨ledger, .recordUnit unit, .ok (), ledger.observed .real unit⟩
              - defaultMonitorTau
                * takenUnit ⟨ledger, .recordUnit unit, .ok (), ledger.observed .real unit⟩
            = indicator (unit.judgedHarm || unit.unresolved) - defaultMonitorTau := by
        simp only [flaggedUnit, takenUnit, contribution_fresh missing, Option.isSome_some,
          Bool.true_and]
        rw [show indicator true = 1 from rfl, mul_one]
      rw [← kept.ceiling] at nonneg below
      have counted :=
        count_mixture_le ledger.accumulator nonneg below unit.judgedHarm unit.unresolved
      have step := mul_le_mul_of_nonneg_left counted kept.share.le
      rw [outcome, spent, sub_self, add_zero, MonitorLedgerState.capital, evidence, alpha]
      rw [mul_add, ← mul_assoc] at step
      rw [← kept.ceiling]
      exact step
  | restarted newAlpha order =>
      obtain ⟨evidence, _, alpha, _⟩ := restarted_evidence ledger newAlpha order
      obtain ⟨_, spent, _⟩ := restarted_fields ledger newAlpha order
      have nonneg : 0 ≤ ledger.capital := mul_nonneg kept.share.le (mixture_nonneg _)
      rw [outcome_idle rfl, mul_zero, add_zero, spent, MonitorLedgerState.capital, evidence,
        alpha, mixture_zero]
      linarith

/-- An alarm that a step raises has the capital for it. -/
theorem Effect.reached (kept : StakeKept ledger) (alarmed : after.alarmTriggered = true)
    (calm : ledger.alarmTriggered = false)
    : 1 ≤ after.capital := by
  cases effect with
  | refused => rw [calm] at alarmed; cases alarmed
  | repeated => rw [calm] at alarmed; cases alarmed
  | corrected =>
      change ledger.alarmTriggered = true at alarmed
      rw [calm] at alarmed
      cases alarmed
  | observed unit =>
      obtain ⟨evidence, _, alpha, raised⟩ := observed_evidence ledger unit
      rcases raised alarmed with before | reached
      · rw [calm] at before
        cases before
      · rw [MonitorLedgerState.capital, evidence, alpha]
        rwa [div_le_iff₀ kept.share, mul_comm] at reached
  | restarted newAlpha order =>
      obtain ⟨_, _, _, quiet⟩ := restarted_evidence ledger newAlpha order
      rw [quiet] at alarmed
      cases alarmed

theorem Effect.evidence_le (kept : StakeKept ledger) {limit bound : ℝ} (one : 1 ≤ limit)
    (least : 1 ≤ bound)
    (limited
      : ∀ flagged index, odds defaultMonitorTau flagged (monitorAlternatives index) ≤ limit)
    (bounded : ∀ index, Real.exp (ledger.logE index) ≤ bound) (index : Fin 3)
    : Real.exp (after.logE index) ≤ bound * limit := by
  have grown : bound ≤ bound * limit := le_mul_of_one_le_right (zero_le_one.trans least) one
  cases effect with
  | refused => exact (bounded index).trans grown
  | repeated => exact (bounded index).trans grown
  | corrected => exact (bounded index).trans grown
  | observed unit =>
      obtain ⟨evidence, _⟩ := observed_evidence ledger unit
      rw [evidence]
      change Real.exp (ledger.logE index + ledger.accumulator.evidence .real _ _) ≤ _
      rw [Real.exp_add, exp_evidence, show ledger.accumulator.tau = defaultMonitorTau from
        kept.ceiling]
      exact mul_le_mul (bounded index) (limited _ _) (odds_nonneg _ _ _)
        (zero_le_one.trans least)
  | restarted newAlpha order =>
      obtain ⟨evidence, _⟩ := restarted_evidence ledger newAlpha order
      rw [evidence, Real.exp_zero]
      exact least.trans grown

end

end Step

section Run

variable {start : MonitorLedgerState ℝ}

theorem final_stakeKept (kept : StakeKept start) (events : List (MonitorOperation ℝ))
    : StakeKept ((monitor .real).final start events) :=
  (monitor .real).invariant kept
    (fun ledger event bets => (next_effect .real ledger event).stakeKept bets) events

/-- The evidence after so many operations is bounded, by induction on the run. -/
theorem exists_evidence_le (kept : StakeKept start) (zero : start.logE = fun _ => 0)
    : ∃ limit,
        ∀ (events : List (MonitorOperation ℝ)) index,
          Real.exp (((monitor .real).final start events).logE index) ≤ limit ^ events.length := by
  obtain ⟨largest, nonneg, limited⟩ := exists_odds_le defaultMonitorTau
  refine ⟨1 + largest, ?_⟩
  intro events
  have one : 1 ≤ 1 + largest := le_add_of_nonneg_right nonneg
  refine ((monitor .real).run_induction
    (motive := fun events _ final =>
      StakeKept final ∧ ∀ index, Real.exp (final.logE index) ≤ (1 + largest) ^ events.length)
    ⟨kept, ?_⟩ ?_ events).2
  · intro index
    rw [zero, Real.exp_zero, List.length_nil, pow_zero]
  · rintro events event ⟨bets, bounded⟩
    have effect := next_effect LogExp.real ((monitor .real).final start events) event
    refine ⟨effect.stakeKept bets, ?_⟩
    intro index
    rw [List.length_append, List.length_singleton, pow_succ]
    refine effect.evidence_le bets one (one_le_pow₀ one) ?_ bounded index
    intro flagged index
    exact (limited flagged index).trans (le_add_of_nonneg_left zero_le_one)

end Run

-- Random runs

variable {Ω : Type*} {m : MeasurableSpace Ω} {μ : Measure Ω} {ℱ : Filtration ℕ m}

noncomputable def ledgerAt (start : MonitorLedgerState ℝ) (operations : ℕ → Ω → MonitorOperation ℝ)
    (time : ℕ) (ω : Ω)
    : MonitorLedgerState ℝ :=
  (monitor .real).final start (past operations time ω)

noncomputable def stepAt (start : MonitorLedgerState ℝ) (operations : ℕ → Ω → MonitorOperation ℝ)
    (time : ℕ) (ω : Ω)
    : LedgerStep ℝ :=
  (monitor .real).transition (ledgerAt start operations time ω) (operations time ω)

/-- Operations that come one by one, chosen in any way from what is known. A step that takes a
unit takes a flagged one with probability at most the ceiling, given what is known before.
-/
structure LedgerUnderCeiling (ℱ : Filtration ℕ m) (μ : Measure Ω) (start : MonitorLedgerState ℝ)
    (operations : ℕ → Ω → MonitorOperation ℝ) : Prop where
  discrete : Discrete ℱ operations
  ceiling
    : ∀ time, ∀ᵐ ω ∂μ,
        (μ[fun ω => flaggedUnit (stepAt start operations time ω) | ℱ time]) ω
        ≤ defaultMonitorTau
          * (μ[fun ω => takenUnit (stepAt start operations time ω) | ℱ time]) ω

def alarmedBy (start : MonitorLedgerState ℝ) (operations : ℕ → Ω → MonitorOperation ℝ)
    (time : ℕ)
    : Set Ω :=
  {ω | ∃ earlier ≤ time, (ledgerAt start operations earlier ω).alarmTriggered = true}

section Random

variable {start : MonitorLedgerState ℝ} {operations : ℕ → Ω → MonitorOperation ℝ}

theorem ledgerAt_succ (time : ℕ) (ω : Ω)
    : ledgerAt start operations (time + 1) ω = (stepAt start operations time ω).after := by
  rw [ledgerAt, past_succ, Machine.final_snoc]
  rfl

theorem stepAt_effect (time : ℕ) (ω : Ω)
    : Effect .real (ledgerAt start operations time ω) (operations time ω)
        (ledgerAt start operations (time + 1) ω) (stepAt start operations time ω).output := by
  rw [ledgerAt_succ]
  exact next_effect .real _ _

theorem stepAt_eq (time : ℕ) (ω : Ω)
    : stepAt start operations time ω
      = ⟨ledgerAt start operations time ω, operations time ω,
          (stepAt start operations time ω).output,
          ledgerAt start operations (time + 1) ω⟩ := by
  rw [ledgerAt_succ]
  rfl

theorem stepAt_known (discrete : Discrete ℱ operations) (view : LedgerStep ℝ → ℝ) (time : ℕ)
    : Measurable[ℱ (time + 1)] (fun ω => view (stepAt start operations time ω)) := by
  have last (ω : Ω)
      : view (stepAt start operations time ω)
        = (((monitor .real).history start
            (past operations (time + 1) ω)).getLast?.elim 0 view) := by
    rw [past_succ, Machine.history_snoc, List.getLast?_concat]
    rfl
  rw [funext last]
  exact discrete.measurable (time + 1)
    (fun events => ((monitor .real).history start events).getLast?.elim 0 view)

theorem indicator_bounds (flagged : Bool) : 0 ≤ indicator flagged ∧ indicator flagged ≤ 1 := by
  cases flagged <;> simp [indicator]

theorem flaggedUnit_bounds (step : LedgerStep ℝ) : 0 ≤ flaggedUnit step ∧ flaggedUnit step ≤ 1 := by
  unfold flaggedUnit
  split
  · exact indicator_bounds _
  · exact ⟨le_rfl, zero_le_one⟩

theorem takenUnit_bounds (step : LedgerStep ℝ) : 0 ≤ takenUnit step ∧ takenUnit step ≤ 1 :=
  indicator_bounds _

theorem stepAt_integrable [IsProbabilityMeasure μ] (discrete : Discrete ℱ operations)
    {view : LedgerStep ℝ → ℝ} (bounds : ∀ step, 0 ≤ view step ∧ view step ≤ 1) (time : ℕ)
    : Integrable (fun ω => view (stepAt start operations time ω)) μ := by
  have known : Measurable (fun ω => view (stepAt start operations time ω)) :=
    (stepAt_known discrete view time).mono (ℱ.le _) le_rfl
  refine .of_bound known.aestronglyMeasurable 1 (.of_forall ?_)
  intro ω
  rw [Real.norm_of_nonneg (bounds _).1]
  exact (bounds _).2

theorem LedgerUnderCeiling.unfavourable [IsProbabilityMeasure μ]
    (under : LedgerUnderCeiling ℱ μ start operations) (time : ℕ)
    : μ[fun ω =>
        flaggedUnit (stepAt start operations time ω)
        - defaultMonitorTau * takenUnit (stepAt start operations time ω) | ℱ time] ≤ᵐ[μ] 0 := by
  have flags : Integrable (fun ω => flaggedUnit (stepAt start operations time ω)) μ :=
    stepAt_integrable under.discrete flaggedUnit_bounds time
  have takes : Integrable (fun ω => takenUnit (stepAt start operations time ω)) μ :=
    stepAt_integrable under.discrete takenUnit_bounds time
  have split := condExp_sub (m := ℱ time) flags (takes.const_mul defaultMonitorTau)
  have scaled :=
    condExp_smul (μ := μ) (defaultMonitorTau : ℝ)
      (fun ω => takenUnit (stepAt start operations time ω)) (ℱ time)
  filter_upwards [split, scaled, under.ceiling time] with ω same times below
  have scale
      : (μ[fun ω => defaultMonitorTau * takenUnit (stepAt start operations time ω) | ℱ time]) ω
        = defaultMonitorTau
          * (μ[fun ω => takenUnit (stepAt start operations time ω) | ℱ time]) ω :=
    times
  refine same.trans_le ?_
  rw [Pi.sub_apply, scale]
  exact sub_nonpos.mpr below

/-- A ledger begins with no alarm and all its spent alpha as capital. -/
theorem initializeLedger_bets {budget first : ℝ} {order : List String}
    (begun : MonitorLedgerState.initializeLedger budget first order = .ok start)
    : StakeKept start ∧ start.logE = (fun _ => 0) ∧ start.alarmTriggered = false
      ∧ start.capital = start.alphaSpent := by
  simp only [MonitorLedgerState.initializeLedger, bind_eq_ok, ensure_eq_ok, pure_eq_ok] at begun
  obtain ⟨_, _, _, ⟨positive, _⟩, _, _, _, _, rfl⟩ := begun
  refine ⟨⟨rfl, positive, le_rfl⟩, rfl, rfl, ?_⟩
  rw [MonitorLedgerState.capital, mixture_zero, mul_one]

/-- The evidence of a random run is known and bounded. -/
theorem ledgerAt_evidence (discrete : Discrete ℱ operations) (kept : StakeKept start)
    (zero : start.logE = fun _ => 0)
    : KnownEvidence ℱ (fun time ω => (ledgerAt start operations time ω).logE) where
  known time index :=
    discrete.measurable time (fun events => ((monitor .real).final start events).logE index)
  bounded time := by
    obtain ⟨limit, limited⟩ := exists_evidence_le kept zero
    refine ⟨limit ^ time, ?_⟩
    intro ω index
    have bound := limited (past operations time ω) index
    rwa [length_past] at bound

variable {budget first : ℝ} {order : List String}

theorem ledgerAt_kept (begun : MonitorLedgerState.initializeLedger budget first order = .ok start)
    (operations : ℕ → Ω → MonitorOperation ℝ) (time : ℕ) (ω : Ω)
    : LedgerKept budget (ledgerAt start operations time ω)
      ∧ StakeKept (ledgerAt start operations time ω) :=
  ⟨final_kept .real (initializeLedger_ok begun).1 _,
    final_stakeKept (initializeLedger_bets begun).1 _⟩

theorem ledgerAt_spent (begun : MonitorLedgerState.initializeLedger budget first order = .ok start)
    (operations : ℕ → Ω → MonitorOperation ℝ) (time : ℕ) (ω : Ω)
    : 0 < (ledgerAt start operations time ω).currentEpochAlpha
      ∧ (ledgerAt start operations time ω).currentEpochAlpha
        ≤ (ledgerAt start operations time ω).alphaSpent
      ∧ (ledgerAt start operations time ω).alphaSpent ≤ budget + alphaSlack := by
  obtain ⟨kept, bets⟩ := ledgerAt_kept begun operations time ω
  exact ⟨bets.share, bets.spent, kept.within⟩

theorem alarmedBy_known (discrete : Discrete ℱ operations) (time : ℕ)
    : MeasurableSet[ℱ time] (alarmedBy start operations time) := by
  have united
      : alarmedBy start operations time
        = ⋃ earlier ∈ Set.Iic time,
            {ω | (ledgerAt start operations earlier ω).alarmTriggered = true} := by
    ext ω
    simp [alarmedBy]
  rw [united]
  refine MeasurableSet.biUnion (Set.to_countable _) ?_
  intro earlier before
  refine ℱ.mono before _ ?_
  exact discrete.measurable earlier
    (fun events => ((monitor .real).final start events).alarmTriggered) (MeasurableSet.singleton true)

section Begun

variable (begun : MonitorLedgerState.initializeLedger budget first order = .ok start)
include begun

theorem ledgerAt_stake (time : ℕ) (ω : Ω)
    : (ledgerAt start operations time ω).stake
      = (ledgerAt start operations time ω).currentEpochAlpha
        * gain defaultMonitorTau (ledgerAt start operations time ω).logE := by
  rw [MonitorLedgerState.stake, (ledgerAt_kept begun operations time ω).2.ceiling]

theorem alarmedBy_zero : alarmedBy start operations 0 = ∅ := by
  obtain ⟨_, _, quiet, _⟩ := initializeLedger_bets begun
  refine Set.eq_empty_iff_forall_notMem.mpr ?_
  rintro ω ⟨earlier, before, alarmed⟩
  obtain rfl := Nat.le_zero.mp before
  have raised : start.alarmTriggered = true := alarmed
  rw [quiet] at raised
  cases raised

/-- A step that raises the alarm has a capital of one. -/
theorem capital_of_alarm {time : ℕ} {ω : Ω} (alarmed : ω ∈ alarmedBy start operations (time + 1))
    (outside : ω ∉ alarmedBy start operations time)
    : 1 ≤ (ledgerAt start operations (time + 1) ω).capital := by
  obtain ⟨earlier, before, alarmed⟩ := alarmed
  have calm : (ledgerAt start operations time ω).alarmTriggered = false := by
    rw [Bool.eq_false_iff]
    exact fun raised => outside ⟨time, le_rfl, raised⟩
  rcases Nat.le_succ_iff.mp before with sooner | rfl
  · exact absurd ⟨earlier, sooner, alarmed⟩ outside
  · exact (stepAt_effect time ω).reached (ledgerAt_kept begun operations time ω).2 alarmed calm

variable (discrete : Discrete ℱ operations)
include discrete

omit begun in
theorem share_known (time : ℕ)
    : Measurable[ℱ time] (fun ω => (ledgerAt start operations time ω).currentEpochAlpha) :=
  discrete.measurable time (fun events => ((monitor .real).final start events).currentEpochAlpha)

theorem evidence_known
    : KnownEvidence ℱ (fun time ω => (ledgerAt start operations time ω).logE) := by
  obtain ⟨bets, zero, _, _⟩ := initializeLedger_bets begun
  exact ledgerAt_evidence discrete bets zero

theorem capital_integrable [IsProbabilityMeasure μ] (time : ℕ)
    : Integrable (fun ω => (ledgerAt start operations time ω).capital) μ := by
  have evidence := evidence_known begun discrete
  obtain ⟨bound, bounded⟩ := evidence.mixture_bounded time
  have shares
      : Measurable[ℱ time] (fun ω => (ledgerAt start operations time ω).currentEpochAlpha) :=
    share_known discrete time
  have known := (shares.mul (evidence.mixture_known time)).mono (ℱ.le time) le_rfl
  refine .of_bound known.aestronglyMeasurable ((budget + alphaSlack) * bound) (.of_forall ?_)
  intro ω
  obtain ⟨share, affordable, within⟩ := ledgerAt_spent begun operations time ω
  rw [MonitorLedgerState.capital, Real.norm_of_nonneg (mul_nonneg share.le (mixture_nonneg _))]
  exact mul_le_mul (affordable.trans within) (bounded ω) (mixture_nonneg _)
    (share.le.trans (affordable.trans within))

theorem spent_integrable [IsProbabilityMeasure μ] (time : ℕ)
    : Integrable (fun ω => (ledgerAt start operations time ω).alphaSpent) μ := by
  have known : Measurable (fun ω => (ledgerAt start operations time ω).alphaSpent) :=
    (discrete.measurable time
      (fun events => ((monitor .real).final start events).alphaSpent)).mono (ℱ.le time) le_rfl
  refine .of_bound known.aestronglyMeasurable (budget + alphaSlack) (.of_forall ?_)
  intro ω
  obtain ⟨share, affordable, within⟩ := ledgerAt_spent begun operations time ω
  rw [Real.norm_of_nonneg (share.le.trans affordable)]
  exact within

theorem stake_known (time : ℕ)
    : StronglyMeasurable[ℱ time] (fun ω => (ledgerAt start operations time ω).stake) := by
  simp only [ledgerAt_stake begun time]
  exact (share_known discrete time).stronglyMeasurable.mul
    ((evidence_known begun discrete).gain_known time)

theorem stake_bounded (time : ℕ)
    : ∃ bound, ∀ ω, (ledgerAt start operations time ω).stake ≤ bound := by
  obtain ⟨nonneg, below⟩ := defaultMonitorTau_bounds
  obtain ⟨bound, bounded⟩ := (evidence_known begun discrete).gain_bounded nonneg below time
  refine ⟨(budget + alphaSlack) * bound, ?_⟩
  intro ω
  obtain ⟨share, affordable, within⟩ := ledgerAt_spent begun operations time ω
  rw [ledgerAt_stake begun]
  exact mul_le_mul (affordable.trans within) (bounded ω) (gain_nonneg nonneg below _)
    (share.le.trans (affordable.trans within))

end Begun

/-- The alpha of the ledger bets against the ceiling, epoch by epoch. -/
theorem ledger_bettor [IsProbabilityMeasure μ]
    (begun : MonitorLedgerState.initializeLedger budget first order = .ok start)
    (under : LedgerUnderCeiling ℱ μ start operations)
    : Bettor ℱ μ (alarmedBy start operations)
        (fun time ω => (ledgerAt start operations time ω).capital)
        (fun time ω => (ledgerAt start operations time ω).stake)
        (fun time ω =>
          flaggedUnit (stepAt start operations time ω)
          - defaultMonitorTau * takenUnit (stepAt start operations time ω))
        (fun time ω => (ledgerAt start operations time ω).alphaSpent) where
  known := alarmedBy_known under.discrete
  lasting := by
    rintro time ω ⟨earlier, before, alarmed⟩
    exact ⟨earlier, Nat.le_succ_of_le before, alarmed⟩
  calm := alarmedBy_zero begun
  start := funext fun _ => (initializeLedger_bets begun).2.2.2
  solvent time ω :=
    mul_nonneg (ledgerAt_kept begun operations time ω).2.share.le (mixture_nonneg _)
  reached _ _ alarmed outside := capital_of_alarm begun alarmed outside
  paid := by
    intro time ω _
    have effect : Effect .real (ledgerAt start operations time ω) _ _ _ := stepAt_effect time ω
    have paid := effect.paid (ledgerAt_kept begun operations time ω).2
    rwa [← stepAt_eq] at paid
  rising time ω := (stepAt_effect time ω).rising
  capital_integrable := capital_integrable begun under.discrete
  spent_integrable := spent_integrable begun under.discrete
  stake_known := stake_known begun under.discrete
  stake_nonneg := by
    intro time ω
    obtain ⟨nonneg, below⟩ := defaultMonitorTau_bounds
    rw [ledgerAt_stake begun]
    exact mul_nonneg (ledgerAt_spent begun operations time ω).1.le (gain_nonneg nonneg below _)
  stake_bounded := stake_bounded begun under.discrete
  outcome_integrable := by
    intro time
    exact (stepAt_integrable under.discrete flaggedUnit_bounds time).sub
      ((stepAt_integrable under.discrete takenUnit_bounds time).const_mul defaultMonitorTau)
  unfavourable := under.unfavourable

/-- By any time, the probability of an alarm is at most the alpha expected to be spent then. -/
theorem ledger_alarm_le [IsProbabilityMeasure μ]
    (begun : MonitorLedgerState.initializeLedger budget first order = .ok start)
    (under : LedgerUnderCeiling ℱ μ start operations) (time : ℕ)
    : μ.real (alarmedBy start operations time)
      ≤ ∫ ω, (ledgerAt start operations time ω).alphaSpent ∂μ :=
  (ledger_bettor begun under).probability_le time

/-- The probability that there is ever an alarm is at most the budget and its slack. -/
theorem ledger_ever_le [IsProbabilityMeasure μ]
    (begun : MonitorLedgerState.initializeLedger budget first order = .ok start)
    (under : LedgerUnderCeiling ℱ μ start operations)
    : μ.real {ω | ∃ time, (ledgerAt start operations time ω).alarmTriggered = true}
      ≤ budget + alphaSlack := by
  have ever
      : {ω | ∃ time, (ledgerAt start operations time ω).alarmTriggered = true}
        = ⋃ time, alarmedBy start operations time := by
    ext ω
    simp only [Set.mem_ofPred_eq, Set.mem_iUnion, alarmedBy]
    constructor
    · rintro ⟨time, alarmed⟩
      exact ⟨time, time, le_rfl, alarmed⟩
    · rintro ⟨_, time, _, alarmed⟩
      exact ⟨time, alarmed⟩
  rw [ever]
  exact (ledger_bettor begun under).ever_le
    (fun time ω => (ledgerAt_spent begun operations time ω).2.2)

end Random

/-- False alarms are bounded, where each unit is flagged with at most the ceiling's probability
given its past: those of one accumulator by its alpha, and those of a ledger by the alpha it
has spent, which stays within its budget.
-/
theorem false_alarms_bounded [IsProbabilityMeasure μ] (ℱ : Filtration ℕ m)
    : (∀ (tau alpha : ℝ) (start : CompositeRiskAccumulator ℝ) (units : ℕ → Ω → Label),
        CompositeRiskAccumulator.withTau tau alpha = .ok start
        → UnderCeiling ℱ μ tau units
        → μ.real
            {ω | ∃ time,
              start.threshold
              ≤ (start.observed (fun time => units time ω) time).mixtureEValue .real}
          ≤ alpha)
      ∧ ∀ (budget first : ℝ) (order : List String) (start : MonitorLedgerState ℝ)
          (operations : ℕ → Ω → MonitorOperation ℝ),
          MonitorLedgerState.initializeLedger budget first order = .ok start
          → LedgerUnderCeiling ℱ μ start operations
          → (∀ time,
              μ.real (alarmedBy start operations time)
              ≤ ∫ ω, (ledgerAt start operations time ω).alphaSpent ∂μ)
            ∧ (∀ time spent,
              (∀ᵐ ω ∂μ, (ledgerAt start operations time ω).alphaSpent = spent)
              → μ.real (alarmedBy start operations time) ≤ spent)
            ∧ (∀ time ω, (ledgerAt start operations time ω).alphaSpent ≤ budget + alphaSlack)
            ∧ μ.real {ω | ∃ time, (ledgerAt start operations time ω).alarmTriggered = true}
              ≤ budget + alphaSlack := by
  constructor
  · intro tau alpha start units begun under
    exact accumulator_alarm_le begun under
  · intro budget first order start operations begun under
    refine ⟨ledger_alarm_le begun under, ?_,
      fun time ω => (ledgerAt_spent begun operations time ω).2.2, ledger_ever_le begun under⟩
    intro time spent recorded
    refine (ledger_alarm_le begun under time).trans_eq ?_
    rw [integral_congr_ae recorded, integral_const, probReal_univ, one_smul]

-- A coin at the ceiling

noncomputable def coin : Measure Bool :=
  ProbabilityTheory.bernoulliMeasure true false ⟨1 / 50, by norm_num, by norm_num⟩

instance : IsProbabilityMeasure coin := by
  unfold coin
  infer_instance

def afterCoin : Filtration ℕ (⊤ : MeasurableSpace Bool) where
  seq time := if time = 0 then ⊥ else ⊤
  mono' := by
    intro earlier later before
    by_cases first : earlier = 0
    · simp [first]
    · have second : later ≠ 0 := by omega
      simp [first, second]
  le' time := le_top

/-- The coin's first fall flags, and nothing later does. -/
theorem coin_expectation (flag : ℕ → Bool → ℝ) (bounds : ∀ ω, flag 0 ω = indicator ω)
    (later : ∀ time ω, flag (time + 1) ω = 0) (time : ℕ)
    : ∀ ω, (coin[flag time | afterCoin time]) ω ≤ if time = 0 then 1 / 50 else 0 := by
  intro ω
  cases time with
  | zero =>
      have first : flag 0 = indicator := funext bounds
      change (coin[flag 0 | (⊥ : MeasurableSpace Bool)]) ω ≤ 1 / 50
      rw [condExp_bot, first, coin, ProbabilityTheory.integral_bernoulliMeasure]
      norm_num [indicator]
  | succ time =>
      have rest : flag (time + 1) = fun _ => 0 := funext (later time)
      rw [rest, condExp_const (afterCoin.le _)]
      simp

def coinLabels (time : ℕ) (fallen : Bool) : Label :=
  { judgedHarm := decide (time = 0) && fallen, unresolved := false }

theorem coinLabels_under : UnderCeiling afterCoin coin (1 / 50) coinLabels where
  known time := by
    change MeasurableSet[⊤] _
    exact MeasurableSpace.measurableSet_top
  ceiling time := by
    refine .of_forall ?_
    intro ω
    refine (coin_expectation (fun time ω => indicator (coinLabels time ω).flagged) ?_ ?_ time
      ω).trans ?_
    · intro ω
      cases ω <;> rfl
    · intro time ω
      cases ω <;> rfl
    · split <;> norm_num

/-- A ledger takes the coin's unit and then refuses epochs without alpha. -/
def coinOperations (time : ℕ) (fallen : Bool) : MonitorOperation ℝ :=
  if time = 0 then .recordUnit (labelOf "a" 1 fallen) else .startNewEpoch 0 []

theorem coinOperations_first (fallen : Bool)
    : contribution (stepAt (soleLedger "a") coinOperations 0 fallen) = some "a" := by
  have inTurn : InTurn (soleLedger (R := ℝ) "a") (labelOf "a" 1 fallen) :=
    ⟨Std.TreeMap.getElem?_emptyc, MonitorStatus.noConfusion, rfl⟩
  have taken
      : stepAt (soleLedger "a") coinOperations 0 fallen
        = ⟨soleLedger "a", .recordUnit (labelOf "a" 1 fallen), .ok (),
            (soleLedger "a").observed .real (labelOf "a" 1 fallen)⟩ := by
    change (monitor .real).transition (soleLedger "a") (.recordUnit (labelOf "a" 1 fallen)) = _
    rw [Machine.transition, next_observed inTurn]
  rw [taken]
  exact contribution_fresh inTurn.missing

theorem coinOperations_under
    : LedgerUnderCeiling afterCoin coin (soleLedger "a") coinOperations where
  discrete :=
    {
      countable := fun time => Set.countable_range _
      known := by
        intro time value
        change MeasurableSet[⊤] _
        exact MeasurableSpace.measurableSet_top
    }
  ceiling time := by
    refine .of_forall ?_
    intro ω
    have flags :=
      coin_expectation (fun time ω => flaggedUnit (stepAt (soleLedger "a") coinOperations time ω))
        (by
          intro fallen
          change indicator
            ((contribution (stepAt (soleLedger "a") coinOperations 0 fallen)).isSome
              && (fallen || false)) = _
          rw [coinOperations_first, Option.isSome_some, Bool.true_and, Bool.or_false])
        (fun _ _ => rfl) time ω
    refine flags.trans ?_
    cases time with
    | zero =>
        have taken
            : (fun fallen => takenUnit (stepAt (soleLedger "a") coinOperations 0 fallen))
              = fun _ => 1 := by
          funext fallen
          rw [takenUnit, coinOperations_first]
          rfl
        rw [taken, condExp_const (afterCoin.le _), if_pos rfl, defaultMonitorTau]
        norm_num
    | succ time =>
        have idle
            : (fun fallen => takenUnit (stepAt (soleLedger "a") coinOperations (time + 1) fallen))
              = fun _ => 0 := by
          funext fallen
          rfl
        rw [idle, condExp_const (afterCoin.le _), if_neg (Nat.succ_ne_zero time), mul_zero]

/-- The coin seldom raises an alarm, by the general result. -/
theorem false_alarms_coin
    : (∃ start,
        CompositeRiskAccumulator.withTau (1 / 50) (1 / 20) = .ok start
        ∧ coin.real
          {fallen | ∃ time,
            start.threshold
            ≤ (start.observed (fun time => coinLabels time fallen) time).mixtureEValue .real}
          ≤ 1 / 20)
      ∧ coin.real (alarmedBy (soleLedger "a") coinOperations 1)
        ≤ ∫ fallen, (ledgerAt (soleLedger "a") coinOperations 1 fallen).alphaSpent ∂coin := by
  obtain ⟨accumulator, ledger⟩ := false_alarms_bounded (μ := coin) afterCoin
  constructor
  · have begun
        : ∃ start, CompositeRiskAccumulator.withTau (1 / 50 : ℝ) (1 / 20) = .ok start := by
      have within : (0 : ℝ) ≤ 1 / 50 ∧ (1 / 50 : ℝ) < monitorAlternatives 0 := by
        simp only [monitorAlternatives, Matrix.cons_val_zero]
        norm_num
      have share : ((0 : ℝ) ≤ 1 / 20 ∧ (1 / 20 : ℝ) < 1) ∧ (1 / 20 : ℝ) ≠ 0 := by norm_num
      rw [CompositeRiskAccumulator.withTau, ensure_bind within, ensure_bind share]
      exact ⟨_, rfl⟩
    obtain ⟨start, begun⟩ := begun
    exact ⟨start, begun, accumulator _ _ start coinLabels begun coinLabels_under⟩
  · exact (ledger _ _ _ _ coinOperations (soleLedger_begun (by decide +kernel))
      coinOperations_under).1 1

end SkillRanker.Learning
