import Mathlib.Algebra.BigOperators.Group.List.Basic
import SkillRanker.Learning.MonitorEffects

/-! Runs of the monitor's ledger: its account of alpha, the order of its units, and the traces
of its epochs.
-/

namespace SkillRanker.Learning

open SkillRanker.Library
open Std (TreeMap LawfulEqCmp)

variable {R : Type} [Field R] [LinearOrder R] {functions : LogExp R}

abbrev LedgerStep (R : Type) : Type :=
  Transition (MonitorLedgerState R) (MonitorOperation R) (Except (LearningError R) Unit)

def startedAlpha (step : LedgerStep R) : Option R :=
  match step.event, step.output with
  | .startNewEpoch newAlpha _, .ok () => some newAlpha
  | _, _ => none

def startedAlphas (history : List (LedgerStep R)) : List R := history.filterMap startedAlpha

def MonitorLedgerState.tracedEpochs (ledger : MonitorLedgerState R) : List Nat :=
  ledger.historicalEpochs.map HistoricalEpochTrace.epochId

structure LedgerKept (budget : R) (ledger : MonitorLedgerState R) : Prop where
  total : ledger.alphaTotal = budget
  within : ledger.alphaSpent ≤ budget + alphaSlack
  finalized
    : ∀ id, id ∈ ledger.finalizedUnits ↔ id ∈ ledger.prespecifiedOrder.take ledger.nextOrderIndex
  traced : ∀ epoch ∈ ledger.tracedEpochs, epoch ≤ ledger.currentEpoch
  closed : ledger.currentEpoch ∈ ledger.tracedEpochs ↔ ledger.status = .invalidated

def CorrectsAgain (step : LedgerStep R) : Prop :=
  step.before.status = .invalidated ∧ Correcting step.before step.event

-- The fields an operation changes

section Fields

variable (ledger : MonitorLedgerState R) (unit : FinalizedMonitorUnit)

omit [Field R] [LinearOrder R] in
@[simp]
theorem tracedEpochs_archive (status : MonitorStatus)
    : (ledger.archive status).tracedEpochs = ledger.tracedEpochs ++ [ledger.currentEpoch] := by
  simp [MonitorLedgerState.tracedEpochs, MonitorLedgerState.archive, MonitorLedgerState.trace]

omit [Field R] [LinearOrder R] in
theorem tracedEpochs_corrected
    : (ledger.corrected unit).tracedEpochs = ledger.tracedEpochs ++ [ledger.currentEpoch] :=
  tracedEpochs_archive ledger .invalidated

theorem observed_fields (functions : LogExp R)
    : (ledger.observed functions unit).alphaTotal = ledger.alphaTotal
      ∧ (ledger.observed functions unit).alphaSpent = ledger.alphaSpent
      ∧ (ledger.observed functions unit).currentEpoch = ledger.currentEpoch
      ∧ (ledger.observed functions unit).historicalEpochs = ledger.historicalEpochs
      ∧ (ledger.observed functions unit).prespecifiedOrder = ledger.prespecifiedOrder
      ∧ (ledger.observed functions unit).nextOrderIndex = ledger.nextOrderIndex + 1
      ∧ (ledger.observed functions unit).finalizedUnits
        = ledger.finalizedUnits.insert unit.unitId unit
      ∧ ((ledger.observed functions unit).status = .alarmed
        ∨ (ledger.observed functions unit).status = ledger.status) := by
  cases alarmed
    : (ledger.accumulator.observeUnit functions unit.judgedHarm unit.unresolved).1.alarmTriggered
  with
  | false =>
      simp [MonitorLedgerState.observed, alarmed, MonitorLedgerState.keep,
        MonitorLedgerState.accumulate]
  | true =>
      simp [MonitorLedgerState.observed, alarmed, MonitorLedgerState.keep,
        MonitorLedgerState.accumulate, MonitorLedgerState.alarm]

omit [LinearOrder R] in
/-- Whatever a new epoch leaves of the epochs before it. -/
theorem restarted_fields (newAlpha : R) (order : List String)
    : (ledger.restarted newAlpha order).alphaTotal = ledger.alphaTotal
      ∧ (ledger.restarted newAlpha order).alphaSpent = ledger.alphaSpent + newAlpha
      ∧ (ledger.restarted newAlpha order).currentEpoch = ledger.currentEpoch + 1
      ∧ (ledger.restarted newAlpha order).tracedEpochs
        = (if ledger.status = .invalidated then ledger.tracedEpochs
            else ledger.tracedEpochs ++ [ledger.currentEpoch])
      ∧ (ledger.restarted newAlpha order).status = .active
      ∧ (ledger.restarted newAlpha order).nextOrderIndex = 0
      ∧ (ledger.restarted newAlpha order).finalizedUnits = ∅ := by
  by_cases invalidated : ledger.status = .invalidated
  · simp [MonitorLedgerState.restarted, beginEpoch, invalidated,
      MonitorLedgerState.tracedEpochs]
  · simp [MonitorLedgerState.restarted, beginEpoch, invalidated, MonitorLedgerState.archive,
      MonitorLedgerState.tracedEpochs, MonitorLedgerState.trace]

end Fields

-- What every step keeps

section Step

variable {budget : R} {ledger after : MonitorLedgerState R} {operation : MonitorOperation R}
  {result : Except (LearningError R) Unit}

theorem LedgerKept.corrected {unit existing : FinalizedMonitorUnit}
    (kept : LedgerKept budget ledger) (corrects : Corrects ledger unit existing)
    : LedgerKept budget (ledger.corrected unit) where
  total := kept.total
  within := kept.within
  finalized id := by
    have known : unit.unitId ∈ ledger.finalizedUnits :=
      mem_iff_getElem?.mpr ⟨existing, corrects.known⟩
    refine Iff.trans ?_ (kept.finalized id)
    refine TreeMap.mem_insert.trans ?_
    constructor
    · rintro (same | member)
      · exact LawfulEqCmp.eq_of_compare same ▸ known
      · exact member
    · exact .inr
  traced epoch member := by
    rw [tracedEpochs_corrected, List.mem_append, List.mem_singleton] at member
    rcases member with before | rfl
    · exact kept.traced epoch before
    · exact Nat.le_refl _
  closed := by
    rw [tracedEpochs_corrected]
    exact iff_of_true (List.mem_append_right _ List.mem_cons_self) rfl

theorem LedgerKept.observed {unit : FinalizedMonitorUnit} (kept : LedgerKept budget ledger)
    (inTurn : InTurn ledger unit)
    : LedgerKept budget (ledger.observed functions unit) := by
  obtain ⟨total, spent, current, epochs, order, index, units, status⟩ :=
    observed_fields ledger unit functions
  have traced : (ledger.observed functions unit).tracedEpochs = ledger.tracedEpochs := by
    rw [MonitorLedgerState.tracedEpochs, epochs, MonitorLedgerState.tracedEpochs]
  refine ⟨total.trans kept.total, spent.trans_le kept.within, ?_, ?_, ?_⟩
  · intro id
    rw [units, order, index, List.take_add_one, inTurn.expected, TreeMap.mem_insert,
      kept.finalized, List.mem_append, Option.toList_some, List.mem_singleton, or_comm]
    refine or_congr Iff.rfl ⟨?_, ?_⟩
    · intro same
      exact (LawfulEqCmp.eq_of_compare same).symm
    · rintro rfl
      exact Std.ReflCmp.compare_self
  · rw [traced, current]
    exact kept.traced
  · rw [traced, current, kept.closed]
    refine iff_of_false inTurn.running ?_
    rcases status with alarmed | same
    · rw [alarmed]
      decide
    · rw [same]
      exact inTurn.running

theorem LedgerKept.restarted {newAlpha : R} {order : List String}
    (kept : LedgerKept budget ledger) (startable : Startable ledger newAlpha order)
    : LedgerKept budget (ledger.restarted newAlpha order) := by
  obtain ⟨total, spent, current, traced, status, index, units⟩ :=
    restarted_fields ledger newAlpha order
  have past : ∀ epoch ∈ (ledger.restarted newAlpha order).tracedEpochs,
      epoch ≤ ledger.currentEpoch := by
    rw [traced]
    split
    · exact kept.traced
    · intro epoch member
      rcases List.mem_append.mp member with before | last
      · exact kept.traced epoch before
      · rw [List.mem_singleton.mp last]
  refine ⟨total.trans kept.total, ?_, ?_, ?_, ?_⟩
  · rw [spent, ← kept.total]
    exact startable.budget
  · intro id
    rw [units, index]
    exact iff_of_false TreeMap.not_mem_emptyc List.not_mem_nil
  · intro epoch member
    rw [current]
    exact Nat.le_succ_of_le (past epoch member)
  · rw [status, current]
    refine iff_of_false ?_ (by decide)
    intro member
    exact absurd (past _ member) (Nat.not_succ_le_self _)

/-- Every operation keeps the ledger in order. -/
theorem Effect.kept (effect : Effect functions ledger operation after result)
    (kept : LedgerKept budget ledger)
    : LedgerKept budget after := by
  cases effect with
  | refused => exact kept
  | repeated => exact kept
  | corrected unit existing corrects => exact kept.corrected corrects
  | observed unit inTurn => exact kept.observed inTurn
  | restarted newAlpha order startable => exact kept.restarted startable

theorem Effect.refusal {error : LearningError R}
    (effect : Effect functions ledger operation after (.error error))
    : after = ledger := by
  cases effect with
  | refused => rfl

variable (effect : Effect functions ledger operation after result)
include effect

/-- What an operation adds to the alpha that is spent. -/
theorem Effect.spends
    : after.alphaSpent
      = ledger.alphaSpent + (startedAlpha ⟨ledger, operation, result, after⟩).getD 0 := by
  cases effect with
  | refused operation => cases operation <;> exact (add_zero _).symm
  | repeated => exact (add_zero _).symm
  | corrected => exact (add_zero _).symm
  | observed unit =>
      obtain ⟨_, spent, _⟩ := observed_fields ledger unit functions
      exact spent.trans (add_zero _).symm
  | restarted newAlpha order =>
      obtain ⟨_, spent, _⟩ := restarted_fields ledger newAlpha order
      exact spent

/-- An operation never gives alpha back. -/
theorem Effect.rising [IsStrictOrderedRing R]
    : ledger.alphaSpent ≤ after.alphaSpent := by
  rw [effect.spends]
  refine le_add_of_nonneg_right ?_
  cases effect with
  | refused operation => cases operation <;> exact le_refl _
  | repeated => exact le_refl _
  | corrected => exact le_refl _
  | observed => exact le_refl _
  | restarted newAlpha order startable => exact startable.positive.le

theorem Effect.turn {id : String} (missing : id ∉ ledger.finalizedUnits)
    (found : id ∈ after.finalizedUnits)
    : ledger.prespecifiedOrder[ledger.nextOrderIndex]? = some id
      ∧ after.nextOrderIndex = ledger.nextOrderIndex + 1 := by
  cases effect with
  | refused => exact absurd found missing
  | repeated => exact absurd found missing
  | corrected unit existing corrects =>
      rcases TreeMap.mem_insert.mp found with same | member
      · have known : unit.unitId ∈ ledger.finalizedUnits :=
          mem_iff_getElem?.mpr ⟨existing, corrects.known⟩
        exact absurd (LawfulEqCmp.eq_of_compare same ▸ known) missing
      · exact absurd member missing
  | observed unit inTurn =>
      obtain ⟨_, _, _, _, _, index, units, _⟩ :=
        observed_fields ledger unit functions
      rw [units] at found
      rcases TreeMap.mem_insert.mp found with same | member
      · rw [← LawfulEqCmp.eq_of_compare same]
        exact ⟨inTurn.expected, index⟩
      · exact absurd member missing
  | restarted newAlpha order =>
      obtain ⟨_, _, _, _, _, _, units⟩ := restarted_fields ledger newAlpha order
      rw [units] at found
      exact absurd found TreeMap.not_mem_emptyc

/-- A step keeps the traces apart exactly where it corrects no invalidated epoch. -/
theorem Effect.apart (kept : LedgerKept budget ledger)
    : after.tracedEpochs.Nodup
      ↔ ledger.tracedEpochs.Nodup ∧ ¬CorrectsAgain ⟨ledger, operation, result, after⟩ := by
  have appended (epochs : after.tracedEpochs = ledger.tracedEpochs ++ [ledger.currentEpoch])
      : after.tracedEpochs.Nodup
        ↔ ledger.tracedEpochs.Nodup ∧ ledger.status ≠ .invalidated := by
    rw [epochs, List.nodup_append_comm, List.singleton_append, List.nodup_cons, kept.closed,
      and_comm]
  cases effect with
  | refused operation error other =>
      exact (and_iff_left (fun again => other again.2)).symm
  | repeated unit known other => exact (and_iff_left (fun again => other again.2)).symm
  | corrected unit existing corrects =>
      rw [appended (tracedEpochs_corrected ledger unit)]
      refine and_congr_right ?_
      intro _
      refine not_congr ⟨fun invalidated => ?_, fun again => again.1⟩
      exact ⟨invalidated, unit, existing, rfl, corrects⟩
  | observed unit inTurn =>
      obtain ⟨_, _, _, epochs, _⟩ := observed_fields ledger unit functions
      have traced : (ledger.observed functions unit).tracedEpochs = ledger.tracedEpochs := by
        rw [MonitorLedgerState.tracedEpochs, epochs, MonitorLedgerState.tracedEpochs]
      rw [traced]
      exact (and_iff_left (fun again => inTurn.running again.1)).symm
  | restarted newAlpha order =>
      have other
          : ¬CorrectsAgain
              ⟨ledger, .startNewEpoch newAlpha order, .ok (), ledger.restarted newAlpha order⟩ := by
        rintro ⟨_, _, _, impossible, _⟩
        cases impossible
      obtain ⟨_, _, _, traced, _⟩ := restarted_fields ledger newAlpha order
      by_cases invalidated : ledger.status = .invalidated
      · rw [if_pos invalidated] at traced
        rw [traced]
        exact (and_iff_left other).symm
      · rw [if_neg invalidated] at traced
        rw [appended traced]
        exact and_congr_right (fun _ => iff_of_true invalidated other)

end Step

-- What every run keeps

structure LedgerLawful (budget first : R) (history : List (LedgerStep R))
    (final : MonitorLedgerState R) : Prop where
  spent : final.alphaSpent = first + (startedAlphas history).sum
  rising : ∀ step ∈ history, step.before.alphaSpent ≤ step.after.alphaSpent
  within : final.alphaTotal = budget ∧ final.alphaSpent ≤ budget + alphaSlack
  once : final.tracedEpochs.Nodup
  finalized
    : ∀ id, id ∈ final.finalizedUnits ↔ id ∈ final.prespecifiedOrder.take final.nextOrderIndex
  turns
    : ∀ step ∈ history, ∀ id,
        id ∉ step.before.finalizedUnits
        → id ∈ step.after.finalizedUnits
        → step.before.prespecifiedOrder[step.before.nextOrderIndex]? = some id
          ∧ step.after.nextOrderIndex = step.before.nextOrderIndex + 1
  unchanged : ∀ step ∈ history, ∀ error, step.output = .error error → step.after = step.before

section Run

variable {budget first : R} {order : List String} {start : MonitorLedgerState R}

/-- A ledger begins in order, with the alpha of its first epoch spent and no epoch traced. -/
theorem initializeLedger_ok [IsStrictOrderedRing R]
    (begun : MonitorLedgerState.initializeLedger budget first order = .ok start)
    : LedgerKept budget start ∧ start.alphaSpent = first ∧ start.tracedEpochs = [] := by
  simp only [MonitorLedgerState.initializeLedger, bind_eq_ok, ensure_eq_ok, pure_eq_ok] at begun
  obtain ⟨_, _, _, ⟨_, affordable⟩, _, _, _, _, rfl⟩ := begun
  refine ⟨⟨rfl, ?_, ?_, by simp [MonitorLedgerState.tracedEpochs], ?_⟩, rfl, rfl⟩
  · have slack : (0 : R) ≤ alphaSlack := by
      rw [alphaSlack]
      positivity
    exact affordable.trans (le_add_of_nonneg_right slack)
  · intro id
    exact iff_of_false TreeMap.not_mem_emptyc List.not_mem_nil
  · exact iff_of_false List.not_mem_nil MonitorStatus.noConfusion

theorem history_effect {events : List (MonitorOperation R)}
    {step : LedgerStep R} (member : step ∈ (monitor functions).history start events)
    : Effect functions step.before step.event step.after step.output := by
  obtain ⟨first, event, later, rfl, rfl⟩ := (monitor functions).mem_history member
  exact next_effect functions _ event

/-- The ledger stays in order. -/
theorem final_kept (functions : LogExp R) (kept : LedgerKept budget start)
    (events : List (MonitorOperation R))
    : LedgerKept budget ((monitor functions).final start events) :=
  (monitor functions).invariant kept
    (fun ledger event ordered => (next_effect functions ledger event).kept ordered) events

/-- The alpha spent is what the epochs were given, by induction on the run. -/
theorem final_spent (events : List (MonitorOperation R))
    : ((monitor functions).final start events).alphaSpent
      = start.alphaSpent + (startedAlphas ((monitor functions).history start events)).sum := by
  refine (monitor functions).run_induction
    (motive := fun _ history final =>
      final.alphaSpent = start.alphaSpent + (startedAlphas history).sum) ?_ ?_ events
  · exact (add_zero _).symm
  · intro events event ih
    have spends :=
      (next_effect functions ((monitor functions).final start events) event).spends
    rw [spends, ih, startedAlphas, startedAlphas, List.filterMap_append, List.sum_append,
      add_assoc]
    refine congrArg _ (congrArg _ ?_)
    rw [List.filterMap_cons, List.filterMap_nil]
    change (startedAlpha (monitor functions |>.transition _ event)).getD 0 = _
    cases startedAlpha ((monitor functions).transition _ event) with
    | none => rfl
    | some alpha => exact (add_zero alpha).symm

/-- Every epoch is traced once exactly where no step corrects an epoch again, by induction on
the run.
-/
theorem final_apart (kept : LedgerKept budget start) (untraced : start.tracedEpochs = [])
    (events : List (MonitorOperation R))
    : ((monitor functions).final start events).tracedEpochs.Nodup
      ↔ ∀ step ∈ (monitor functions).history start events, ¬CorrectsAgain step := by
  refine (monitor functions).run_induction
    (motive := fun _ history final =>
      final.tracedEpochs.Nodup ↔ ∀ step ∈ history, ¬CorrectsAgain step) ?_ ?_ events
  · simp [untraced]
  · intro events event ih
    have apart :=
      (next_effect functions ((monitor functions).final start events) event).apart
        (final_kept functions kept events)
    rw [apart, ih]
    simp only [List.forall_mem_append, List.forall_mem_singleton, Machine.transition]

/-- A ledger keeps its account and its order in every run, and traces each epoch once exactly
where no step corrects an epoch that is invalidated already.
-/
theorem ledger_lawful_iff [IsStrictOrderedRing R] (functions : LogExp R)
    (begun : MonitorLedgerState.initializeLedger budget first order = .ok start)
    (events : List (MonitorOperation R))
    : LedgerLawful budget first ((monitor functions).history start events)
        ((monitor functions).final start events)
      ↔ ∀ step ∈ (monitor functions).history start events, ¬CorrectsAgain step := by
  obtain ⟨kept, opened, untraced⟩ := initializeLedger_ok begun
  have reached := final_kept functions kept events
  refine Iff.trans ?_ (final_apart kept untraced events)
  constructor
  · exact LedgerLawful.once
  · intro once
    refine ⟨?_, ?_, ⟨reached.total, reached.within⟩, once, reached.finalized, ?_, ?_⟩
    · rw [final_spent, opened]
    · exact fun step member => (history_effect member).rising
    · exact fun step member id => (history_effect member).turn
    · intro step member error refused
      have effect := history_effect member
      rw [refused] at effect
      exact effect.refusal

end Run

def soleLedger (unit : String) : MonitorLedgerState R :=
  {
    status := .active
    currentEpoch := 1
    alphaTotal := 1 / 10
    alphaSpent := 1 / 20
    currentEpochAlpha := 1 / 20
    tau := defaultMonitorTau
    logE := fun _ => 0
    eValue := 1
    threshold := 1 / (1 / 20)
    alarmTriggered := false
    judgedHarmUnits := 0
    unresolvedUnits := 0
    unflaggedUnits := 0
    prespecifiedOrder := [unit]
    nextOrderIndex := 0
    finalizedUnits := ∅
    historicalEpochs := []
    recommendedAction := .none
  }

theorem soleLedger_begun {unit : String} (named : isBlank unit = false)
    : MonitorLedgerState.initializeLedger (1 / 10 : ℝ) (1 / 20) [unit]
      = .ok (soleLedger unit) := by
  have budget : ((0 : ℝ) ≤ 1 / 10 ∧ (1 : ℝ) / 10 < 1) ∧ (1 : ℝ) / 10 ≠ 0 := by norm_num
  have affordable : (0 : ℝ) < 1 / 20 ∧ (1 : ℝ) / 20 ≤ 1 / 10 := by norm_num
  rw [MonitorLedgerState.initializeLedger, ensure_bind budget, ensure_bind affordable,
    ensure_bind (List.cons_ne_nil _ _), checkOrder, ensure_bind ⟨named, List.not_mem_nil⟩]
  rfl

def labelOf (unit : String) (labelRevision : Nat) (judgedHarm : Bool) : FinalizedMonitorUnit :=
  { unitId := unit, labelRevision := labelRevision, judgedHarm := judgedHarm, unresolved := false }

omit [LinearOrder R] in
theorem soleLedger_inTurn (unit : String) (labelRevision : Nat) (judgedHarm : Bool)
    : InTurn (R := R) (soleLedger unit) (labelOf unit labelRevision judgedHarm) :=
  ⟨TreeMap.getElem?_emptyc, MonitorStatus.noConfusion, rfl⟩

/-- A label of the unit is then corrected by another of a later revision. -/
theorem soleLedger_corrects (functions : LogExp R)
    : Corrects ((soleLedger "a").observed functions (labelOf "a" 1 false)) (labelOf "a" 2 true)
        (labelOf "a" 1 false) := by
  obtain ⟨_, _, _, _, _, _, units, _⟩ :=
    observed_fields (soleLedger "a") (labelOf "a" 1 false) functions
  refine ⟨?_, by decide, by decide⟩
  rw [units]
  exact TreeMap.getElem?_insert_self

def twiceCorrected : List (MonitorOperation R) :=
  [.recordUnit (labelOf "a" 1 false), .recordUnit (labelOf "a" 2 true),
    .recordUnit (labelOf "a" 3 false)]

theorem twiceCorrected_final (functions : LogExp R)
    : (monitor functions).final (soleLedger "a") twiceCorrected
      = (((soleLedger "a").observed functions (labelOf "a" 1 false)).corrected
          (labelOf "a" 2 true)).corrected (labelOf "a" 3 false) := by
  have first
      : (monitor functions).next (soleLedger "a") (.recordUnit (labelOf "a" 1 false))
        = ((soleLedger "a").observed functions (labelOf "a" 1 false), .ok ()) :=
    next_observed (soleLedger_inTurn "a" 1 false)
  have again
      : Corrects
          (((soleLedger "a").observed functions (labelOf "a" 1 false)).corrected
            (labelOf "a" 2 true))
          (labelOf "a" 3 false) (labelOf "a" 2 true) :=
    ⟨TreeMap.getElem?_insert_self, by decide, by decide⟩
  simp only [twiceCorrected, Machine.final, List.foldl_cons, List.foldl_nil, first,
    next_corrected (soleLedger_corrects functions), next_corrected again]

/-- Two corrections in one epoch trace it twice. -/
theorem ledger_traced_twice
    : MonitorLedgerState.initializeLedger (1 / 10 : ℝ) (1 / 20) ["a"] = .ok (soleLedger "a")
      ∧ ¬LedgerLawful (1 / 10 : ℝ) (1 / 20)
        ((monitor .real).history (soleLedger "a") twiceCorrected)
        ((monitor .real).final (soleLedger "a") twiceCorrected) := by
  refine ⟨soleLedger_begun (by decide +kernel), ?_⟩
  intro lawful
  have once := lawful.once
  rw [twiceCorrected_final, tracedEpochs_corrected, tracedEpochs_corrected] at once
  have current
      : (((soleLedger "a").observed LogExp.real (labelOf "a" 1 false)).corrected
          (labelOf "a" 2 true)).currentEpoch
        = ((soleLedger "a").observed LogExp.real (labelOf "a" 1 false)).currentEpoch := rfl
  rw [current] at once
  exact List.disjoint_of_nodup_append once (List.mem_append_right _ List.mem_cons_self)
    List.mem_cons_self

-- A run through a correction and a second epoch

/-- A unit is finalized and corrected, and another epoch finalizes another unit. -/
noncomputable def renewal : List (MonitorOperation ℝ) :=
  [.recordUnit (labelOf "a" 1 false), .recordUnit (labelOf "a" 2 true),
    .startNewEpoch (1 / 20) ["b"], .recordUnit (labelOf "b" 1 false)]

namespace Renewal

noncomputable def finalized : MonitorLedgerState ℝ :=
  (soleLedger "a").observed .real (labelOf "a" 1 false)

noncomputable def corrected : MonitorLedgerState ℝ := finalized.corrected (labelOf "a" 2 true)

/-- The ledger at the start of its second epoch. -/
noncomputable def restarted : MonitorLedgerState ℝ := corrected.restarted (1 / 20) ["b"]

noncomputable def steps : List (LedgerStep ℝ) :=
  [⟨soleLedger "a", .recordUnit (labelOf "a" 1 false), .ok (), finalized⟩,
    ⟨finalized, .recordUnit (labelOf "a" 2 true), .ok (), corrected⟩,
    ⟨corrected, .startNewEpoch (1 / 20) ["b"], .ok (), restarted⟩,
    ⟨restarted, .recordUnit (labelOf "b" 1 false), .ok (),
      restarted.observed .real (labelOf "b" 1 false)⟩]

/-- The rest of the budget goes to the second epoch. -/
theorem startable : Startable corrected (1 / 20) ["b"] := by
  obtain ⟨total, spent, _⟩ := observed_fields (soleLedger "a") (labelOf "a" 1 false) LogExp.real
  refine ⟨by norm_num, ?_, List.cons_ne_nil _ _, ?_, List.nodup_singleton _⟩
  · change finalized.alphaSpent + 1 / 20 ≤ finalized.alphaTotal + alphaSlack
    rw [finalized, total, spent, soleLedger, alphaSlack]
    norm_num
  · intro other member
    rw [List.mem_singleton.mp member]
    decide +kernel

theorem inTurn : InTurn restarted (labelOf "b" 1 false) :=
  ⟨TreeMap.getElem?_emptyc, MonitorStatus.noConfusion, rfl⟩

theorem history : (monitor .real).history (soleLedger "a") renewal = steps := by
  have first
      : (monitor .real).next (soleLedger "a") (.recordUnit (labelOf "a" 1 false))
        = (finalized, .ok ()) :=
    next_observed (soleLedger_inTurn "a" 1 false)
  have second
      : (monitor .real).next finalized (.recordUnit (labelOf "a" 2 true))
        = (corrected, .ok ()) :=
    next_corrected (soleLedger_corrects .real)
  have third
      : (monitor .real).next corrected (.startNewEpoch (1 / 20) ["b"])
        = (restarted, .ok ()) :=
    next_restarted startable
  have fourth
      : (monitor .real).next restarted (.recordUnit (labelOf "b" 1 false))
        = (restarted.observed .real (labelOf "b" 1 false), .ok ()) :=
    next_observed inTurn
  simp only [renewal, steps, Machine.history, Machine.transition, first, second, third, fourth]

end Renewal

/-- A unit is corrected and a second epoch keeps the account, by the general result: both shares
of alpha are spent, and the first epoch is traced once.
-/
theorem ledger_lawful_renewal
    : LedgerLawful (1 / 10 : ℝ) (1 / 20)
        ((monitor .real).history (soleLedger "a") renewal)
        ((monitor .real).final (soleLedger "a") renewal) := by
  refine (ledger_lawful_iff .real (soleLedger_begun (by decide +kernel)) _).mpr ?_
  rw [Renewal.history]
  intro step member again
  rcases List.mem_cons.mp member with rfl | member
  · exact absurd again.1 MonitorStatus.noConfusion
  rcases List.mem_cons.mp member with rfl | member
  · obtain ⟨_, _, _, _, _, _, _, alarmed | same⟩ :=
      observed_fields (soleLedger "a") (labelOf "a" 1 false) LogExp.real
    · cases alarmed.symm.trans again.1
    · cases same.symm.trans again.1
  rcases List.mem_cons.mp member with rfl | member
  · obtain ⟨_, _, _, impossible, _⟩ := again
    cases impossible
  · rw [List.mem_singleton.mp member] at again
    exact absurd again.1 MonitorStatus.noConfusion

end SkillRanker.Learning
