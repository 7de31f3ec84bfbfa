import SkillRanker.Learning.MonitorRuns

/-! Units across the epochs of a ledger: a unit is taken into an e-value once where no epoch asks
for it again.
-/

namespace SkillRanker.Learning

open SkillRanker.Library
open Std (TreeMap)

variable {R : Type} [Field R] [LinearOrder R] {functions : LogExp R}
variable {unit : FinalizedMonitorUnit}

/-- The unit that a step takes into the e-value of its epoch. -/
def contribution (step : LedgerStep R) : Option String :=
  match step.event, step.output with
  | .recordUnit unit, .ok () =>
      if unit.unitId ∈ step.before.finalizedUnits then none else some unit.unitId
  | _, _ => none

/-- The units a run has taken into its e-values, in order. -/
def contributions (history : List (LedgerStep R)) : List String := history.filterMap contribution

variable {ledger after : MonitorLedgerState R}

omit [Field R] [LinearOrder R] in
/-- A unit that is not finalized is taken. -/
theorem contribution_fresh (missing : unit.unitId ∉ ledger.finalizedUnits)
    : contribution ⟨ledger, .recordUnit unit, .ok (), after⟩ = some unit.unitId :=
  if_neg missing

omit [Field R] [LinearOrder R] in
/-- A finalized unit is not taken again. -/
theorem contribution_known (known : unit.unitId ∈ ledger.finalizedUnits)
    : contribution ⟨ledger, .recordUnit unit, .ok (), after⟩ = none :=
  if_pos known

/-- No epoch asks for a unit that an epoch before it has taken. -/
def FreshOrders (history : List (LedgerStep R)) : Prop :=
  ∀ earlier step later,
    history = earlier ++ step :: later
    → ∀ newAlpha order,
        step.event = .startNewEpoch newAlpha order
        → Startable step.before newAlpha order
        → ∀ unit ∈ order, unit ∉ contributions earlier

/-- The units that are still to come are apart from those that are taken. -/
structure UnitsKept (history : List (LedgerStep R)) (ledger : MonitorLedgerState R) : Prop where
  once : (contributions history).Nodup
  distinct : ledger.prespecifiedOrder.Nodup
  ahead
    : ∀ unit ∈ ledger.prespecifiedOrder.drop ledger.nextOrderIndex,
        unit ∉ contributions history

omit [Field R] [LinearOrder R] in
theorem contributions_snoc (history : List (LedgerStep R)) (step : LedgerStep R)
    : contributions (history ++ [step])
      = contributions history ++ (contribution step).toList := by
  rw [contributions, contributions, List.filterMap_append]
  refine congrArg _ ?_
  rw [List.filterMap_cons, List.filterMap_nil]
  cases contribution step <;> rfl

/-- A unit that is taken in its turn comes from the head of those ahead. -/
theorem drop_of_expected {order : List String} {index : Nat} {unit : String}
    (expected : order[index]? = some unit)
    : order.drop index = unit :: order.drop (index + 1) := by
  obtain ⟨within, rfl⟩ := List.getElem?_eq_some_iff.mp expected
  exact List.drop_eq_getElem_cons within

omit [Field R] [LinearOrder R] in
theorem InTurn.missing (inTurn : InTurn ledger unit)
    : unit.unitId ∉ ledger.finalizedUnits := by
  intro member
  obtain ⟨existing, known⟩ := mem_iff_getElem?.mp member
  rw [inTurn.fresh] at known
  cases known

section Step

variable {history : List (LedgerStep R)} {ledger after : MonitorLedgerState R}
  {operation : MonitorOperation R} {result : Except (LearningError R) Unit}

omit [Field R] [LinearOrder R] in
theorem UnitsKept.idle (kept : UnitsKept history ledger)
    (idle : contribution ⟨ledger, operation, result, after⟩ = none)
    (order : after.prespecifiedOrder = ledger.prespecifiedOrder)
    (index : after.nextOrderIndex = ledger.nextOrderIndex)
    : UnitsKept (history ++ [⟨ledger, operation, result, after⟩]) after := by
  have same
      : contributions (history ++ [⟨ledger, operation, result, after⟩])
        = contributions history := by
    rw [contributions_snoc, idle, Option.toList_none, List.append_nil]
  refine ⟨?_, ?_, ?_⟩
  · rw [same]
    exact kept.once
  · rw [order]
    exact kept.distinct
  · rw [same, order, index]
    exact kept.ahead

theorem UnitsKept.observed (kept : UnitsKept history ledger) (inTurn : InTurn ledger unit)
    : UnitsKept
        (history ++ [⟨ledger, .recordUnit unit, .ok (), ledger.observed functions unit⟩])
        (ledger.observed functions unit) := by
  obtain ⟨_, _, _, _, order, index, _⟩ := observed_fields ledger unit functions
  have missing := inTurn.missing
  have taken
      : contribution ⟨ledger, .recordUnit unit, .ok (), ledger.observed functions unit⟩
        = some unit.unitId :=
    contribution_fresh missing
  have ahead := drop_of_expected inTurn.expected
  have unseen : unit.unitId ∉ contributions history :=
    kept.ahead _ (ahead ▸ List.mem_cons_self)
  have apart : unit.unitId ∉ ledger.prespecifiedOrder.drop (ledger.nextOrderIndex + 1) := by
    have distinct := kept.distinct.sublist (List.drop_sublist ledger.nextOrderIndex _)
    rw [ahead, List.nodup_cons] at distinct
    exact distinct.1
  refine ⟨?_, by rw [order]; exact kept.distinct, ?_⟩
  · rw [contributions_snoc, taken, Option.toList_some, List.nodup_append_comm,
      List.singleton_append, List.nodup_cons]
    exact ⟨unseen, kept.once⟩
  · rw [contributions_snoc, taken, order, index]
    intro other member inTaken
    rcases List.mem_append.mp inTaken with before | last
    · exact kept.ahead other (ahead ▸ List.mem_cons_of_mem _ member) before
    · rw [Option.toList_some, List.mem_singleton] at last
      exact apart (last ▸ member)

theorem UnitsKept.step (kept : UnitsKept history ledger)
    (effect : Effect functions ledger operation after result)
    (fresh
      : ∀ newAlpha order,
          operation = .startNewEpoch newAlpha order
          → Startable ledger newAlpha order
          → ∀ unit ∈ order, unit ∉ contributions history)
    : UnitsKept (history ++ [⟨ledger, operation, result, after⟩]) after := by
  cases effect with
  | refused operation => cases operation <;> exact kept.idle rfl rfl rfl
  | repeated unit known => exact kept.idle (contribution_known known) rfl rfl
  | corrected unit existing corrects =>
      have known : unit.unitId ∈ ledger.finalizedUnits :=
        mem_iff_getElem?.mpr ⟨existing, corrects.known⟩
      exact kept.idle (contribution_known known) rfl rfl
  | observed unit inTurn => exact kept.observed inTurn
  | restarted newAlpha order startable =>
      have same
          : contributions
              (history
                ++ [⟨ledger, .startNewEpoch newAlpha order, .ok (),
                  ledger.restarted newAlpha order⟩])
            = contributions history := by
        rw [contributions_snoc]
        exact List.append_nil _
      refine ⟨?_, startable.distinct, ?_⟩
      · rw [same]
        exact kept.once
      · rw [same]
        intro unit member
        exact fresh newAlpha order rfl startable unit (List.mem_of_mem_drop member)

end Step

theorem FreshOrders.of_snoc {history : List (LedgerStep R)} {step : LedgerStep R}
    (fresh : FreshOrders (history ++ [step]))
    : FreshOrders history := by
  intro earlier taken later split
  refine fresh earlier taken (later ++ [step]) ?_
  rw [split, List.append_assoc, List.cons_append]

/-- A step keeps the orders fresh where it asks for fresh units. -/
theorem FreshOrders.snoc {history : List (LedgerStep R)} {step : LedgerStep R}
    (fresh : FreshOrders history)
    (asks
      : ∀ newAlpha order,
          step.event = .startNewEpoch newAlpha order
          → ∀ unit ∈ order, unit ∉ contributions history)
    : FreshOrders (history ++ [step]) := by
  intro earlier taken later split
  rcases List.eq_nil_or_concat later with rfl | ⟨rest, last, rfl⟩
  · obtain ⟨rfl, rfl⟩ := List.append_inj' split rfl |>.imp_right List.singleton_inj.mp
    exact fun newAlpha order event _ => asks newAlpha order event
  · rw [List.concat_eq_append, ← List.cons_append, ← List.append_assoc] at split
    obtain ⟨same, -⟩ := List.append_inj' split rfl
    exact fresh earlier taken rest same

/-- Where each epoch asks for fresh units, every unit is taken into an e-value at most once, by
induction on the run.
-/
theorem units_once (functions : LogExp R) {budget first : R} {order : List String}
    {start : MonitorLedgerState R}
    (begun : MonitorLedgerState.initializeLedger budget first order = .ok start)
    (events : List (MonitorOperation R))
    (fresh : FreshOrders ((monitor functions).history start events))
    : (contributions ((monitor functions).history start events)).Nodup := by
  have distinct : start.prespecifiedOrder.Nodup := by
    simp only [MonitorLedgerState.initializeLedger, bind_eq_ok, ensure_eq_ok, pure_eq_ok] at begun
    obtain ⟨_, _, _, _, _, _, _, passed, rfl⟩ := begun
    exact (checkOrder_ok passed).1
  have kept : FreshOrders ((monitor functions).history start events)
      → UnitsKept ((monitor functions).history start events)
        ((monitor functions).final start events) := by
    refine (monitor functions).run_induction
      (motive := fun _ history final => FreshOrders history → UnitsKept history final) ?_ ?_
      events
    · intro _
      exact ⟨.nil, distinct, fun _ _ => List.not_mem_nil⟩
    · intro events event ih extended
      exact (ih extended.of_snoc).step (next_effect functions _ event)
        (fun newAlpha order => extended _ _ [] rfl newAlpha order)
  exact (kept fresh).once

def observedTwice : List (MonitorOperation R) :=
  [.recordUnit (labelOf "a" 1 false), .startNewEpoch (1 / 20) ["a"],
    .recordUnit (labelOf "a" 1 false)]

/-- Another epoch may ask for a unit of the first. -/
theorem soleLedger_startable (unit : FinalizedMonitorUnit)
    : Startable ((soleLedger "a").observed .real unit) (1 / 20) ["a"] := by
  obtain ⟨total, spent, _⟩ := observed_fields (soleLedger "a") unit LogExp.real
  refine ⟨by norm_num, ?_, List.cons_ne_nil _ _, ?_, List.nodup_singleton _⟩
  · rw [total, spent, soleLedger, alphaSlack]
    norm_num
  · intro other member
    rw [List.mem_singleton.mp member]
    decide +kernel

/-- Its second epoch takes the unit of the first once more. -/
theorem unit_taken_twice
    : MonitorLedgerState.initializeLedger (1 / 10 : ℝ) (1 / 20) ["a"] = .ok (soleLedger "a")
      ∧ ¬(contributions ((monitor .real).history (soleLedger "a") observedTwice)).Nodup := by
  refine ⟨soleLedger_begun (by decide +kernel), ?_⟩
  have again
      : InTurn
          (((soleLedger "a").observed .real (labelOf "a" 1 false)).restarted (1 / 20) ["a"])
          (labelOf "a" 1 false) :=
    ⟨TreeMap.getElem?_emptyc, MonitorStatus.noConfusion, rfl⟩
  have taken
      : contributions ((monitor .real).history (soleLedger "a") observedTwice)
        = ["a", "a"] := by
    simp only [observedTwice, Machine.history, Machine.transition,
      next_observed (soleLedger_inTurn "a" 1 false), next_restarted (soleLedger_startable _),
      next_observed again]
    rw [contributions,
      List.filterMap_cons_some (contribution_fresh TreeMap.not_mem_emptyc),
      List.filterMap_cons_none rfl,
      List.filterMap_cons_some (contribution_fresh TreeMap.not_mem_emptyc),
      List.filterMap_nil]
    rfl
  rw [taken]
  decide

namespace Renewal

theorem known : "a" ∈ finalized.finalizedUnits :=
  mem_iff_getElem?.mpr ⟨_, (soleLedger_corrects .real).known⟩

/-- The second epoch asks for another unit than the first has taken. -/
theorem freshOrders : FreshOrders steps := by
  have first : contribution steps[0] = some "a" := contribution_fresh TreeMap.not_mem_emptyc
  have second : contribution steps[1] = none := contribution_known known
  have begun : FreshOrders ([] : List (LedgerStep ℝ)) := by
    intro earlier step later split
    cases List.append_ne_nil_of_right_ne_nil _ (List.cons_ne_nil _ _) split.symm
  have finalizes : FreshOrders [steps[0]] := by
    refine begun.snoc fun _ _ event => ?_
    cases event
  have corrects : FreshOrders [steps[0], steps[1]] := by
    refine finalizes.snoc fun _ _ event => ?_
    cases event
  have asks : FreshOrders [steps[0], steps[1], steps[2]] := by
    refine corrects.snoc fun newAlpha order event unit member => ?_
    obtain ⟨rfl, rfl⟩ := MonitorOperation.startNewEpoch.inj event
    rw [List.mem_singleton.mp member, contributions, List.filterMap_cons_some first,
      List.filterMap_cons_none second, List.filterMap_nil]
    decide
  refine asks.snoc fun _ _ event => ?_
  cases event

/-- Each epoch takes its unit. -/
theorem contributions_steps : contributions steps = ["a", "b"] := by
  rw [contributions, steps,
    List.filterMap_cons_some (contribution_fresh TreeMap.not_mem_emptyc),
    List.filterMap_cons_none (contribution_known known), List.filterMap_cons_none rfl,
    List.filterMap_cons_some (contribution_fresh TreeMap.not_mem_emptyc), List.filterMap_nil]
  rfl

end Renewal

/-- The units of two epochs are taken once each, by the general result. -/
theorem units_once_renewal
    : contributions ((monitor .real).history (soleLedger "a") renewal) = ["a", "b"]
      ∧ (contributions ((monitor .real).history (soleLedger "a") renewal)).Nodup := by
  refine ⟨Renewal.history ▸ Renewal.contributions_steps, ?_⟩
  exact units_once .real (soleLedger_begun (by decide +kernel)) _
    (Renewal.history ▸ Renewal.freshOrders)

end SkillRanker.Learning
