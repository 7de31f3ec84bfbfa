import SkillRanker.Library.Renaming
import SkillRanker.Library.Stateful
import SkillRanker.Learning.Monitor

/-! What each operation on the monitor's ledger can do. A refusal writes nothing. -/

namespace SkillRanker.Learning

open SkillRanker.Library
open Std (TreeMap)

variable {R : Type} [Field R] [LinearOrder R] {functions : LogExp R}
variable {order : List String} {unit : FinalizedMonitorUnit} {ledger : MonitorLedgerState R}

def MonitorLedgerState.corrected (ledger : MonitorLedgerState R) (unit : FinalizedMonitorUnit)
    : MonitorLedgerState R :=
  { (ledger.archive .invalidated).keep unit with
    status := .invalidated
    recommendedAction := .allocateNewEpoch
  }

def MonitorLedgerState.observed (functions : LogExp R) (ledger : MonitorLedgerState R)
    (unit : FinalizedMonitorUnit)
    : MonitorLedgerState R :=
  let observed := ledger.accumulator.observeUnit functions unit.judgedHarm unit.unresolved
  let counted := ledger.accumulate observed
  let judged := if observed.1.alarmTriggered then counted.alarm else counted
  { judged.keep unit with nextOrderIndex := judged.nextOrderIndex + 1 }

/-- The ledger at the start of an epoch. The epoch before it is kept unless a correction has
kept it already.
-/
def MonitorLedgerState.restarted (ledger : MonitorLedgerState R) (newAlpha : R)
    (order : List String)
    : MonitorLedgerState R :=
  beginEpoch newAlpha order
    (if ledger.status ≠ .invalidated then ledger.archive ledger.status else ledger)

/-- A label that differs from the finalized one and is not stale. -/
structure Corrects (ledger : MonitorLedgerState R) (unit existing : FinalizedMonitorUnit)
    : Prop where
  known : ledger.finalizedUnits[unit.unitId]? = some existing
  current : existing.labelRevision ≤ unit.labelRevision
  changed
    : ¬(unit.labelRevision = existing.labelRevision ∧ unit.judgedHarm = existing.judgedHarm
        ∧ unit.unresolved = existing.unresolved)

structure InTurn (ledger : MonitorLedgerState R) (unit : FinalizedMonitorUnit) : Prop where
  fresh : ledger.finalizedUnits[unit.unitId]? = none
  running : ledger.status ≠ .invalidated
  expected : ledger.prespecifiedOrder[ledger.nextOrderIndex]? = some unit.unitId

/-- An epoch that the budget and its order allow. -/
structure Startable (ledger : MonitorLedgerState R) (newAlpha : R) (order : List String)
    : Prop where
  positive : 0 < newAlpha
  budget : ledger.alphaSpent + newAlpha ≤ ledger.alphaTotal + alphaSlack
  nonempty : order ≠ []
  named : ∀ unit ∈ order, isBlank unit = false
  distinct : order.Nodup

def Correcting (ledger : MonitorLedgerState R) (operation : MonitorOperation R) : Prop :=
  ∃ unit existing, operation = .recordUnit unit ∧ Corrects ledger unit existing

/-- What an operation does to a ledger, by its kinds. -/
inductive Effect (functions : LogExp R) (ledger : MonitorLedgerState R)
    : MonitorOperation R → MonitorLedgerState R → Except (LearningError R) Unit → Prop
  | refused (operation : MonitorOperation R) (error : LearningError R)
    (other : ¬Correcting ledger operation)
    : Effect functions ledger operation ledger (.error error)
  | repeated (unit : FinalizedMonitorUnit) (known : unit.unitId ∈ ledger.finalizedUnits)
    (other : ¬Correcting ledger (.recordUnit unit))
    : Effect functions ledger (.recordUnit unit) ledger (.ok ())
  | corrected (unit existing : FinalizedMonitorUnit) (corrects : Corrects ledger unit existing)
    : Effect functions ledger (.recordUnit unit) (ledger.corrected unit) (.ok ())
  | observed (unit : FinalizedMonitorUnit) (inTurn : InTurn ledger unit)
    : Effect functions ledger (.recordUnit unit) (ledger.observed functions unit) (.ok ())
  | restarted (newAlpha : R) (order : List String) (startable : Startable ledger newAlpha order)
    : Effect functions ledger (.startNewEpoch newAlpha order) (ledger.restarted newAlpha order)
        (.ok ())

/-- An order that passes repeats no unit, by induction on it. -/
theorem checkOrder_ok {Error : Type} {error : Error} {seen : List String} {result : Unit}
    (passed : checkOrder error seen order = .ok result)
    : order.Nodup ∧ ∀ unit ∈ order, unit ∉ seen ∧ isBlank unit = false := by
  induction order generalizing seen with
  | nil => exact ⟨.nil, by simp⟩
  | cons first rest ih =>
      simp only [checkOrder, bind_eq_ok, ensure_eq_ok] at passed
      obtain ⟨_, ⟨named, unseen⟩, later⟩ := passed
      obtain ⟨distinct, apart⟩ := ih later
      refine ⟨List.nodup_cons.mpr ⟨?_, distinct⟩, ?_⟩
      · intro again
        exact (apart first again).1 List.mem_cons_self
      · intro unit member
        rcases List.mem_cons.mp member with rfl | inRest
        · exact ⟨unseen, named⟩
        · obtain ⟨missing, notBlank⟩ := apart unit inRest
          exact ⟨fun inSeen => missing (List.mem_cons_of_mem _ inSeen), notBlank⟩

theorem checkOrder_of_distinct {Error : Type} {error : Error} {seen : List String}
    (named : ∀ unit ∈ order, isBlank unit = false) (distinct : order.Nodup)
    (unseen : ∀ unit ∈ order, unit ∉ seen)
    : checkOrder error seen order = .ok () := by
  induction order generalizing seen with
  | nil => rfl
  | cons first rest ih =>
      rw [List.nodup_cons] at distinct
      rw [checkOrder,
        ensure_bind ⟨named first List.mem_cons_self, unseen first List.mem_cons_self⟩]
      refine ih (fun unit member => named unit (List.mem_cons_of_mem _ member)) distinct.2 ?_
      intro unit member inSeen
      rcases List.mem_cons.mp inSeen with rfl | before
      · exact distinct.1 member
      · exact unseen unit (List.mem_cons_of_mem _ member) before

variable (ledger)

omit [Field R] [LinearOrder R] in
theorem correctUnit_cases (existing unit : FinalizedMonitorUnit)
    : (unit.labelRevision < existing.labelRevision
        ∧ ∃ error, correctUnit existing unit ledger = .error error ledger)
      ∨ ((unit.labelRevision = existing.labelRevision ∧ unit.judgedHarm = existing.judgedHarm
          ∧ unit.unresolved = existing.unresolved)
        ∧ correctUnit existing unit ledger = .ok () ledger)
      ∨ (existing.labelRevision ≤ unit.labelRevision
          ∧ ¬(unit.labelRevision = existing.labelRevision
            ∧ unit.judgedHarm = existing.judgedHarm ∧ unit.unresolved = existing.unresolved)
          ∧ correctUnit existing unit ledger = .ok () (ledger.corrected unit)) := by
  by_cases stale : unit.labelRevision < existing.labelRevision
  · rw [correctUnit, if_pos stale]
    exact .inl ⟨stale, _, rfl⟩
  · by_cases same : unit.labelRevision = existing.labelRevision
        ∧ unit.judgedHarm = existing.judgedHarm ∧ unit.unresolved = existing.unresolved
    · rw [correctUnit, if_neg stale, if_pos same]
      exact .inr (.inl ⟨same, rfl⟩)
    · rw [correctUnit, if_neg stale, if_neg same]
      exact .inr (.inr ⟨Nat.le_of_not_lt stale, same, rfl⟩)

theorem observeInTurn_eq (unit : FinalizedMonitorUnit)
    : observeInTurn functions unit ledger = .ok () (ledger.observed functions unit) := by
  cases alarmed
    : (ledger.accumulator.observeUnit functions unit.judgedHarm unit.unresolved).1.alarmTriggered
  with
  | false =>
      rw [observeInTurn, get_bind]
      simp only [MonitorLedgerState.observed, alarmed, Bool.false_eq_true, if_false]
      rfl
  | true =>
      rw [observeInTurn, get_bind]
      simp only [MonitorLedgerState.observed, alarmed, if_true]
      rfl

theorem finalizeUnit_cases (unit : FinalizedMonitorUnit)
    : (¬(ledger.status ≠ .invalidated
          ∧ ledger.prespecifiedOrder[ledger.nextOrderIndex]? = some unit.unitId)
        ∧ ∃ error, finalizeUnit functions unit ledger = .error error ledger)
      ∨ (ledger.status ≠ .invalidated
          ∧ ledger.prespecifiedOrder[ledger.nextOrderIndex]? = some unit.unitId
          ∧ finalizeUnit functions unit ledger = .ok () (ledger.observed functions unit)) := by
  rw [finalizeUnit, get_bind]
  by_cases halted : ledger.status ≠ .active ∧ ledger.status ≠ .alarmed
  · rw [if_pos halted]
    refine .inl ⟨?_, _, rfl⟩
    rintro ⟨running, _⟩
    cases status : ledger.status with
    | active => exact halted.1 status
    | alarmed => exact halted.2 status
    | invalidated => exact running status
  · rw [if_neg halted]
    cases turn : ledger.prespecifiedOrder[ledger.nextOrderIndex]? with
    | none => exact .inl ⟨fun ready => absurd ready.2 (Option.some_ne_none _).symm, _, rfl⟩
    | some expected =>
        by_cases other : unit.unitId ≠ expected
        · simp only [if_pos other]
          exact .inl ⟨fun ready => other (Option.some.inj ready.2).symm, _, rfl⟩
        · simp only [if_neg other]
          refine .inr ⟨?_, by rw [not_not.mp other], observeInTurn_eq ledger unit⟩
          intro invalidated
          rw [invalidated] at halted
          exact halted ⟨by decide, by decide⟩

theorem startNewEpoch_cases (newAlpha : R) (order : List String)
    : (¬Startable ledger newAlpha order
        ∧ ∃ error, startNewEpoch newAlpha order ledger = .error error ledger)
      ∨ (Startable ledger newAlpha order
          ∧ startNewEpoch newAlpha order ledger = .ok () (ledger.restarted newAlpha order)) := by
  rw [startNewEpoch, get_bind]
  by_cases nonpositive : newAlpha ≤ 0
  · rw [if_pos nonpositive]
    exact .inl ⟨fun startable => nonpositive.not_gt startable.positive, _, rfl⟩
  rw [if_neg nonpositive]
  by_cases exhausted : ledger.alphaTotal + alphaSlack < ledger.alphaSpent + newAlpha
  · rw [if_pos exhausted]
    exact .inl ⟨fun startable => exhausted.not_ge startable.budget, _, rfl⟩
  rw [if_neg exhausted]
  by_cases empty : order = []
  · rw [if_pos empty]
    exact .inl ⟨fun startable => startable.nonempty empty, _, rfl⟩
  rw [if_neg empty]
  cases checked
    : checkOrder
        (.monitorInvalid "new epoch prespecified_order must contain unique non-empty unit IDs"
          : LearningError R)
        [] order
  with
  | error error =>
      refine .inl ⟨fun startable => ?_, _, rfl⟩
      rw [checkOrder_of_distinct startable.named startable.distinct
        (fun _ _ => List.not_mem_nil)] at checked
      cases checked
  | ok passed =>
      obtain ⟨distinct, named⟩ := checkOrder_ok checked
      refine .inr ⟨⟨not_le.mp nonpositive, not_lt.mp exhausted, empty,
        fun unit member => (named unit member).2, distinct⟩, ?_⟩
      by_cases invalidated : ledger.status = .invalidated
      · simp only [invalidated, ne_eq, not_true_eq_false, if_false,
          MonitorLedgerState.restarted]
        rfl
      · simp only [invalidated, ne_eq, not_false_eq_true, if_true,
          MonitorLedgerState.restarted]
        rfl

variable {ledger}

variable {existing : FinalizedMonitorUnit}

variable (ledger)

theorem recordUnit_known (known : ledger.finalizedUnits[unit.unitId]? = some existing)
    : recordUnit functions unit ledger = correctUnit existing unit ledger := by
  rw [recordUnit, get_bind]
  simp only [known]

theorem recordUnit_fresh (fresh : ledger.finalizedUnits[unit.unitId]? = none)
    : recordUnit functions unit ledger = finalizeUnit functions unit ledger := by
  rw [recordUnit, get_bind]
  simp only [fresh]

variable {ledger}

theorem next_observed (inTurn : InTurn ledger unit)
    : (monitor functions).next ledger (.recordUnit unit)
      = (ledger.observed functions unit, .ok ()) := by
  simp only [monitor, EStateM.run, MonitorOperation.update, recordUnit_fresh ledger inTurn.fresh]
  rcases finalizeUnit_cases ledger unit with ⟨waiting, _⟩ | ⟨_, _, done⟩
  · exact absurd ⟨inTurn.running, inTurn.expected⟩ waiting
  · rw [done]

/-- An epoch that may start starts. -/
theorem next_restarted {newAlpha : R} (startable : Startable ledger newAlpha order)
    : (monitor functions).next ledger (.startNewEpoch newAlpha order)
      = (ledger.restarted newAlpha order, .ok ()) := by
  simp only [monitor, EStateM.run, MonitorOperation.update]
  rcases startNewEpoch_cases ledger newAlpha order with ⟨other, _⟩ | ⟨_, done⟩
  · exact absurd startable other
  · rw [done]

theorem next_corrected (corrects : Corrects ledger unit existing)
    : (monitor functions).next ledger (.recordUnit unit) = (ledger.corrected unit, .ok ()) := by
  simp only [monitor, EStateM.run, MonitorOperation.update,
    recordUnit_known ledger corrects.known]
  rcases correctUnit_cases ledger existing unit with ⟨stale, _⟩ | ⟨same, _⟩ | ⟨_, _, done⟩
  · exact absurd corrects.current (Nat.not_le.mpr stale)
  · exact absurd same corrects.changed
  · rw [done]

theorem next_effect (functions : LogExp R) (ledger : MonitorLedgerState R)
    (operation : MonitorOperation R)
    : Effect functions ledger operation ((monitor functions).next ledger operation).1
        ((monitor functions).next ledger operation).2 := by
  cases operation with
  | recordUnit unit =>
      simp only [monitor, EStateM.run]
      cases known : ledger.finalizedUnits[unit.unitId]? with
      | some existing =>
          rw [MonitorOperation.update, recordUnit_known ledger known]
          rcases correctUnit_cases ledger existing unit with
            ⟨stale, error, refused⟩ | ⟨same, repeated⟩ | ⟨current, changed, corrected⟩
          · rw [refused]
            refine .refused _ error ?_
            rintro ⟨_, _, ⟨⟩, corrects⟩
            rw [corrects.known, Option.some.injEq] at known
            exact absurd (known ▸ corrects.current) (Nat.not_le.mpr stale)
          · rw [repeated]
            refine .repeated unit (mem_iff_getElem?.mpr ⟨existing, known⟩) ?_
            rintro ⟨_, _, ⟨⟩, corrects⟩
            rw [corrects.known, Option.some.injEq] at known
            exact corrects.changed (known ▸ same)
          · rw [corrected]
            exact .corrected unit existing ⟨known, current, changed⟩
      | none =>
          rw [MonitorOperation.update, recordUnit_fresh ledger known]
          rcases finalizeUnit_cases ledger unit with
            ⟨_, error, refused⟩ | ⟨running, turn, done⟩
          · rw [refused]
            refine .refused _ error ?_
            rintro ⟨_, _, ⟨⟩, corrects⟩
            rw [corrects.known] at known
            cases known
          · rw [done]
            exact .observed unit ⟨known, running, turn⟩
  | startNewEpoch newAlpha order =>
      simp only [monitor, EStateM.run, MonitorOperation.update]
      rcases startNewEpoch_cases ledger newAlpha order with
        ⟨_, error, refused⟩ | ⟨startable, done⟩
      · rw [refused]
        refine .refused _ error ?_
        rintro ⟨_, _, impossible, _⟩
        cases impossible
      · rw [done]
        exact .restarted newAlpha order startable

end SkillRanker.Learning
