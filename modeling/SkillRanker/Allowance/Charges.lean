import SkillRanker.Allowance.Recovery

/-! Charges of the allowance over whole runs: totals agree with receipts, a debit saw less
than its limit, a pruned window stays closed, and no window is debited beyond a limit.
-/

namespace SkillRanker.Allowance

open SkillRanker.Library

-- One charge

def Store.total (store : Store) (origin : Origin) (windowStart : Nat) : Nat :=
  store.accounting.contents.total origin windowStart

def Store.receiptCount (store : Store) (origin : Origin) (windowStart : Nat) : Nat :=
  (store.accounting.contents.receipts origin windowStart).length

def Store.lastCharge (store : Store) : Nat :=
  store.accounting.contents.metadata.lastChargeUnixMs

structure SameCharges (before after : Store) : Prop where
  total : ∀ origin start, after.total origin start = before.total origin start
  receipts
    : ∀ origin start, after.receiptCount origin start = before.receiptCount origin start
  last : after.lastCharge = before.lastCharge

/-- Windows below this are pruned by a charge of the window that starts at `start`. -/
def pruneHorizon (start : Nat) : Nat := start - retainedWindows * windowMs

/-- What a charge of `origin` and `start` does to a number kept for each origin and window:
zero once pruned, one more where charged, the same elsewhere.
-/
def chargedCount (count : Origin → Nat → Nat) (origin : Origin) (start : Nat)
    (other : Origin) (window : Nat)
    : Nat :=
  if window < pruneHorizon start then 0
  else if other = origin ∧ window = start then count other window + 1
  else count other window

/-- A written debit of `origin` in the window at `start`, charged at the clock reading `now`
under a guard with `limit` attempts.
-/
structure Charge (before after : Store) (origin : Origin) (start now limit : Nat) : Prop where
  guard : ∃ guard, before.readGuard = .ok (some guard) ∧ guard.maxAttempts = limit
  start_eq : start = (windowBounds now).1
  notBehind : before.lastCharge ≤ now
  below : before.total origin start < limit
  total
    : ∀ other window, after.total other window = chargedCount before.total origin start other window
  receipts
    : ∀ other window,
        after.receiptCount other window
        = chargedCount before.receiptCount origin start other window
  last : after.lastCharge = (max (before.lastCharge : Int) (asI64 now)).toNat

theorem Reserved.charge {env : AdmitEnv} {store : Store} {origin : Origin}
    {stage : RankingStage} {reservation : Reservation} {accounting : Accounting}
    (reserved : Reserved env store origin reservation)
    (written
      : reservation.accounting.debit (reservation.receipt env origin stage)
        = some accounting)
    : Charge store { store with accounting := .tables accounting } origin
        reservation.windowStart reservation.now reservation.guard.maxAttempts := by
  have contents : store.accounting.contents = reservation.accounting := by
    rw [reserved.tables, AccountingFile.contents]
  have total : store.total = reservation.accounting.total := by
    funext other window
    simp only [Store.total, contents]
  have receipts : store.receiptCount
      = fun other window => (reservation.accounting.receipts other window).length := by
    funext other window
    simp only [Store.receiptCount, contents]
  have last : store.lastCharge = reservation.accounting.metadata.lastChargeUnixMs := by
    simp only [Store.lastCharge, contents]
  refine {
    guard := ⟨reservation.guard, reserved.guard, rfl⟩
    start_eq := reserved.window
    notBehind := last ▸ reserved.notBehind
    below := ?_
    total := ?_
    receipts := ?_
    last := ?_
  }
  · rw [total, reserved.used]
    exact reserved.below
  · intro other window
    rw [total]
    exact Accounting.total_debit written other window
  · intro other window
    rw [receipts]
    have written := congrArg List.length (Accounting.receipts_debit written other window)
    rw [apply_ite List.length, apply_ite List.length, List.length_append] at written
    exact written
  · rw [last]
    exact congrArg Metadata.lastChargeUnixMs (Accounting.metadata_debit written)

def Event.debited (event : Event) (output : Output) : Option (Origin × Debit) :=
  match event, output with
  | .admitAttempt _ origin _ _, .admission (some (.ok (.debited debit))) => some (origin, debit)
  | _, _ => none

/-- What one event does to the charges: nothing, or one charge of a reservation. Only a
charge is reported as a debit.
-/
inductive ChargeStep (store : Store) (event : Event) (after : Store) (output : Output) : Prop
  | kept (same : SameCharges store after) (silent : event.debited output = none)
  | charged {env origin stage survives reservation}
    (call : event = .admitAttempt env origin stage survives)
    (reserved : reserve env store origin = .ok (some reservation))
    (charge
      : Charge store after origin reservation.windowStart reservation.now
          reservation.guard.maxAttempts)
    (reported
      : event.debited output = none
        ∨ event.debited output = some (origin, reservation.debit env))

theorem SetupKeeps.sameCharges {before after : Store} (keeps : SetupKeeps before after)
    : SameCharges before after := by
  refine ⟨?_, ?_, keeps.lastCharge⟩
  · intro origin start
    simp only [Store.total, Accounting.total, keeps.charges]
  · intro origin start
    simp only [Store.receiptCount, Accounting.receipts, keeps.attempts]

/-- Every event is such a step, by the effects of admissions and of setup calls. -/
theorem chargeStep_next (store : Store) (event : Event)
    : ChargeStep store event (allowance.next store event).1
        (allowance.next store event).2 := by
  cases event with
  | setup env maxAttempts interrupt =>
      exact .kept (applySetup_effect env store maxAttempts interrupt).keeps.sameCharges rfl
  | admitAttempt env origin stage survives =>
      generalize result : admitAttempt env store origin stage = outcome
      have effect := admit_effect env store origin stage
      rw [result] at effect
      rcases outcome with ⟨after, answer⟩
      simp only [allowance, result]
      have shown (output : Output)
          (same : output = .admission (if survives then some answer else none))
          : Event.debited (.admitAttempt env origin stage survives) output = none
            ∨ ∃ debit,
                answer = .ok (.debited debit)
                ∧ Event.debited (.admitAttempt env origin stage survives) output
                  = some (origin, debit) := by
        subst same
        cases survives with
        | false => exact Or.inl rfl
        | true =>
            rcases answer with error | (_ | debit)
            · exact Or.inl rfl
            · exact Or.inl rfl
            · exact Or.inr ⟨debit, rfl, rfl⟩
      cases effect with
      | withheld none =>
          refine .kept ⟨fun _ _ => rfl, fun _ _ => rfl, rfl⟩ ?_
          rcases shown _ rfl with hidden | ⟨debit, same, _⟩
          · exact hidden
          · exact (none debit same).elim
      | charged found written reported =>
          refine .charged rfl found ((reserve_reserved found).charge written) ?_
          rcases shown _ rfl with hidden | ⟨debit, same, visible⟩
          · exact Or.inl hidden
          · exact Or.inr (reported debit same ▸ visible)

-- The spend limit: a reading of the clock beyond the `i64` range is stored as a negative time,
-- so older windows are pruned and one of them can be charged anew

abbrev Step := Transition Store Event Output

def steps (events : List Event) : List Step := allowance.history Store.initial events

-- What accountable runs guarantee

def Step.Debits (step : Step) (origin : Origin) (start : Nat) : Prop :=
  ∃ debit, step.event.debited step.output = some (origin, debit) ∧ debit.windowStartUnixMs = start

instance (step : Step) (origin : Origin) (start : Nat) : Decidable (step.Debits origin start) :=
  decidable_of_iff
    ((step.event.debited step.output).any
      (fun (charged, debit) => charged = origin ∧ debit.windowStartUnixMs = start) = true)
    (by
      rw [Option.any_eq_true]
      constructor
      · rintro ⟨⟨charged, debit⟩, reported, same⟩
        obtain ⟨rfl, rfl⟩ := of_decide_eq_true same
        exact ⟨debit, reported, rfl⟩
      · rintro ⟨debit, reported, rfl⟩
        exact ⟨(origin, debit), reported, by simp⟩)

def debits (steps : List Step) (origin : Origin) (start : Nat) : Nat :=
  steps.countP (fun step => step.Debits origin start)

def Step.Prunes (step : Step) (origin : Origin) (start : Nat) : Prop :=
  step.after.total origin start < step.before.total origin start

def Step.Charges (step : Step) (origin : Origin) (start : Nat) : Prop :=
  step.before.total origin start < step.after.total origin start

def Step.InForce (step : Step) (limit : Nat) : Prop :=
  ∃ guard, step.before.readGuard = .ok (some guard) ∧ guard.maxAttempts = limit

/-- The accounting of a run: every total counts its receipts, every debit saw less than the
limit in force, a pruned window is charged no more, and no window reports more debits than
a limit that was in force at one of them.
-/
structure Accountable (steps : List Step) (store : Store) : Prop where
  receipts : ∀ origin start, store.total origin start = store.receiptCount origin start
  below
    : ∀ step : Step,
        step ∈ steps
        → ∀ origin start,
            step.Debits origin start
            → ∃ limit, step.InForce limit ∧ step.before.total origin start < limit
  closed
    : steps.Pairwise
        (fun earlier later : Step =>
          ∀ origin start, earlier.Prunes origin start → ¬ later.Charges origin start)
  limited
    : ∀ origin start,
        debits steps origin start = 0
        ∨ ∃ step : Step,
            step ∈ steps
            ∧ step.Debits origin start
            ∧ ∃ limit, step.InForce limit ∧ debits steps origin start ≤ limit

-- Readings a receipt can store

/-- An admission that passes every check before its debit has a reading that its receipt
stores unchanged.
-/
def Event.Fits (store : Store) (event : Event) : Prop :=
  match event with
  | .admitAttempt env origin _ _ =>
      ∀ reservation, reserve env store origin = .ok (some reservation) → reservation.now ≤ i64Max
  | .setup _ _ _ => True

/-- Windows below this were pruned by the latest charge. -/
def Store.horizon (store : Store) : Nat := pruneHorizon (windowBounds store.lastCharge).1

/-- Later readings lie in later windows. -/
theorem windowBounds_mono {earlier later : Nat} (order : earlier ≤ later)
    : (windowBounds earlier).1 ≤ (windowBounds later).1 := by
  have whole (now : Nat) : (windowBounds now).1 = windowMs * (now / windowMs) := by
    have split := Nat.mod_add_div now windowMs
    simp only [windowBounds]
    omega
  rw [whole, whole]
  exact Nat.mul_le_mul_left _ (Nat.div_le_div_right order)

theorem pruneHorizon_mono {earlier later : Nat} (order : earlier ≤ later)
    : pruneHorizon earlier ≤ pruneHorizon later :=
  Nat.sub_le_sub_right order _

variable {origin : Origin} {start limit now : Nat}

section

variable {before after : Store} (charge : Charge before after origin start now limit)
include charge

theorem Charge.horizon_eq (fits : now ≤ i64Max)
    : after.horizon = pruneHorizon start := by
  have last : after.lastCharge = now := by
    have behind := charge.notBehind
    rw [charge.last, asI64_of_le fits]
    omega
  rw [Store.horizon, last, charge.start_eq]

theorem Charge.horizon_le
    : before.horizon ≤ pruneHorizon start ∧ before.horizon ≤ start := by
  have order : (windowBounds before.lastCharge).1 ≤ start :=
    charge.start_eq ▸ windowBounds_mono charge.notBehind
  exact ⟨pruneHorizon_mono order, Nat.le_trans (Nat.sub_le _ _) order⟩

end

-- One more step

/-- The invariant of runs whose readings fit: besides the guarantees, an unpruned window
counts every debit it reported, and a window that lost rows is below the horizon.
-/
structure Kept (steps : List Step) (store : Store) : Prop
    extends Accountable steps store where
  counted
    : ∀ origin start, ¬ start < store.horizon → debits steps origin start ≤ store.total origin start
  lost
    : ∀ step : Step,
        step ∈ steps → ∀ origin start, step.Prunes origin start → start < store.horizon

theorem debits_snoc (steps : List Step) (step : Step) (origin : Origin) (start : Nat)
    : debits (steps ++ [step]) origin start
      = debits steps origin start + if step.Debits origin start then 1 else 0 := by
  simp [debits, List.countP_append, List.countP_singleton]

/-- A step that keeps the charges and reports nothing keeps the invariant. -/
theorem Kept.snoc_kept {steps : List Step} {step : Step} (kept : Kept steps step.before)
    (same : SameCharges step.before step.after)
    (silent : step.event.debited step.output = none)
    : Kept (steps ++ [step]) step.after := by
  have nothing (origin : Origin) (start : Nat) : ¬ step.Debits origin start := by
    rintro ⟨debit, reported, _⟩
    rw [silent] at reported
    cases reported
  have count (origin : Origin) (start : Nat)
      : debits (steps ++ [step]) origin start = debits steps origin start := by
    rw [debits_snoc, if_neg (nothing origin start), Nat.add_zero]
  have horizon : step.after.horizon = step.before.horizon := by
    rw [Store.horizon, Store.horizon, same.last]
  have idle (origin : Origin) (start : Nat)
      : ¬ step.Prunes origin start ∧ ¬ step.Charges origin start := by
    simp only [Step.Prunes, Step.Charges, same.total]
    exact ⟨Nat.lt_irrefl _, Nat.lt_irrefl _⟩
  refine ⟨⟨?_, ?_, ?_, ?_⟩, ?_, ?_⟩
  · intro origin start
    rw [same.total, same.receipts, kept.receipts]
  · intro taken member origin start debited
    rcases List.mem_append.mp member with earlier | last
    · exact kept.below taken earlier origin start debited
    · cases List.mem_singleton.mp last
      exact (nothing origin start debited).elim
  · rw [List.pairwise_append]
    refine ⟨kept.closed, List.pairwise_singleton _ _, ?_⟩
    intro earlier _ later last origin start _
    cases List.mem_singleton.mp last
    exact (idle origin start).2
  · intro origin start
    rw [count]
    rcases kept.limited origin start with none | ⟨taken, member, debited, limit⟩
    · exact Or.inl none
    · exact Or.inr ⟨taken, List.mem_append_left _ member, debited, limit⟩
  · intro origin start unpruned
    rw [count, same.total]
    exact kept.counted origin start (horizon ▸ unpruned)
  · intro taken member origin start prunes
    rw [horizon]
    rcases List.mem_append.mp member with earlier | last
    · exact kept.lost taken earlier origin start prunes
    · cases List.mem_singleton.mp last
      exact ((idle origin start).1 prunes).elim

/-- A charge whose reading fits keeps the invariant. Witness: it charges a window at or above
the horizon it finds, whose total counts every debit so far and is below the limit.
-/
theorem Kept.snoc_charge {steps : List Step} {step : Step} (kept : Kept steps step.before)
    (charge : Charge step.before step.after origin start now limit) (fits : now ≤ i64Max)
    (reported
      : ∀ other window, step.Debits other window → other = origin ∧ window = start)
    : Kept (steps ++ [step]) step.after := by
  have horizon := charge.horizon_eq fits
  obtain ⟨grows, above⟩ := charge.horizon_le
  have inForce : step.InForce limit := charge.guard
  have open_ : ¬ start < step.before.horizon := Nat.not_lt.mpr above
  have count : debits steps origin start ≤ step.before.total origin start :=
    kept.counted origin start open_
  refine ⟨⟨?_, ?_, ?_, ?_⟩, ?_, ?_⟩
  · intro other window
    rw [charge.total, charge.receipts]
    simp only [chargedCount, kept.receipts]
  · intro taken member other window debited
    rcases List.mem_append.mp member with earlier | last
    · exact kept.below taken earlier other window debited
    · cases List.mem_singleton.mp last
      obtain ⟨rfl, rfl⟩ := reported other window debited
      exact ⟨limit, inForce, charge.below⟩
  · rw [List.pairwise_append]
    refine ⟨kept.closed, List.pairwise_singleton _ _, ?_⟩
    intro earlier member later last other window prunes charges
    cases List.mem_singleton.mp last
    have pruned := kept.lost earlier member other window prunes
    rw [Step.Charges, charge.total, chargedCount] at charges
    split at charges
    · omega
    · split at charges
      case isTrue same => exact open_ (same.2 ▸ pruned)
      case isFalse => omega
  · intro other window
    rw [debits_snoc]
    split
    case isTrue debited =>
      obtain ⟨rfl, rfl⟩ := reported other window debited
      exact Or.inr ⟨step, List.mem_append_right _ (List.mem_singleton.mpr rfl), debited, limit,
        inForce, Nat.lt_of_le_of_lt count charge.below⟩
    case isFalse =>
      rcases kept.limited other window with none | ⟨taken, member, debited, known⟩
      · exact Or.inl none
      · exact Or.inr ⟨taken, List.mem_append_left _ member, debited, known⟩
  · intro other window unpruned
    rw [horizon] at unpruned
    have before := kept.counted other window
      (fun below => unpruned (Nat.lt_of_lt_of_le below grows))
    rw [debits_snoc, charge.total, chargedCount, if_neg unpruned]
    by_cases same : other = origin ∧ window = start
    · rw [if_pos same]
      split <;> omega
    · have silent : ¬ step.Debits other window := fun debited => same (reported _ _ debited)
      rw [if_neg same, if_neg silent]
      exact before
  · intro taken member other window prunes
    rw [horizon]
    rcases List.mem_append.mp member with earlier | last
    · exact Nat.lt_of_lt_of_le (kept.lost taken earlier other window prunes) grows
    · cases List.mem_singleton.mp last
      rw [Step.Prunes, charge.total, chargedCount] at prunes
      by_cases pruned : window < pruneHorizon start
      · exact pruned
      · rw [if_neg pruned] at prunes
        split at prunes <;> omega

/-- One more step whose reading fits keeps the invariant. -/
theorem Kept.snoc {steps : List Step} {store : Store} (kept : Kept steps store)
    (event : Event) (fits : event.Fits store)
    : Kept (steps ++ [allowance.transition store event]) (allowance.next store event).1 := by
  cases chargeStep_next store event with
  | kept same silent => exact kept.snoc_kept same silent
  | charged call reserved charge reported =>
      subst call
      refine Kept.snoc_charge kept charge
        (fits _ reserved) ?_
      rintro other window ⟨debit, shown, rfl⟩
      rcases reported with silent | loud
      · cases silent.symm.trans shown
      · cases loud.symm.trans shown
        exact ⟨rfl, rfl⟩

-- Whole runs

/-- Every run in which each reading fits is accountable, by induction on the run. -/
theorem accountable_of_fits (events : List Event)
    (fits : ∀ step ∈ steps events, step.event.Fits step.before)
    : Accountable (steps events) (reach events) := by
  have kept : (∀ step ∈ steps events, step.event.Fits step.before)
      → Kept (steps events) (reach events) := by
    apply allowance.run_induction
      (motive := fun _ taken store => (∀ step ∈ taken, step.event.Fits step.before)
        → Kept taken store)
    · intro _
      refine ⟨⟨fun _ _ => rfl, ?_, List.Pairwise.nil, fun _ _ => Or.inl rfl⟩,
        fun _ _ _ => Nat.zero_le _, ?_⟩
      · intro _ member
        cases member
      · intro _ member
        cases member
    · intro earlier event ih all
      have before := ih (fun step member => all step (List.mem_append_left _ member))
      exact before.snoc event
        (all (allowance.transition _ event) (List.mem_append_right _ (List.mem_singleton.mpr rfl)))
  exact (kept fits).toAccountable

/-- One debit of a configured allowance. -/
theorem accountable_of_fits_one
    : Accountable (steps [.setup .quiet 1 none, .admitAttempt (.quiet 0 "a") "o" .wide true])
        (reach [.setup .quiet 1 none, .admitAttempt (.quiet 0 "a") "o" .wide true]) :=
  accountable_of_fits _ (by
    intro step member
    rcases List.mem_cons.mp member with rfl | later
    · trivial
    · cases List.mem_singleton.mp later
      intro reservation reserved
      obtain ⟨reading, clock, now⟩ := (reserve_reserved reserved).clock
      cases clock
      rw [now]
      decide)

/-- One attempt an hour; the second admission reads the first millisecond outside the `i64`
range, and the third reads the time of the first.
-/
def overdrawing : List Event :=
  [
    .setup .quiet 1 none,
    .admitAttempt (.quiet 0 "a") "o" .wide true,
    .admitAttempt (.quiet 9223372036854775808 "b") "o" .wide true,
    .admitAttempt (.quiet 0 "c") "o" .wide true
  ]

/-- The first hour reports two debits although the only limit ever in force is one. -/
theorem overdrawing_not_accountable
    : debits (steps overdrawing) "o" 0 = 2
      ∧ ¬ Accountable (steps overdrawing) (reach overdrawing) := by
  have twice : debits (steps overdrawing) "o" 0 = 2 := by decide +kernel
  refine ⟨twice, fun accountable => ?_⟩
  have limits : ∀ step ∈ steps overdrawing,
      ((step.before.readGuard.toOption.join.map Guard.maxAttempts).getD 0) ≤ 1 := by
    decide +kernel
  rcases accountable.limited "o" 0 with none | ⟨step, member, _, limit, ⟨guard, read, rfl⟩, most⟩
  · simp [twice] at none
  · have known := limits step member
    rw [read] at known
    have small : guard.maxAttempts ≤ 1 := known
    omega

end SkillRanker.Allowance
