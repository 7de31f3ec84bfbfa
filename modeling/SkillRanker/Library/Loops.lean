import Mathlib.Data.List.Basic
import SkillRanker.Library.Fallible

/-! Loops that may never end, run for as many passes as there is fuel.
The rules say what a loop that returns has kept throughout, when a loop returns, and that a loop
without a result has been through every number of passes.
-/

namespace SkillRanker.Library

variable {State Result : Type}

inductive Pass (State Result : Type)
  | again (state : State)
  | done (result : Result)

def loop (pass : State → Pass State Result) : Nat → State → Option Result
  | 0, _ => none
  | fuel + 1, state =>
      match pass state with
      | .done result => some result
      | .again next => loop pass fuel next

def Returns (pass : State → Pass State Result) (state : State) : Prop :=
  ∃ fuel result, loop pass fuel state = some result

variable {pass : State → Pass State Result}
variable {fuel : Nat} {state : State}

theorem loop_again {next : State} (again : pass state = .again next)
    : loop pass (fuel + 1) state = loop pass fuel next := by
  rw [loop, again]

variable {result : Result}

theorem loop_done (done : pass state = .done result)
    : loop pass (fuel + 1) state = some result := by
  rw [loop, done]

/-- A loop that another one imitates, pass by pass, up to a result that is good. -/
theorem loop_imitated {State' Result' : Type} {imitation : State' → Pass State' Result'}
    {image : State → State'} {resultOf : Result → Result'} (Good : Result → Prop)
    (again : ∀ state next, pass state = .again next → imitation (image state) = .again (image next))
    (done
      : ∀ state result,
          pass state = .done result → Good result → imitation (image state) = .done (resultOf result))
    (good : Good result) (returned : loop pass fuel state = some result)
    : loop imitation fuel (image state) = some (resultOf result) := by
  induction fuel generalizing state with
  | zero => cases returned
  | succ fuel ih =>
      cases decided : pass state with
      | done last =>
          rw [loop_done decided] at returned
          obtain rfl := Option.some.inj returned
          exact loop_done (done state last decided good)
      | again next =>
          rw [loop_again decided] at returned
          rw [loop_again (again state next decided)]
          exact ih returned

/-- More fuel leaves the result as it is, by induction on the fuel. -/
theorem loop_mono {more : Nat} (returned : loop pass fuel state = some result)
    (enough : fuel ≤ more)
    : loop pass more state = some result := by
  induction fuel generalizing state more with
  | zero => cases returned
  | succ fuel ih =>
      obtain ⟨more, rfl⟩ := Nat.exists_eq_add_of_le' enough
      cases decided : pass state with
      | done result' =>
          rw [loop_done decided] at returned
          rw [Nat.add_succ, loop_done decided, returned]
      | again next =>
          rw [loop_again decided] at returned
          rw [← Nat.add_assoc, loop_again decided]
          exact ih returned (Nat.le_add_left fuel more)

variable {Invariant : State → Prop}

/-- What every pass keeps holds of the state that the loop returns from. -/
theorem loop_invariant
    (kept : ∀ state next, Invariant state → pass state = .again next → Invariant next)
    (start : Invariant state) (returned : loop pass fuel state = some result)
    : ∃ last, Invariant last ∧ pass last = .done result := by
  induction fuel generalizing state with
  | zero => cases returned
  | succ fuel ih =>
      cases decided : pass state with
      | done result' =>
          rw [loop_done decided] at returned
          exact ⟨state, start, Option.some.inj returned ▸ decided⟩
      | again next =>
          rw [loop_again decided] at returned
          exact ih (kept state next start decided) returned

/-- A loop whose passes lower a measure has returned after as many passes. -/
theorem loop_returns (measure : State → Nat)
    (lowered
      : ∀ state next,
          Invariant state → pass state = .again next
          → Invariant next ∧ measure next < measure state)
    (start : Invariant state) (enough : measure state < fuel)
    : ∃ result, loop pass fuel state = some result := by
  induction fuel generalizing state with
  | zero => exact absurd enough (Nat.not_lt_zero _)
  | succ fuel ih =>
      cases decided : pass state with
      | done result => exact ⟨result, loop_done decided⟩
      | again next =>
          obtain ⟨kept, below⟩ := lowered state next start decided
          rw [loop_again decided]
          exact ih kept (by omega)

/-- A loop has no result where every pass goes on. -/
theorem loop_eq_none
    (endless
      : ∀ state, Invariant state → ∃ next, pass state = .again next ∧ Invariant next)
    (start : Invariant state) (fuel : Nat)
    : loop pass fuel state = none := by
  induction fuel generalizing state with
  | zero => rfl
  | succ fuel ih =>
      obtain ⟨next, again, kept⟩ := endless state start
      rw [loop_again again]
      exact ih kept

def stateAfter (pass : State → Pass State Result) : Nat → State → Option State
  | 0, state => some state
  | passes + 1, state =>
      match stateAfter pass passes state with
      | none => none
      | some reached =>
          match pass reached with
          | .done _ => none
          | .again next => some next

variable {passes : Nat}

/-- The last of a number of passes. -/
theorem exists_before {next : State} (through : stateAfter pass (passes + 1) state = some next)
    : ∃ reached, stateAfter pass passes state = some reached ∧ pass reached = .again next := by
  unfold stateAfter at through
  split at through
  · cases through
  next reached earlier =>
      split at through
      · cases through
      next after again =>
          exact ⟨reached, earlier, again.trans (congrArg Pass.again (Option.some.inj through))⟩

/-- A loop without a result is through as many passes as it had fuel. -/
theorem stateAfter_of_loop {reached : State} (fuel : Nat)
    (through : stateAfter pass passes state = some reached)
    : loop pass (passes + fuel) state = loop pass fuel reached := by
  induction passes generalizing reached fuel with
  | zero =>
      obtain rfl := Option.some.inj through
      rw [Nat.zero_add]
  | succ passes ih =>
      obtain ⟨before, earlier, again⟩ := exists_before through
      rw [Nat.add_right_comm, Nat.add_assoc, ih _ earlier, loop_again again]

/-- A loop that never returns is through every number of passes. -/
theorem exists_stateAfter (endless : ¬Returns pass state) (passes : Nat)
    : ∃ reached, stateAfter pass passes state = some reached := by
  induction passes with
  | zero => exact ⟨state, rfl⟩
  | succ passes ih =>
      obtain ⟨reached, through⟩ := ih
      cases decided : pass reached with
      | done result =>
          have returned := stateAfter_of_loop 1 through
          rw [loop_done decided] at returned
          exact absurd ⟨passes + 1, result, returned⟩ endless
      | again next =>
          refine ⟨next, ?_⟩
          simp only [stateAfter, through, decided]

theorem stateAfter_succ {reached next : State}
    (through : stateAfter pass passes state = some reached)
    (later : stateAfter pass (passes + 1) state = some next)
    : pass reached = .again next := by
  obtain ⟨before, earlier, again⟩ := exists_before later
  cases earlier.symm.trans through
  exact again

/-- How many items a search has not met yet. -/
def unmet {Item : Type} [DecidableEq Item] (items met : List Item) : Nat :=
  (items.filter fun item => item ∉ met).length

theorem unmet_cons_le {Item : Type} [DecidableEq Item] (items met : List Item) (item : Item)
    : unmet items (item :: met) ≤ unmet items met := by
  apply List.Sublist.length_le
  apply List.monotone_filter_right
  intro other absent
  simp only [List.mem_cons, not_or, decide_eq_true_iff] at absent ⊢
  exact absent.2

/-- One more item met is one less to meet. -/
theorem unmet_cons {Item : Type} [DecidableEq Item] {items met : List Item} {item : Item}
    (mem : item ∈ items) (fresh : item ∉ met)
    : unmet items (item :: met) < unmet items met := by
  have again
      : items.filter (fun other => other ∉ item :: met)
        = (items.filter fun other => other ∉ met).filter fun other => other ≠ item := by
    rw [List.filter_filter]
    apply List.filter_congr
    intro other _
    simp
  rw [unmet, again, unmet, List.length_filter_lt_length_iff_exists]
  exact ⟨item, List.mem_filter.mpr ⟨mem, decide_eq_true fresh⟩, by simp⟩

-- Computations with fuel

variable {α β Error : Type}

/-- More fuel leaves a result as it is. -/
def Steady (computation : Nat → Option α) : Prop :=
  ∀ ⦃fuel more : Nat⦄ ⦃result : α⦄,
    computation fuel = some result → fuel ≤ more → computation more = some result

def Ends (computation : Nat → Option α) : Prop := ∃ fuel result, computation fuel = some result

theorem steady_loop (pass : State → Pass State Result) (state : State)
    : Steady fun fuel => loop pass fuel state :=
  fun _ _ _ => loop_mono

theorem steady_const (value : Option α) : Steady fun _ : Nat => value := fun _ _ _ same _ => same

variable {first : Nat → Option α}

theorem Steady.bind {next : α → Nat → Option β} (steady : Steady first)
    (nextSteady : ∀ value, Steady (next value))
    : Steady fun fuel => first fuel >>= fun value => next value fuel := by
  intro fuel more result ended enough
  obtain ⟨value, ran, ended⟩ := Option.bind_eq_some_iff.mp ended
  exact Option.bind_eq_some_iff.mpr
    ⟨value, steady ran enough, nextSteady value ended enough⟩

/-- A sequence ends where both of its parts do. -/
theorem Ends.bind {next : α → Nat → Option β} (ends : Ends first) (steady : Steady first)
    (nextSteady : ∀ value, Steady (next value))
    (nextEnds : ∀ fuel value, first fuel = some value → Ends (next value))
    : Ends fun fuel => first fuel >>= fun value => next value fuel := by
  obtain ⟨fuel, value, ran⟩ := ends
  obtain ⟨later, result, ended⟩ := nextEnds fuel value ran
  exact ⟨max fuel later, result,
    Option.bind_eq_some_iff.mpr
      ⟨value, steady ran (Nat.le_max_left _ _), nextSteady value ended (Nat.le_max_right _ _)⟩⟩

theorem Steady.map (steady : Steady first) (wrap : α → β)
    : Steady fun fuel => (first fuel).map wrap := by
  intro fuel more result ended enough
  obtain ⟨value, ran, rfl⟩ := Option.map_eq_some_iff.mp ended
  exact Option.map_eq_some_iff.mpr ⟨value, steady ran enough, rfl⟩

theorem Ends.map (ends : Ends first) (wrap : α → β)
    : Ends fun fuel => (first fuel).map wrap := by
  obtain ⟨fuel, value, ran⟩ := ends
  exact ⟨fuel, wrap value, Option.map_eq_some_iff.mpr ⟨value, ran, rfl⟩⟩

variable {step : α → Nat → Option β} {items : List α}

theorem Steady.mapM (steady : ∀ item, Steady (step item))
    : Steady fun fuel => items.mapM fun item => step item fuel := by
  induction items with
  | nil => exact steady_const _
  | cons first rest ih =>
      simp only [List.mapM_cons]
      exact (steady first).bind fun _ => ih.bind fun _ => steady_const _

/-- Every item of a list is done with one and the same fuel, by induction on the list. -/
theorem ends_mapM (steady : ∀ item, Steady (step item)) (ends : ∀ item ∈ items, Ends (step item))
    : Ends fun fuel => items.mapM fun item => step item fuel := by
  induction items with
  | nil => exact ⟨0, [], rfl⟩
  | cons first rest ih =>
      simp only [List.mapM_cons]
      apply (ends first List.mem_cons_self).bind (steady first)
      · exact fun _ => (Steady.mapM steady).bind fun _ => steady_const _
      · intro _ _ _
        apply (ih fun item mem => ends item (List.mem_cons_of_mem _ mem)).bind
          (Steady.mapM steady)
        · exact fun _ => steady_const _
        · exact fun _ _ _ => ⟨0, _, rfl⟩

/-- A list with an item that never ends is never done. -/
theorem mapM_eq_none {step : α → Option β} {item : α} (mem : item ∈ items)
    (endless : step item = none)
    : items.mapM step = none := by
  induction items with
  | nil => cases mem
  | cons first rest ih =>
      rw [List.mapM_cons]
      rcases List.mem_cons.mp mem with rfl | mem
      · rw [endless]
        rfl
      · rw [ih mem]
        cases step first <;> rfl

/-- A computation that may fail ends well when both parts do. -/
theorem run_bind_eq_some_ok {first : ExceptT Error Option α}
    {next : α → ExceptT Error Option β} {result : β}
    : (first >>= next).run = some (.ok result)
      ↔ ∃ value, first.run = some (.ok value) ∧ (next value).run = some (.ok result) := by
  rw [ExceptT.run_bind]
  cases ran : first.run with
  | none => simp
  | some outcome => cases outcome <;> simp

/-- A computation that may fail is without fuel in its first part or in its second. -/
theorem run_bind_eq_none {first : ExceptT Error Option α} {next : α → ExceptT Error Option β}
    : (first >>= next).run = none
      ↔ first.run = none ∨ ∃ value, first.run = some (.ok value) ∧ (next value).run = none := by
  rw [ExceptT.run_bind]
  cases ran : first.run with
  | none => simp
  | some outcome => cases outcome <;> simp

variable {next : α → Nat → ExceptT Error Option β}

theorem Steady.runBind {first : Nat → ExceptT Error Option α}
    (steady : Steady fun fuel => (first fuel).run)
    (nextSteady : ∀ value, Steady fun fuel => (next value fuel).run)
    : Steady fun fuel => (first fuel >>= fun value => next value fuel).run := by
  simp only [ExceptT.run_bind]
  apply steady.bind
  intro outcome
  cases outcome with
  | error error => exact steady_const _
  | ok value => exact nextSteady value

theorem Ends.runBind {first : Nat → ExceptT Error Option α}
    (ends : Ends fun fuel => (first fuel).run) (steady : Steady fun fuel => (first fuel).run)
    (nextSteady : ∀ value, Steady fun fuel => (next value fuel).run)
    (nextEnds
      : ∀ fuel value,
          (first fuel).run = some (.ok value) → Ends fun fuel => (next value fuel).run)
    : Ends fun fuel => (first fuel >>= fun value => next value fuel).run := by
  simp only [ExceptT.run_bind]
  apply ends.bind steady
  · intro outcome
    cases outcome with
    | error error => exact steady_const _
    | ok value => exact nextSteady value
  · intro fuel outcome ran
    cases outcome with
    | error error => exact ⟨0, _, rfl⟩
    | ok value => exact nextEnds fuel value ran

end SkillRanker.Library
