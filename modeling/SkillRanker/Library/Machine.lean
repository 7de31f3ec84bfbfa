import Mathlib.Data.List.Forall2
import Mathlib.Data.List.Induction
import Mathlib.Data.Nat.Order.Lemmas

/-! Deterministic machines and the histories of their runs.
An event carries everything the surroundings decide, so a run is a list of events and a
property of every run is a property of every list.
-/

namespace SkillRanker.Library

universe u v w

/-- A deterministic machine: one event moves the state and shows the caller an output. -/
structure Machine (State : Type u) (Event : Type v) (Output : Type w) where
  next : State → Event → State × Output

/-- One recorded step of a run, with the states around it. -/
structure Transition (State : Type u) (Event : Type v) (Output : Type w) where
  before : State
  event : Event
  output : Output
  after : State

namespace Machine

variable {State : Type u} {Event : Type v} {Output : Type w}

/-- The step that `event` takes from `state`. -/
def transition (machine : Machine State Event Output) (state : State) (event : Event)
    : Transition State Event Output :=
  {
    before := state
    event := event
    output := (machine.next state event).2
    after := (machine.next state event).1
  }

/-- The state a list of events leads to. -/
def final (machine : Machine State Event Output) (start : State) (events : List Event)
    : State :=
  events.foldl (fun state event => (machine.next state event).1) start

def history (machine : Machine State Event Output) (start : State)
    : List Event → List (Transition State Event Output)
  | [] => []
  | event :: rest =>
      machine.transition start event :: machine.history (machine.next start event).1 rest

variable (machine : Machine State Event Output)
variable (start : State)

@[simp]
theorem final_nil : machine.final start [] = start := rfl

theorem final_cons (event : Event) (rest : List Event)
    : machine.final start (event :: rest) = machine.final (machine.next start event).1 rest := rfl

@[simp]
theorem history_nil : machine.history start [] = [] := rfl

/-- Running two lists in turn is running their concatenation. -/
theorem final_append (first later : List Event)
    : machine.final start (first ++ later)
      = machine.final (machine.final start first) later :=
  List.foldl_append

/-- A run one event longer takes one more step. -/
@[simp]
theorem final_snoc (events : List Event) (event : Event)
    : machine.final start (events ++ [event])
      = (machine.next (machine.final start events) event).1 := by
  simp [final]

/-- The history of a concatenation continues the first history from its last state, by
induction on the first list.
-/
theorem history_append (first later : List Event)
    : machine.history start (first ++ later)
      = machine.history start first
        ++ machine.history (machine.final start first) later := by
  induction first generalizing start with
  | nil => rfl
  | cons event rest ih => simp [history, ih, final]

/-- A run one event longer records one more step. -/
@[simp]
theorem history_snoc (events : List Event) (event : Event)
    : machine.history start (events ++ [event])
      = machine.history start events
        ++ [machine.transition (machine.final start events) event] := by
  simp [history_append, history]

variable {start : State}

/-- The induction rule of runs: what holds of the empty run and is carried by one more
event holds of every run, its history and the state it reaches.
-/
theorem run_induction {motive : List Event → List (Transition State Event Output) → State → Prop}
    (empty : motive [] [] start)
    (step
      : ∀ events event,
          motive events (machine.history start events) (machine.final start events)
          → motive (events ++ [event])
              (machine.history start events
                ++ [machine.transition (machine.final start events) event])
              (machine.next (machine.final start events) event).1)
    (events : List Event)
    : motive events (machine.history start events) (machine.final start events) := by
  induction events using List.reverseRecOn with
  | nil => exact empty
  | append_singleton events event ih =>
      simpa only [history_snoc, final_snoc] using step events event ih

variable {Invariant : State → Prop}

/-- An invariant of the starting state that every step keeps holds in every state a run
reaches.
-/
theorem invariant (initial : Invariant start)
    (step
      : ∀ state event, Invariant state → Invariant (machine.next state event).1)
    (events : List Event)
    : Invariant (machine.final start events) :=
  machine.run_induction (motive := fun _ _ state => Invariant state) initial
    (fun _ event ih => step _ event ih) events

variable {taken : Transition State Event Output} {events : List Event}

/-- Every recorded step is a step of the machine from a state that a prefix of the run
reached.
-/
theorem mem_history (member : taken ∈ machine.history start events)
    : ∃ first event later,
        events = first ++ event :: later
        ∧ taken = machine.transition (machine.final start first) event := by
  induction events generalizing start with
  | nil => simp [history] at member
  | cons event rest ih =>
      rcases List.mem_cons.mp member with same | later
      · exact ⟨[], event, rest, rfl, same⟩
      · obtain ⟨first, chosen, tail, split, eq⟩ := ih later
        exact ⟨event :: first, chosen, tail, by rw [split]; rfl, eq⟩

/-- Whatever precedes a recorded step is the history of a shorter run, and the step starts
from the state that run reached, by induction on the events.
-/
theorem history_split {earlier later : List (Transition State Event Output)}
    (split : machine.history start events = earlier ++ taken :: later)
    : ∃ first event rest,
        events = first ++ event :: rest
        ∧ earlier = machine.history start first
        ∧ taken = machine.transition (machine.final start first) event := by
  induction events generalizing start earlier with
  | nil => simp [history] at split
  | cons event rest ih =>
      cases earlier with
      | nil =>
          obtain ⟨same, _⟩ := List.cons.inj split
          exact ⟨[], event, rest, rfl, rfl, same.symm⟩
      | cons head tail =>
          obtain ⟨same, remaining⟩ := List.cons.inj split
          obtain ⟨first, chosen, after, eq, before, taken_eq⟩ := ih remaining
          exact ⟨event :: first, chosen, after, by rw [eq]; rfl, by rw [before, ← same]; rfl,
            taken_eq⟩

/-- A measure that no step from a good state lowers never falls along a run: it only
grows from a good state onwards.
-/
theorem monotone {Measure : Type*} [Preorder Measure] (measure : State → Measure)
    (Good : State → Prop) (keep : ∀ state event, Good state → Good (machine.next state event).1)
    (grow
      : ∀ state event, Good state → measure state ≤ measure (machine.next state event).1)
    (good : Good start) (events : List Event)
    : measure start ≤ measure (machine.final start events) := by
  have both : Good (machine.final start events)
      ∧ measure start ≤ measure (machine.final start events) :=
    machine.run_induction
      (motive := fun _ _ state => Good state ∧ measure start ≤ measure state)
      ⟨good, le_refl _⟩
      (fun _ event ih => ⟨keep _ event ih.1, ih.2.trans (grow _ event ih.1)⟩) events
  exact both.2

/-- A machine each of whose steps is one of another, on an event that may depend on the state, runs
as that one does.
-/
theorem exists_run {Event' Output' : Type*} (other : Machine State Event' Output')
    {event' : State → Event → Event'}
    {Matches : Transition State Event Output → Transition State Event' Output' → Prop}
    (step
      : ∀ state event,
          Invariant state
          → Invariant (machine.next state event).1
            ∧ (other.next state (event' state event)).1 = (machine.next state event).1
            ∧ Matches (machine.transition state event)
                (other.transition state (event' state event)))
    (initial : Invariant start) (events : List Event)
    : ∃ events',
        machine.final start events = other.final start events'
        ∧ List.Forall₂ Matches (machine.history start events) (other.history start events') := by
  induction events generalizing start with
  | nil => exact ⟨[], rfl, .nil⟩
  | cons event rest ih =>
      obtain ⟨kept, same, alike⟩ := step start event initial
      obtain ⟨later, final, follows⟩ := ih kept
      refine ⟨event' start event :: later, ?_, ?_⟩
      · rw [final_cons, final_cons, same, final]
      · rw [history, history, same]
        exact .cons alike follows

end Machine

end SkillRanker.Library
