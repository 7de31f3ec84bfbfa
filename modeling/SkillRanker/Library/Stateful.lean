import SkillRanker.Library.Fallible

/-! Computations on a state that may fail, and that leave what they have written when they do.
The rules say when a sequence ends well, how it can end badly, and what it keeps throughout.
-/

namespace SkillRanker.Library

variable {Error State α β : Type}
variable {before after : State}

/-- The result of a step that reads and writes no state. -/
def settle (result : Except Error α) : EStateM Error State α :=
  match result with
  | .ok value => pure value
  | .error error => throw error

-- How a computation ends

variable {first : EStateM Error State α} {next : α → EStateM Error State β}

/-- A sequence ends well when both parts do, the second in the state the first leaves. -/
@[simp]
theorem run_bind_eq_ok {result : β}
    : (first >>= next).run before = .ok result after
      ↔ ∃ value between,
          first.run before = .ok value between ∧ (next value).run between = .ok result after := by
  rw [EStateM.run_bind]
  cases first.run before <;> simp [and_assoc]

/-- A sequence fails in its first part, or in its second part after the first. -/
theorem run_bind_eq_error {error : Error}
    : (first >>= next).run before = .error error after
      ↔ first.run before = .error error after
        ∨ ∃ value between,
            first.run before = .ok value between
            ∧ (next value).run between = .error error after := by
  rw [EStateM.run_bind]
  cases first.run before <;> simp [and_assoc]

variable {value : α}

@[simp]
theorem run_pure_eq_ok {result : α}
    : (pure value : EStateM Error State α).run before = .ok result after
      ↔ value = result ∧ before = after := by
  simp [pure, EStateM.pure, EStateM.run]

@[simp]
theorem run_get_eq_ok {result : State}
    : (get : EStateM Error State State).run before = .ok result after
      ↔ before = result ∧ before = after := by
  change EStateM.Result.ok before before = _ ↔ _
  simp

variable {change : State → State}

@[simp]
theorem run_modify_eq_ok {result : Unit}
    : (modify change : EStateM Error State Unit).run before = .ok result after
      ↔ change before = after := by
  change EStateM.Result.ok () (change before) = _ ↔ _
  simp

@[simp]
theorem run_throw_ne_ok {error : Error} {result : α}
    : ¬(throw error : EStateM Error State α).run before = .ok result after := by
  change ¬EStateM.Result.error error before = _
  simp

/-- A computation that begins by reading the state goes on with it. -/
theorem get_bind {next : State → EStateM Error State α}
    : ((get : EStateM Error State State) >>= next) before = next before before := rfl

/-- A settled step ends as its result says and leaves the state alone. -/
@[simp]
theorem run_settle_eq_ok {result : Except Error α}
    : (settle result).run before = .ok value after ↔ result = .ok value ∧ before = after := by
  cases result <;> simp [settle]

-- What a computation keeps

def leaves (result : EStateM.Result Error State α) : State :=
  match result with
  | .ok _ after => after
  | .error _ after => after

/-- What a machine makes of a computation: the state it leaves, and whether it failed. -/
def concluded (result : EStateM.Result Error State α) : State × Except Error Unit :=
  match result with
  | .ok _ after => (after, .ok ())
  | .error error after => (after, .error error)

/-- However the computation ends, what held before it holds after it. -/
def Keeps (Invariant : State → Prop) (action : EStateM Error State α) : Prop :=
  ∀ before, Invariant before → Invariant (leaves (action.run before))

variable {Invariant : State → Prop}

theorem Keeps.pure (value : α) : Keeps Invariant (pure value : EStateM Error State α) :=
  fun _ held => held

theorem Keeps.throw (error : Error) : Keeps Invariant (throw error : EStateM Error State α) :=
  fun _ held => held

theorem Keeps.get : Keeps Invariant (get : EStateM Error State State) := fun _ held => held

theorem Keeps.modify (kept : ∀ state, Invariant state → Invariant (change state))
    : Keeps Invariant (modify change : EStateM Error State Unit) := kept

theorem Keeps.settle (result : Except Error α)
    : Keeps Invariant (settle result : EStateM Error State α) := by
  cases result with
  | ok value => exact .pure value
  | error error => exact .throw error

theorem Keeps.bind (firstKeeps : Keeps Invariant first)
    (nextKeeps : ∀ value, Keeps Invariant (next value))
    : Keeps Invariant (first >>= next) := by
  intro before held
  have kept := firstKeeps before held
  rw [EStateM.run_bind]
  cases ended : first.run before with
  | error error after =>
      rw [ended] at kept
      exact kept
  | ok value after =>
      rw [ended] at kept
      exact nextKeeps value after kept

theorem Keeps.ite {condition : Prop} [Decidable condition]
    {holding failing : EStateM Error State α} (one : Keeps Invariant holding)
    (other : Keeps Invariant failing)
    : Keeps Invariant (if condition then holding else failing) := by
  split
  · exact one
  · exact other

variable {action : EStateM Error State α}

theorem Keeps.ended (keeps : Keeps Invariant action) (held : Invariant before)
    (ended : action.run before = .ok value after)
    : Invariant after := by
  have kept := keeps before held
  rw [ended] at kept
  exact kept

def FailsKeeping (Invariant : State → Prop) (action : EStateM Error State α) : Prop :=
  ∀ before error after,
    Invariant before → action.run before = .error error after → Invariant after

theorem Keeps.failing (keeps : Keeps Invariant action)
    : FailsKeeping Invariant action := by
  intro before error after held failed
  have kept := keeps before held
  rw [failed] at kept
  exact kept

/-- A sequence may change more in its last part, where that part cannot fail afterwards. -/
theorem FailsKeeping.bind (firstKeeps : Keeps Invariant first)
    (nextKeeps : ∀ value, FailsKeeping Invariant (next value))
    : FailsKeeping Invariant (first >>= next) := by
  intro before error after held failed
  rcases run_bind_eq_error.mp failed with early | ⟨value, between, passed, late⟩
  · exact firstKeeps.failing before error after held early
  · exact nextKeeps value between error after (firstKeeps.ended held passed) late

theorem FailsKeeping.map (firstKeeps : FailsKeeping Invariant first) (wrap : α → β)
    : FailsKeeping Invariant (first >>= fun value => Pure.pure (wrap value)) := by
  intro before error after held failed
  rcases run_bind_eq_error.mp failed with early | ⟨value, between, _, late⟩
  · exact firstKeeps before error after held early
  · cases late

/-- A write that ends a computation cannot fail. -/
theorem FailsKeeping.modify (change : State → State)
    : FailsKeeping Invariant (modify change : EStateM Error State Unit) := by
  intro before error after held failed
  cases failed

end SkillRanker.Library
