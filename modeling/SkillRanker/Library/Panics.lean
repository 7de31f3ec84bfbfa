import SkillRanker.Library.Fallible

/-! Computations of a machine that may panic: on arithmetic that does not fit, on an index or a key
that is not there. The rules say when such a computation is one that cannot panic.
-/

namespace SkillRanker.Library

def checkedSub (left right : Nat) : Option Nat :=
  if right ≤ left then some (left - right) else none

theorem checkedSub_eq {left right : Nat} (below : right ≤ left)
    : checkedSub left right = some (left - right) :=
  if_pos below

/-- A computation without a result where it panics or does not come to an end. -/
abbrev Panicking (Error : Type) := ExceptT Error Option

variable {Error α β : Type}

instance [DecidableEq Error] [DecidableEq α] : DecidableEq (Panicking Error α) :=
  inferInstanceAs (DecidableEq (Option (Except Error α)))

def returned (result : Except Error α) : Panicking Error α := ExceptT.mk (some result)

def present (value : Option α) : Panicking Error α := ExceptT.lift value

variable {result : Except Error α} {next : α → Panicking Error β}

/-- A result that goes into further results, by the result. -/
theorem returned_bind {plain : α → Except Error β}
    (same : ∀ value, result = .ok value → next value = returned (plain value))
    : (returned result >>= next) = returned (result >>= plain) := by
  cases result with
  | error error => rfl
  | ok value => exact same value rfl

theorem returned_ok_bind {value : α}
    : (returned (.ok value) >>= next) = next value := rfl

theorem returned_error_bind {error : Error}
    : (returned (.error error) >>= next) = returned (.error error) := rfl

/-- A value that is there goes on. -/
theorem present_bind {value : α}
    : (present (some value) >>= next) = next value := rfl

/-- A result in two parts is the result of the second after the first. -/
theorem bind_eq_returned {first : Panicking Error α} {result : β}
    : (first >>= next) = returned (.ok result)
      ↔ ∃ value, first = returned (.ok value) ∧ next value = returned (.ok result) := by
  cases first with
  | none => exact ⟨nofun, fun ⟨_, failed, _⟩ => nomatch failed⟩
  | some outcome =>
      cases outcome with
      | error error => exact ⟨nofun, fun ⟨_, failed, _⟩ => nomatch failed⟩
      | ok value =>
          refine ⟨fun done => ⟨value, rfl, done⟩, fun ⟨other, same, done⟩ => ?_⟩
          cases same
          exact done

theorem present_eq_returned {value : Option α} {result : α}
    : (present value : Panicking Error α) = returned (.ok result) ↔ value = some result := by
  cases value with
  | none => exact ⟨nofun, nofun⟩
  | some found =>
      refine ⟨fun same => ?_, fun same => ?_⟩
      · cases same
        rfl
      · cases same
        rfl

theorem returned_inj {other : Except Error α}
    : returned result = returned other ↔ result = other :=
  ⟨Option.some.inj, congrArg returned⟩

variable {step : α → β → Panicking Error α}

/-- A fold that succeeds has taken every step with success, by induction on the items. -/
theorem of_mem_returned_foldlM {items : List β} {start result : α}
    (ran : items.foldlM step start = returned (.ok result)) {item : β} (mem : item ∈ items)
    : ∃ value next, step value item = returned (.ok next) := by
  induction items generalizing start with
  | nil => cases mem
  | cons first rest ih =>
      rw [List.foldlM_cons] at ran
      obtain ⟨next, stepped, ran⟩ := bind_eq_returned.mp ran
      rcases List.mem_cons.mp mem with rfl | later
      · exact ⟨start, next, stepped⟩
      · exact ih ran later

theorem returned_foldlM {plain : α → β → Except Error α} {items : List β}
    (same : ∀ item ∈ items, ∀ value, step value item = returned (plain value item)) (start : α)
    : items.foldlM step start = returned (items.foldlM plain start) := by
  induction items generalizing start with
  | nil => rfl
  | cons item rest ih =>
      rw [List.foldlM_cons, List.foldlM_cons, same item List.mem_cons_self]
      exact returned_bind fun value _ =>
        ih (fun other mem => same other (List.mem_cons_of_mem item mem)) value

end SkillRanker.Library
