import Mathlib.Data.List.Perm.Basic

/-! Sieves: a stage passes some items on and stops the others, each with its reason. Stages one
after another stop every item at the first stage that has a reason to.
-/

namespace SkillRanker.Library

variable {α β γ : Type}

def passed (stops : α → Option β) (items : List α) : List α :=
  items.filter fun item => (stops item).isNone

def stopped (stops : α → Option β) (items : List α) : List (α × β) :=
  items.filterMap fun item => (stops item).map fun reason => (item, reason)

variable {stops : α → Option β} {items : List α}

@[simp]
theorem mem_passed {item : α}
    : item ∈ passed stops items ↔ item ∈ items ∧ stops item = none := by
  simp [passed]

@[simp]
theorem mem_stopped {item : α} {reason : β}
    : (item, reason) ∈ stopped stops items ↔ item ∈ items ∧ stops item = some reason := by
  simp [stopped]

/-- A stage passes nothing on when it stops every item. -/
theorem passed_eq_nil
    : passed stops items = [] ↔ ∀ item ∈ items, stops item ≠ none := by
  simp [passed]

theorem passed_passed (first second : α → Option β) (items : List α)
    : passed second (passed first items)
      = passed (fun item => (first item).or (second item)) items := by
  unfold passed
  rw [List.filter_filter]
  congr 1
  funext item
  cases found : first item <;> simp [found]

/-- Two stages stop each item at the first of them that does, by induction on the items. -/
theorem stopped_passed_perm (first second : α → Option β) (items : List α)
    : (stopped first items ++ stopped second (passed first items)).Perm
        (stopped (fun item => (first item).or (second item)) items) := by
  induction items with
  | nil => exact .refl _
  | cons item rest ih =>
      cases found : first item with
      | some reason =>
          have stops : stopped first (item :: rest) = (item, reason) :: stopped first rest := by
            simp [stopped, found]
          have passes : passed first (item :: rest) = passed first rest := by
            simp [passed, found]
          have both
              : stopped (fun item => (first item).or (second item)) (item :: rest)
                = (item, reason)
                  :: stopped (fun item => (first item).or (second item)) rest := by
            simp [stopped, found]
          rw [stops, passes, both]
          exact ih.cons _
      | none =>
          have stops : stopped first (item :: rest) = stopped first rest := by
            simp [stopped, found]
          have passes : passed first (item :: rest) = item :: passed first rest := by
            simp [passed, found]
          rw [stops, passes]
          cases next : second item with
          | none =>
              have skips
                  : stopped second (item :: passed first rest)
                    = stopped second (passed first rest) := by
                simp [stopped, next]
              have both
                  : stopped (fun item => (first item).or (second item)) (item :: rest)
                    = stopped (fun item => (first item).or (second item)) rest := by
                simp [stopped, found, next]
              rw [skips, both]
              exact ih
          | some reason =>
              have adds
                  : stopped second (item :: passed first rest)
                    = (item, reason) :: stopped second (passed first rest) := by
                simp [stopped, next]
              have both
                  : stopped (fun item => (first item).or (second item)) (item :: rest)
                    = (item, reason)
                      :: stopped (fun item => (first item).or (second item)) rest := by
                simp [stopped, found, next]
              rw [adds, both]
              exact List.perm_middle.trans (ih.cons _)

theorem passed_stopped_perm (stops : α → Option β) (items : List α)
    : (passed stops items ++ (stopped stops items).map Prod.fst).Perm items := by
  have stoppedItems
      : (stopped stops items).map Prod.fst = items.filter fun item => !(stops item).isNone := by
    induction items with
    | nil => rfl
    | cons item rest ih =>
        cases found : stops item <;> simp_all [stopped]
  rw [stoppedItems]
  exact List.filter_append_perm _ items

section

variable {first second : α → Option β} {items : List α}
  (same : ∀ item ∈ items, first item = second item)
include same

/-- Stages that agree on the items pass on the same. -/
theorem passed_congr
    : passed first items = passed second items := by
  apply List.filter_congr
  intro item mem
  rw [same item mem]

/-- Stages that agree on the items stop the same. -/
theorem stopped_congr
    : stopped first items = stopped second items := by
  apply List.filterMap_congr
  intro item mem
  rw [same item mem]

end

theorem stopped_map (mark : γ → α) (stops : α → Option β) (items : List γ)
    : stopped stops (items.map mark)
      = (stopped (fun item => stops (mark item)) items).map fun entry => (mark entry.1, entry.2) := by
  unfold stopped
  rw [List.filterMap_map, List.map_filterMap]
  congr 1
  funext item
  cases found : stops (mark item) <;> simp [Function.comp, found]

theorem passed_map (mark : γ → α) (stops : α → Option β) (items : List γ)
    : passed stops (items.map mark) = (passed (fun item => stops (mark item)) items).map mark := by
  unfold passed
  rw [List.filter_map]
  rfl

end SkillRanker.Library
