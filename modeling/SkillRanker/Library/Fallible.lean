import Mathlib.Data.List.Forall2
import Mathlib.Data.Option.Defs
import Mathlib.Logic.Basic

/-! Fallible computations as sequences of guards and lookups.
The rules turn "the sequence succeeded" into the conjunction of what each part checked.
-/

namespace SkillRanker.Library

section

variable {Error α β : Type}
variable {error : Error} {condition : Prop}

instance decidableEqExcept [DecidableEq Error] [DecidableEq α] : DecidableEq (Except Error α)
  | .error left, .error right => decidable_of_iff (left = right) (by simp)
  | .ok left, .ok right => decidable_of_iff (left = right) (by simp)
  | .error _, .ok _ => .isFalse (by simp)
  | .ok _, .error _ => .isFalse (by simp)

/-- Continues when the condition holds and stops with `error` otherwise. -/
def ensure (condition : Prop) [Decidable condition] (error : Error) : Except Error Unit :=
  if condition then .ok () else .error error

/-- The value of an optional result, or `error` when there is none. -/
def require (value : Option α) (error : Error) : Except Error α :=
  match value with
  | some found => .ok found
  | none => .error error

def errorOf (result : Except Error α) : Option Error :=
  match result with
  | .ok _ => none
  | .error error => some error

variable {first : Except Error α} {next : α → Except Error β}

/-- A sequence succeeds exactly when its first part does and its second does on the value.
-/
@[simp]
theorem bind_eq_ok {result : β}
    : (first >>= next) = .ok result ↔ ∃ value, first = .ok value ∧ next value = .ok result := by
  cases first with
  | error error => simp [bind, Except.bind]
  | ok value => simp [bind, Except.bind]

@[simp]
theorem map_eq_ok {wrap : α → β} {result : β}
    : (wrap <$> first) = .ok result ↔ ∃ value, first = .ok value ∧ wrap value = result := by
  cases first <;> simp [Functor.map, Except.map]

variable {result : α}

@[simp]
theorem pure_eq_ok {value : α}
    : (pure value : Except Error α) = .ok result ↔ value = result := by
  simp [pure, Except.pure]

@[simp]
theorem mapError_eq_ok {Other : Type} {change : Error → Other}
    : first.mapError change = .ok result ↔ first = .ok result := by
  cases first <;> simp [Except.mapError]

/-- A guard passes exactly when its condition holds. -/
@[simp]
theorem ensure_eq_ok [Decidable condition] {result : Unit}
    : ensure condition error = .ok result ↔ condition := by
  by_cases holds : condition <;> simp [ensure, holds]

/-- A sequence fails in its first part or, after that, in the rest. -/
theorem bind_eq_error
    : (first >>= next) = .error error
      ↔ first = .error error ∨ ∃ value, first = .ok value ∧ next value = .error error := by
  cases first with
  | error early => simp [bind, Except.bind]
  | ok value => simp [bind, Except.bind]

theorem ensure_eq_error [Decidable condition] {other : Error}
    : ensure condition error = .error other ↔ ¬ condition ∧ error = other := by
  by_cases holds : condition <;> simp [ensure, holds]

theorem require_eq_error {value : Option α} {other : Error}
    : require value error = .error other ↔ value = none ∧ error = other := by
  cases value <;> simp [require]

/-- A lookup succeeds exactly when the value is there. -/
@[simp]
theorem require_eq_ok {value : Option α}
    : require value error = .ok result ↔ value = some result := by
  cases value <;> simp [require]

theorem isOk_iff {result : Except Error α} : result.isOk ↔ ∃ value, result = .ok value := by
  cases result <;> simp [Except.isOk, Except.toBool]

/-- A known value is passed on. -/
theorem ok_bind {value : α}
    : ((.ok value : Except Error α) >>= next) = next value := rfl

/-- A passed guard continues with the rest. -/
theorem ensure_bind [Decidable condition] {next : Unit → Except Error β} (holds : condition)
    : (ensure condition error >>= next) = next () := by
  simp [ensure, holds, bind, Except.bind]

/-- A failed guard stops the sequence. -/
theorem ensure_bind_error [Decidable condition] {next : Unit → Except Error β} (fails : ¬ condition)
    : (ensure condition error >>= next) = .error error := by
  simp [ensure, fails, bind, Except.bind]

theorem eq_error_of_not_ok {result : Except Error α}
    (fails : ∀ value, result ≠ .ok value)
    : ∃ error, result = .error error := by
  cases result with
  | error error => exact ⟨error, rfl⟩
  | ok value => exact (fails value rfl).elim

variable {step : α → β → Except Error α} {items : List β} {start : α}

/-- A fold of steps that succeed on an invariant and keep it succeeds and keeps it. -/
theorem foldlM_invariant {Invariant : α → Prop}
    (passes
      : ∀ item ∈ items, ∀ value,
          Invariant value → ∃ next, step value item = .ok next ∧ Invariant next)
    (initially : Invariant start)
    : ∃ result, items.foldlM step start = .ok result ∧ Invariant result := by
  induction items generalizing start with
  | nil => exact ⟨start, rfl, initially⟩
  | cons item rest ih =>
      obtain ⟨next, passed, kept⟩ := passes item List.mem_cons_self start initially
      obtain ⟨result, done, holds⟩ :=
        ih (fun other mem => passes other (List.mem_cons_of_mem item mem)) kept
      refine ⟨result, ?_, holds⟩
      rw [List.foldlM_cons, passed]
      exact done

theorem foldlM_succeeds (passes : ∀ item ∈ items, ∀ value, ∃ next, step value item = .ok next)
    (start : α)
    : ∃ result, items.foldlM step start = .ok result := by
  obtain ⟨result, done, _⟩ := foldlM_invariant
    (fun item mem value _ =>
      let ⟨next, passed⟩ := passes item mem value
      ⟨next, passed, trivial⟩)
    (show (fun _ : α => True) start from trivial)
  exact ⟨result, done⟩

/-- A fold that succeeds has taken every step with success, by induction on the items. -/
theorem of_mem_foldlM (ran : items.foldlM step start = .ok result) {item : β} (mem : item ∈ items)
    : ∃ value next, step value item = .ok next := by
  induction items generalizing start with
  | nil => cases mem
  | cons first rest ih =>
      rw [List.foldlM_cons] at ran
      obtain ⟨next, stepped, ran⟩ := bind_eq_ok.mp ran
      rcases List.mem_cons.mp mem with rfl | later
      · exact ⟨start, next, stepped⟩
      · exact ih ran later

/-- A fold that fails has failed in a step, by induction on the items. -/
theorem foldlM_eq_error (failed : items.foldlM step start = .error error)
    : ∃ value, ∃ item ∈ items, step value item = .error error := by
  induction items generalizing start with
  | nil => cases failed
  | cons first rest ih =>
      rw [List.foldlM_cons] at failed
      rcases bind_eq_error.mp failed with early | ⟨next, _, late⟩
      · exact ⟨start, first, List.mem_cons_self, early⟩
      · obtain ⟨value, item, mem, stepped⟩ := ih late
        exact ⟨value, item, List.mem_cons_of_mem _ mem, stepped⟩

/-- Checks of all items pass exactly if each of them does. -/
theorem forM_eq_ok {check : β → Except Error Unit}
    : items.forM check = .ok () ↔ ∀ item ∈ items, check item = .ok () := by
  induction items with
  | nil => exact ⟨fun _ => nofun, fun _ => rfl⟩
  | cons first rest ih =>
      change (check first >>= fun _ => rest.forM check) = .ok () ↔ _
      rw [bind_eq_ok, List.forall_mem_cons, ← ih]
      exact ⟨fun ⟨_, passed, others⟩ => ⟨passed, others⟩, fun ⟨passed, others⟩ =>
        ⟨(), passed, others⟩⟩

theorem mapM_known {m : Type → Type} [Monad m] [LawfulMonad m] {step : α → m β} {value : α → β}
    {items : List α} (known : ∀ item ∈ items, step item = pure (value item))
    : items.mapM step = pure (items.map value) := by
  induction items with
  | nil => rfl
  | cons item rest ih =>
      rw [List.mapM_cons, known item List.mem_cons_self, pure_bind,
        ih fun other mem => known other (List.mem_cons_of_mem item mem), pure_bind, List.map_cons]

/-- A fold whose steps are known where an invariant holds has the known result, and keeps it. -/
theorem foldlM_known {m : Type → Type} [Monad m] [LawfulMonad m] {step : α → β → m α}
    {next : α → β → α} (Invariant : α → List β → Prop)
    (known
      : ∀ value item rest,
          Invariant value (item :: rest)
          → step value item = pure (next value item) ∧ Invariant (next value item) rest)
    (initially : Invariant start items)
    : items.foldlM step start = pure (items.foldl next start) := by
  induction items generalizing start with
  | nil => rfl
  | cons item rest ih =>
      obtain ⟨stepped, kept⟩ := known start item rest initially
      rw [List.foldlM_cons, stepped, pure_bind, ih kept, List.foldl_cons]

/-- Every result of a list comes from one of its items. -/
theorem of_mem_mapM {step : α → Option β} {items : List α} {results : List β}
    (ran : items.mapM step = some results) {result : β} (mem : result ∈ results)
    : ∃ item ∈ items, step item = some result := by
  induction items generalizing results with
  | nil =>
      cases ran
      cases mem
  | cons first rest ih =>
      rw [List.mapM_cons] at ran
      obtain ⟨value, stepped, ran⟩ := Option.bind_eq_some_iff.mp ran
      obtain ⟨values, others, ran⟩ := Option.bind_eq_some_iff.mp ran
      cases ran
      rcases List.mem_cons.mp mem with rfl | mem
      · exact ⟨first, List.mem_cons_self, stepped⟩
      · obtain ⟨item, listed, found⟩ := ih others mem
        exact ⟨item, List.mem_cons_of_mem _ listed, found⟩

/-- Items that all have a value are paired with their values, by induction on the items. -/
theorem mapM_pairs {value : α → Option β} {items : List α}
    (known : ∀ item ∈ items, ∃ found, value item = some found)
    : ∃ pairs,
        items.mapM (fun item => do
            let found ← value item
            return (item, found))
          = some pairs
        ∧ pairs.map Prod.fst = items
        ∧ ∀ pair ∈ pairs, value pair.1 = some pair.2 := by
  induction items with
  | nil => exact ⟨[], rfl, rfl, fun _ mem => absurd mem List.not_mem_nil⟩
  | cons item rest ih =>
      obtain ⟨found, isFound⟩ := known item List.mem_cons_self
      obtain ⟨pairs, paired, items, values⟩ :=
        ih fun other mem => known other (List.mem_cons_of_mem item mem)
      refine ⟨(item, found) :: pairs, ?_, by rw [List.map_cons, items], ?_⟩
      · rw [List.mapM_cons, isFound, paired]
        rfl
      · intro pair mem
        rcases List.mem_cons.mp mem with rfl | later
        · exact isFound
        · exact values pair later

-- Two computations side by side

/-- Two results with one error, or with related values. -/
inductive Alike (related : α → β → Prop) : Except Error α → Except Error β → Prop
  | ok {left : α} {right : β} (same : related left right) : Alike related (.ok left) (.ok right)
  | error (error : Error) : Alike related (.error error) (.error error)

theorem Alike.refl (result : Except Error α) : Alike Eq result result := by
  cases result with
  | ok value => exact .ok rfl
  | error error => exact .error error

theorem Alike.bind {α' β' : Type} {related : α → α' → Prop} {after : β → β' → Prop}
    {left : Except Error α} {right : Except Error α'} {other : α' → Except Error β'}
    (first : Alike related left right)
    (rest : ∀ one two, related one two → Alike after (next one) (other two))
    : Alike after (left >>= next) (right >>= other) := by
  cases first with
  | ok same => exact rest _ _ same
  | error error => exact .error error

end

-- Lists whose elements correspond one by one, and verdicts on their elements

section Corresponding

variable {Left Right : Type} {along : Left → Right → Prop} {lefts : List Left}
  {rights : List Right}

theorem exists_right (corresponding : List.Forall₂ along lefts rights) {left : Left}
    (member : left ∈ lefts)
    : ∃ right ∈ rights, along left right := by
  induction corresponding with
  | nil => cases member
  | cons same _ ih =>
      rcases List.mem_cons.mp member with rfl | later
      · exact ⟨_, List.mem_cons_self, same⟩
      · obtain ⟨right, there, also⟩ := ih later
        exact ⟨right, List.mem_cons_of_mem _ there, also⟩

theorem exists_left (corresponding : List.Forall₂ along lefts rights) {right : Right}
    (member : right ∈ rights)
    : ∃ left ∈ lefts, along left right :=
  exists_right (List.Forall₂.flip corresponding) member

/-- Where every element on the left has one, there is a list of them. -/
theorem exists_corresponding (all : ∀ left ∈ lefts, ∃ right, along left right)
    : ∃ rights, List.Forall₂ along lefts rights := by
  induction lefts with
  | nil => exact ⟨[], .nil⟩
  | cons left rest ih =>
      obtain ⟨right, here⟩ := all left List.mem_cons_self
      obtain ⟨others, corresponding⟩ :=
        ih (fun other member => all other (List.mem_cons_of_mem _ member))
      exact ⟨right :: others, .cons here corresponding⟩

/-- Lists that correspond have their pairs related alike. -/
theorem pairwise_along {left : Left → Left → Prop} {right : Right → Right → Prop}
    (alike
      : ∀ one two first second,
          along one first → along two second → (left one two ↔ right first second))
    (corresponding : List.Forall₂ along lefts rights)
    : lefts.Pairwise left ↔ rights.Pairwise right := by
  induction corresponding with
  | nil => simp
  | @cons one first lefts rights same rest ih =>
      rw [List.pairwise_cons, List.pairwise_cons, ih]
      refine and_congr_left (fun _ => ⟨?_, ?_⟩)
      · intro apart second member
        obtain ⟨two, there, also⟩ := exists_left rest member
        exact (alike one two first second same also).mp (apart two there)
      · intro apart two member
        obtain ⟨second, there, also⟩ := exists_right rest member
        exact (alike one two first second same also).mpr (apart second there)

end Corresponding

section Verdicts

variable {Target Refusal Value : Type} {verdict : Target → Except Refusal Value}

/-- Verdicts without a refusal grant each target in turn. -/
theorem granted_iff {targets : List Target} {values : List Value}
    : (targets.map verdict).filterMap errorOf = []
        ∧ (targets.map verdict).filterMap Except.toOption = values
      ↔ List.Forall₂ (fun target value => verdict target = .ok value) targets values := by
  induction targets generalizing values with
  | nil => simp [eq_comm]
  | cons target rest ih =>
      rw [List.forall₂_cons_left_iff]
      cases judged : verdict target with
      | error refusal => simp [judged, errorOf]
      | ok value =>
          simp only [List.map_cons, judged, List.filterMap_cons, errorOf, Except.toOption,
            Except.ok.injEq]
          constructor
          · rintro ⟨none, rfl⟩
            exact ⟨value, _, rfl, ih.mp ⟨none, rfl⟩, rfl⟩
          · rintro ⟨_, values, rfl, granted, rfl⟩
            obtain ⟨none, rfl⟩ := ih.mpr granted
            exact ⟨none, rfl⟩

end Verdicts

-- Computations that may be interrupted: a run with a result has that of the run left alone

variable {Error α β : Type}

/-- `actual` has no result that `expected` has not, and is `expected` where nothing interrupts
it.
-/
def Follows (undisturbed : Prop) (actual expected : Except Error α) : Prop :=
  (∀ value, actual = .ok value → expected = .ok value) ∧ (undisturbed → actual = expected)

variable {undisturbed : Prop}

theorem Follows.refl (result : Except Error α) : Follows undisturbed result result :=
  ⟨fun _ done => done, fun _ => rfl⟩

variable {actual expected : Except Error α} {next : α → Except Error β}

/-- Sequences follow each other part by part. -/
theorem Follows.bind {after : α → Except Error β} (first : Follows undisturbed actual expected)
    (rest : ∀ value, expected = .ok value → Follows undisturbed (next value) (after value))
    : Follows undisturbed (actual >>= next) (expected >>= after) := by
  constructor
  · intro result done
    obtain ⟨value, here, later⟩ := bind_eq_ok.mp done
    have there := first.1 value here
    rw [there, ok_bind]
    exact (rest value there).1 result later
  · intro calm
    rw [first.2 calm]
    cases known : expected with
    | error error => rfl
    | ok value => exact (rest value known).2 calm

/-- A part with a known result is left out of the expected run. -/
theorem Follows.known {value : α} {expected : Except Error β}
    (first : Follows undisturbed actual (.ok value))
    (rest : Follows undisturbed (next value) expected)
    : Follows undisturbed (actual >>= next) expected := by
  constructor
  · intro result done
    obtain ⟨found, here, later⟩ := bind_eq_ok.mp done
    cases first.1 found here
    exact rest.1 result later
  · intro calm
    rw [first.2 calm, ok_bind]
    exact rest.2 calm

/-- A check that only an interruption fails. -/
theorem Follows.pass {check : Except Error Unit} (passes : undisturbed → check = .ok ())
    : Follows undisturbed check (.ok ()) :=
  ⟨fun _ _ => rfl, passes⟩

/-- Two runs that follow one agree on their results, and wholly where both are left alone. -/
theorem Follows.agree {calm : Prop} {left right : Except Error α}
    (first : Follows undisturbed left expected) (second : Follows calm right expected)
    : (∀ one two, left = .ok one → right = .ok two → one = two)
      ∧ (undisturbed → calm → left = right) := by
  constructor
  · intro one two hasOne hasTwo
    have same := (first.1 one hasOne).symm.trans (second.1 two hasTwo)
    exact Except.ok.inj same
  · intro here there
    rw [first.2 here, second.2 there]

end SkillRanker.Library
