import SkillRanker.Allowance.Stores

/-! Allowance setup: its plan and its three durable steps under the guard lock.
The surroundings of one call are an environment: what each fallible step outside both
stores answers, so a crash is an answer that ends the call with the stores as they are.
-/

namespace SkillRanker.Allowance

open SkillRanker.Library

section

variable {previous : Option Guard} {maxAttempts : Nat}

inductive SetupStep
  | intentPublished
  | accountingReady
deriving DecidableEq, Repr

structure SetupPlan where
  previous : Option Guard
  target : Guard
  /-- Nothing to do: this limit is already ready at a matching generation. -/
  unchanged : Bool
  /-- A retried setup continues an interrupted intent's generation. -/
  resumesIntent : Bool
deriving DecidableEq, Repr

def validateSetupLimit (maxAttempts : Nat) : Except AllowanceError Unit :=
  ensure (1 ≤ maxAttempts ∧ maxAttempts ≤ maxAttemptsLimit)
    (.invalidRequest "--max-attempts must be an integer from 1 to 10000")

def firstActivation (previous : Option Guard) (maxAttempts : Nat) : Bool :=
  match previous with
  | none => true
  | some guard =>
      guard.phase = .intent ∧ guard.generation = 1 ∧ guard.maxAttempts = maxAttempts

def nextGeneration (previous : Option Guard) (accountingGeneration : Nat)
    : Except AllowanceError Nat := do
  let latest := max ((previous.map Guard.generation).getD 0) accountingGeneration
  ensure (latest + 1 ≤ i64Max)
    (.state "the allowance generation cannot be advanced")
  return latest + 1

/-- The generation a plan ends in, whether nothing changes and whether an intent is resumed.
A successor is computed only when one is needed, so an unchanged or interrupted setup stays
usable at the last generation.
-/
def plannedGeneration (previous : Option Guard) (accountingGeneration maxAttempts : Nat)
    : Except AllowanceError (Nat × Bool × Bool) :=
  let advance := do return (← nextGeneration previous accountingGeneration, false, false)
  match previous with
  | none => advance
  | some guard =>
      if guard.maxAttempts = maxAttempts then
        match guard.phase with
        | .intent => .ok (max guard.generation accountingGeneration, false, true)
        | .ready =>
            if accountingGeneration = guard.generation then
              .ok (guard.generation, true, false)
            else advance
      else advance

def planSetup (previous : Option Guard) (accountingGeneration maxAttempts : Nat)
    : Except AllowanceError SetupPlan := do
  validateSetupLimit maxAttempts
  ensure
    (accountingGeneration ≤ i64Max
      ∧ ∀ guard ∈ previous, guard.generation ≠ 0 ∧ guard.generation ≤ i64Max)
    (.state "the allowance generation is outside its supported range")
  ensure (accountingGeneration ≠ 0 ∨ firstActivation previous maxAttempts)
    (.state
      ("existing allowance accounting is missing; "
        ++ "restore its history instead of resetting charges"))
  let (generation, unchanged, resumesIntent) ←
    plannedGeneration previous accountingGeneration maxAttempts
  return {
    previous
    target := { phase := .ready, generation, maxAttempts }
    unchanged
    resumesIntent
  }

/-- Where a setup call depends on more than both stores. -/
inductive SetupPoint
  /-- The guard lock. -/
  | locked
  /-- The database files and connection. -/
  | opened
  /-- The intent before it replaces the guard. -/
  | intent
  /-- The intent after it replaced the guard. -/
  | intentPublished
  /-- The writer transaction up to its commit. -/
  | written
  /-- The database files after the commit. -/
  | committed
  /-- The ready guard before it replaces the intent. -/
  | ready
  /-- The ready guard after it replaced the intent. -/
  | readyPublished
deriving DecidableEq, Repr

structure SetupEnv where
  check : SetupPoint → Except AllowanceError Unit
  commit : Commit

/-- Surroundings in which every step outside the stores succeeds. -/
def SetupEnv.quiet : SetupEnv := { check := fun _ => .ok (), commit := .done }

def accountingGeneration (file : AccountingFile) : Except AllowanceError Nat := do
  let found ← readMeta file
  return (found.map Metadata.readyGeneration).getD 0

def previewSetup (store : Store) (maxAttempts : Nat) : Except AllowanceError SetupPlan := do
  validateSetupLimit maxAttempts
  let previous ← store.readGuard
  let generation ← accountingGeneration store.accounting
  planSetup previous generation maxAttempts

/-- The start of `apply_setup`: lock, guard, database and plan. Opening the database can
already create its empty file.
-/
def beginSetup (env : SetupEnv) (store : Store) (maxAttempts : Nat)
    : Store × Except AllowanceError SetupPlan :=
  let located : Except AllowanceError (Option Guard × AccountingFile) := do
    validateSetupLimit maxAttempts
    env.check .locked
    let previous ← store.readGuard
    let accounting ← openWriter store.accounting (firstActivation previous maxAttempts)
    return (previous, accounting)
  match located with
  | .error error => (store, .error error)
  | .ok (previous, accounting) =>
      (
        { store with accounting },
        do
          env.check .opened
          let generation ← accountingGeneration accounting
          planSetup previous generation maxAttempts
      )

def publishReady (env : SetupEnv) (store : Store) (plan : SetupPlan)
    : Store × Except AllowanceError SetupPlan :=
  match env.check .ready with
  | .error error => (store, .error error)
  | .ok () =>
      (
        { store with guard := some plan.target.encode },
        do
          env.check .readyPublished
          return plan
      )

def writeAccounting (env : SetupEnv) (store : Store) (plan : SetupPlan)
    (interrupt : Option SetupStep)
    : Store × Except AllowanceError SetupPlan :=
  let written : Store :=
    { store with accounting := .tables (store.accounting.setGeneration plan.target.generation) }
  match env.check .written with
  | .error error => (store, .error error)
  | .ok () =>
      match env.commit with
      | .failed durable =>
          (if durable then written else store,
            .error (.state "the accounting generation cannot be committed"))
      | .done =>
          match env.check .committed with
          | .error error => (written, .error error)
          | .ok () =>
              if interrupt = some .accountingReady then (written, .ok plan)
              else publishReady env written plan

def publishIntent (env : SetupEnv) (store : Store) (plan : SetupPlan)
    (interrupt : Option SetupStep)
    : Store × Except AllowanceError SetupPlan :=
  match env.check .intent with
  | .error error => (store, .error error)
  | .ok () =>
      let intent : Guard := { plan.target with phase := .intent }
      let published : Store := { store with guard := some intent.encode }
      match env.check .intentPublished with
      | .error error => (published, .error error)
      | .ok () =>
          if interrupt = some .intentPublished then (published, .ok plan)
          else writeAccounting env published plan interrupt

/-- `apply_setup`: the plan and, unless nothing changes, its three durable steps.
`interrupt` stops after a step, as a crash there would.
-/
def applySetup (env : SetupEnv) (store : Store) (maxAttempts : Nat)
    (interrupt : Option SetupStep)
    : Store × Except AllowanceError SetupPlan :=
  match beginSetup env store maxAttempts with
  | (opened, .error error) => (opened, .error error)
  | (opened, .ok plan) =>
      if plan.unchanged then (opened, .ok plan)
      else publishIntent env opened plan interrupt

end

-- What one setup call can do to the two stores

-- The plan

structure SetupPlan.Sound (plan : SetupPlan) (previous : Option Guard)
    (accountingGeneration maxAttempts : Nat)
    : Prop where
  valid : plan.target.Valid
  phase : plan.target.phase = .ready
  limit : plan.target.maxAttempts = maxAttempts
  overGuard : ∀ guard ∈ previous, guard.generation ≤ plan.target.generation
  overAccounting : accountingGeneration ≤ plan.target.generation
  /-- Without accounting only the first generation is planned. -/
  first : accountingGeneration = 0 → plan.target.generation = 1
  /-- An unchanged plan names the guard and the accounting as they are. -/
  idle
    : plan.unchanged = true
      → previous = some plan.target ∧ accountingGeneration = plan.target.generation

/-- A successor generation exceeds both stores and fits a SQLite column. -/
theorem nextGeneration_eq_ok {accountingGeneration result : Nat}
    : nextGeneration previous accountingGeneration = .ok result
      ↔ result = max ((previous.map Guard.generation).getD 0) accountingGeneration + 1
        ∧ result ≤ i64Max := by
  simp only [nextGeneration, bind_eq_ok, ensure_eq_ok, pure_eq_ok]
  constructor
  · rintro ⟨_, bounded, rfl⟩
    exact ⟨rfl, bounded⟩
  · rintro ⟨rfl, bounded⟩
    exact ⟨(), bounded, rfl⟩

/-- Without accounting a first activation knows at most its own first intent. -/
theorem firstActivation_generation (first : firstActivation previous maxAttempts = true)
    : ∀ guard ∈ previous,
        guard.phase = .intent ∧ guard.generation = 1 ∧ guard.maxAttempts = maxAttempts := by
  intro guard member
  cases previous with
  | none => simp at member
  | some found =>
      cases Option.mem_some.mp member
      simpa [firstActivation] using first

/-- The three ways a generation is planned: a successor of both stores, the generation of
an interrupted intent, or the generation both stores already have.
-/
theorem plannedGeneration_cases {accountingGeneration generation : Nat} {unchanged resumes : Bool}
    (planned : plannedGeneration previous accountingGeneration maxAttempts
      = .ok (generation, unchanged, resumes))
    : (nextGeneration previous accountingGeneration = .ok generation
        ∧ unchanged = false
        ∧ ∀ guard ∈ previous, ¬ (guard.phase = .intent ∧ guard.maxAttempts = maxAttempts))
      ∨ (∃ guard ∈ previous,
          guard.phase = .intent
          ∧ generation = max guard.generation accountingGeneration
          ∧ unchanged = false)
      ∨ (∃ guard ∈ previous,
          guard.phase = .ready
          ∧ guard.maxAttempts = maxAttempts
          ∧ guard.generation = generation
          ∧ accountingGeneration = generation) := by
  unfold plannedGeneration at planned
  cases previous with
  | none =>
      simp only [bind_eq_ok, pure_eq_ok, Prod.mk.injEq] at planned
      obtain ⟨next, found, rfl, rfl, _⟩ := planned
      exact Or.inl ⟨found, rfl, by simp⟩
  | some guard =>
      simp only at planned
      by_cases same : guard.maxAttempts = maxAttempts
      · rw [if_pos same] at planned
        cases phase : guard.phase with
        | intent =>
            simp only [phase, Except.ok.injEq, Prod.mk.injEq] at planned
            exact Or.inr (Or.inl ⟨guard, rfl, phase, planned.1.symm, planned.2.1.symm⟩)
        | ready =>
            simp only [phase] at planned
            by_cases matching : accountingGeneration = guard.generation
            · rw [if_pos matching] at planned
              simp only [Except.ok.injEq, Prod.mk.injEq] at planned
              exact Or.inr (Or.inr
                ⟨guard, rfl, phase, same, planned.1, matching.trans planned.1⟩)
            · rw [if_neg matching] at planned
              simp only [bind_eq_ok, pure_eq_ok, Prod.mk.injEq] at planned
              obtain ⟨next, found, rfl, rfl, _⟩ := planned
              exact Or.inl ⟨found, rfl, by simp [phase]⟩
      · rw [if_neg same] at planned
        simp only [bind_eq_ok, pure_eq_ok, Prod.mk.injEq] at planned
        obtain ⟨next, found, rfl, rfl, _⟩ := planned
        exact Or.inl ⟨found, rfl, by simp [same]⟩

theorem planSetup_sound {accountingGeneration : Nat} {plan : SetupPlan}
    (planned : planSetup previous accountingGeneration maxAttempts = .ok plan)
    : plan.Sound previous accountingGeneration maxAttempts := by
  simp only [planSetup, validateSetupLimit, bind_eq_ok, ensure_eq_ok, pure_eq_ok] at planned
  obtain ⟨_, ⟨least, most⟩, _, ⟨bounded, inRange⟩, _, present,
    ⟨generation, unchanged, resumes⟩, chosen, rfl⟩ := planned
  -- Without accounting the guard, if any, is the first intent with this very limit.
  have initial (missing : accountingGeneration = 0) : ∀ guard ∈ previous,
      guard.phase = .intent ∧ guard.generation = 1 ∧ guard.maxAttempts = maxAttempts :=
    firstActivation_generation (present.resolve_left (by simp [missing]))
  rcases plannedGeneration_cases chosen with ⟨next, changes, fresh⟩
    | ⟨guard, member, phase, rfl, changes⟩ | ⟨guard, member, phase, limit, same, matching⟩
  · obtain ⟨eq, fits⟩ := nextGeneration_eq_ok.mp next
    exact {
      valid := ⟨by simp only; omega, fits, least, most⟩
      phase := rfl
      limit := rfl
      overGuard := by
        intro guard member
        cases Option.mem_def.mp member
        simp only [Option.map_some, Option.getD_some] at eq
        simp only; omega
      overAccounting := by simp only; omega
      first := by
        intro missing
        cases previous with
        | none => simpa [missing] using eq
        | some guard =>
            obtain ⟨phase, _, limit⟩ := initial missing guard rfl
            exact (fresh guard rfl ⟨phase, limit⟩).elim
      idle := by simp [changes]
    }
  · have range := inRange guard member
    exact {
      valid := ⟨by simp only; omega, by simp only; omega, least, most⟩
      phase := rfl
      limit := rfl
      overGuard := by
        intro found other
        cases Option.mem_unique member other
        exact Nat.le_max_left _ _
      overAccounting := Nat.le_max_right _ _
      first := fun missing => by simp [missing, (initial missing guard member).2.1]
      idle := by simp [changes]
    }
  · have range := inRange guard member
    exact {
      valid := ⟨by simp only; omega, by simp only; omega, least, most⟩
      phase := rfl
      limit := rfl
      overGuard := by
        intro found other
        cases Option.mem_unique member other
        exact Nat.le_of_eq same
      overAccounting := Nat.le_of_eq matching
      first := fun missing => by
        have contradictory := (initial missing guard member).1
        simp [phase] at contradictory
      idle := by
        intro _
        refine ⟨?_, matching⟩
        rw [Option.mem_def.mp member, ← phase, ← same, ← limit]
    }

-- The call

/-- What a setup call has established when it starts its durable steps. -/
structure Planned (store : Store) (maxAttempts : Nat) (previous : Option Guard)
    (opened : AccountingFile) (generation : Nat) (plan : SetupPlan)
    : Prop where
  guard : store.readGuard = .ok previous
  file : openWriter store.accounting (firstActivation previous maxAttempts) = .ok opened
  counted : accountingGeneration opened = .ok generation
  chosen : planSetup previous generation maxAttempts = .ok plan
  changes : plan.unchanged = false

def intentStore (plan : SetupPlan) (accounting : AccountingFile) : Store :=
  { guard := some ({ plan.target with phase := .intent } : Guard).encode, accounting }

def readyStore (plan : SetupPlan) (accounting : AccountingFile) : Store :=
  { guard := some plan.target.encode, accounting }

/-- The stores one setup call can leave behind, step by step. -/
inductive SetupEffect (store : Store) (maxAttempts : Nat) : Store → Prop
  | refused : SetupEffect store maxAttempts store
  | opened {create opened} (file : openWriter store.accounting create = .ok opened)
    : SetupEffect store maxAttempts { store with accounting := opened }
  | intent {previous opened generation plan}
    (planned : Planned store maxAttempts previous opened generation plan)
    : SetupEffect store maxAttempts (intentStore plan opened)
  | accounted {previous opened generation plan}
    (planned : Planned store maxAttempts previous opened generation plan)
    : SetupEffect store maxAttempts
        (intentStore plan (.tables (opened.setGeneration plan.target.generation)))
  | ready {previous opened generation plan}
    (planned : Planned store maxAttempts previous opened generation plan)
    : SetupEffect store maxAttempts
        (readyStore plan (.tables (opened.setGeneration plan.target.generation)))

/-- The end of the third step. -/
theorem publishReady_effect (env : SetupEnv) (store : Store) (plan : SetupPlan)
    : (publishReady env store plan).1 = store
      ∨ (publishReady env store plan).1 = readyStore plan store.accounting := by
  unfold publishReady readyStore
  cases env.check .ready with
  | error error => exact Or.inl rfl
  | ok _ => exact Or.inr rfl

/-- The ends of the second and third step. -/
theorem writeAccounting_effect (env : SetupEnv) (store : Store) (plan : SetupPlan)
    (interrupt : Option SetupStep)
    : let written := AccountingFile.tables
        (store.accounting.setGeneration plan.target.generation)
      (writeAccounting env store plan interrupt).1 = store
        ∨ (writeAccounting env store plan interrupt).1 = { store with accounting := written }
        ∨ (writeAccounting env store plan interrupt).1 = readyStore plan written := by
  intro written
  unfold writeAccounting
  cases env.check .written with
  | error error => exact Or.inl rfl
  | ok _ =>
      cases env.commit with
      | failed durable => cases durable <;> simp [written]
      | done =>
          cases env.check .committed with
          | error error => exact Or.inr (Or.inl rfl)
          | ok _ =>
              by_cases stop : interrupt = some .accountingReady
              · simp [stop, written]
              · simp only [stop, if_false]
                exact Or.inr (publishReady_effect env _ plan)

/-- The ends of the three durable steps. -/
theorem publishIntent_effect (env : SetupEnv) (store : Store) (plan : SetupPlan)
    (interrupt : Option SetupStep)
    : let written := AccountingFile.tables
        (store.accounting.setGeneration plan.target.generation)
      (publishIntent env store plan interrupt).1 = store
        ∨ (publishIntent env store plan interrupt).1 = intentStore plan store.accounting
        ∨ (publishIntent env store plan interrupt).1 = intentStore plan written
        ∨ (publishIntent env store plan interrupt).1 = readyStore plan written := by
  intro written
  unfold publishIntent
  cases env.check .intent with
  | error error => exact Or.inl rfl
  | ok _ =>
      cases env.check .intentPublished with
      | error error => exact Or.inr (Or.inl rfl)
      | ok _ =>
          by_cases stop : interrupt = some .intentPublished
          · simp [stop, intentStore]
          · simp only [stop, if_false]
            exact Or.inr
              (writeAccounting_effect env (intentStore plan store.accounting) plan interrupt)

/-- The ends of a setup call, by the points at which its surroundings can end it. -/
theorem applySetup_effect (env : SetupEnv) (store : Store) (maxAttempts : Nat)
    (interrupt : Option SetupStep)
    : SetupEffect store maxAttempts (applySetup env store maxAttempts interrupt).1 := by
  unfold applySetup beginSetup
  generalize locate : (do
    validateSetupLimit maxAttempts
    env.check .locked
    let previous ← store.readGuard
    let accounting ← openWriter store.accounting (firstActivation previous maxAttempts)
    return (previous, accounting) : Except AllowanceError (Option Guard × AccountingFile))
    = located
  cases located with
  | error error => exact .refused
  | ok found =>
      simp only [bind_eq_ok, pure_eq_ok] at locate
      obtain ⟨_, _, _, _, previous, guard, opened, file, rfl⟩ := locate
      simp only
      generalize decide : (do
        env.check .opened
        let generation ← accountingGeneration opened
        planSetup previous generation maxAttempts : Except AllowanceError SetupPlan)
        = decided
      cases decided with
      | error error => exact .opened file
      | ok plan =>
          simp only [bind_eq_ok] at decide
          obtain ⟨_, _, generation, counted, planned⟩ := decide
          dsimp only
          by_cases idle : plan.unchanged = true
          · rw [if_pos idle]
            exact .opened file
          · have begun : Planned store maxAttempts previous opened generation plan :=
              ⟨guard, file, counted, planned, by simpa using idle⟩
            rw [if_neg idle]
            rcases publishIntent_effect env { store with accounting := opened } plan interrupt
              with same | intent | accounted | ready
            · rw [same]
              exact .opened file
            · rw [intent]
              exact .intent begun
            · rw [accounted]
              exact .accounted begun
            · rw [ready]
              exact .ready begun

end SkillRanker.Allowance
