import SkillRanker.Allowance.Protocol

/-! Recovery of interrupted setups: whatever a crash leaves behind admits no debit, loses no
charge, and is finished by applying the recorded limit again.
-/

namespace SkillRanker.Allowance

open SkillRanker.Library

variable {store after : Store} {guard : Guard} {maxAttempts generation : Nat}
  {previous : Option Guard} {opened : AccountingFile} {plan : SetupPlan}

/-- The stores after a run from the beginning. -/
def reach (events : List Event) : Store := allowance.final Store.initial events

def Store.accountedGeneration (store : Store) : Nat :=
  store.accounting.contents.metadata.readyGeneration

-- Nothing is debited during setup

/-- An admission against a guard that is no matching ready guard writes and debits nothing.
Witness: every written debit has established a ready guard at the accounting's generation.
-/
theorem admit_withheld (read : store.readGuard = .ok (some guard))
    (unfinished : guard.phase = .intent ∨ guard.generation ≠ store.accountedGeneration)
    (env : AdmitEnv) (origin : Origin) (stage : RankingStage)
    : (admitAttempt env store origin stage).1 = store
      ∧ ∀ debit, (admitAttempt env store origin stage).2 ≠ .ok (.debited debit) := by
  generalize result : admitAttempt env store origin stage = outcome
  have effect := admit_effect env store origin stage
  rw [result] at effect
  rcases outcome with ⟨after, answer⟩
  cases effect with
  | withheld none => exact ⟨rfl, none⟩
  | @charged reservation _ _ found _ _ =>
      exfalso
      have reserved := reserve_reserved found
      have same : reservation.guard = guard := by
        have both := reserved.guard.symm.trans read
        simpa using both
      subst same
      rcases unfinished with intent | differs
      · simp [reserved.ready] at intent
      · apply differs
        rw [Store.accountedGeneration, reserved.tables]
        exact reserved.generations.symm

-- Generations and charges

structure SetupKeeps (before after : Store) : Prop where
  guard : before.guardGeneration ≤ after.guardGeneration
  accounting : before.accountedGeneration ≤ after.accountedGeneration
  charges : after.accounting.contents.charges = before.accounting.contents.charges
  attempts : after.accounting.contents.attempts = before.accounting.contents.attempts
  lastCharge
    : after.accounting.contents.metadata.lastChargeUnixMs
      = before.accounting.contents.metadata.lastChargeUnixMs

theorem SetupKeeps.refl (store : Store) : SetupKeeps store store :=
  ⟨Nat.le_refl _, Nat.le_refl _, rfl, rfl, rfl⟩

theorem SetupKeeps.trans {before middle : Store} (first : SetupKeeps before middle)
    (second : SetupKeeps middle after)
    : SetupKeeps before after :=
  ⟨Nat.le_trans first.guard second.guard, Nat.le_trans first.accounting second.accounting,
    second.charges.trans first.charges, second.attempts.trans first.attempts,
    second.lastCharge.trans first.lastCharge⟩

theorem Planned.guardGeneration_le
    (planned : Planned store maxAttempts previous opened generation plan)
    : store.guardGeneration ≤ plan.target.generation := by
  have sound := planSetup_sound planned.chosen
  simp only [Store.guardGeneration, planned.guard]
  cases previous with
  | none => exact Nat.zero_le _
  | some guard => exact sound.overGuard guard rfl

theorem guardGeneration_intentStore (valid : plan.target.Valid) (file : AccountingFile)
    : (intentStore plan file).guardGeneration = plan.target.generation :=
  @guardGeneration_configured { plan.target with phase := .intent }
    ⟨valid.generation_pos, valid.generation_le, valid.maxAttempts_pos, valid.maxAttempts_le⟩
    file

/-- The accounting of a plan keeps every charge and is not behind the one it replaces.
Witness: the upsert changes the generation alone, and no plan is below the accounting.
-/
theorem Planned.keeps (planned : Planned store maxAttempts previous opened generation plan)
    (guarded : after.guardGeneration = plan.target.generation)
    (accounted
      : after.accounting = .tables (opened.setGeneration plan.target.generation))
    : SetupKeeps store after := by
  have same := (openWriter_contents planned.file).1
  have sound := planSetup_sound planned.chosen
  have counted := accountingGeneration_contents planned.counted
  have written : after.accounting.contents
      = {
          store.accounting.contents with
          metadata :=
            {
              store.accounting.contents.metadata with
              readyGeneration := plan.target.generation
            }
        } := by
    rw [accounted, AccountingFile.contents, setGeneration_contents, same]
  refine ⟨?_, ?_, ?_, ?_, ?_⟩
  · exact guarded ▸ planned.guardGeneration_le
  · rw [Store.accountedGeneration, Store.accountedGeneration, written, ← same, ← counted]
    exact sound.overAccounting
  all_goals rw [written]

theorem SetupEffect.keeps (effect : SetupEffect store maxAttempts after)
    : SetupKeeps store after := by
  cases effect with
  | refused => exact .refl store
  | opened file =>
      have same := (openWriter_contents file).1
      exact ⟨Nat.le_refl _, by simp [Store.accountedGeneration, same], by rw [same],
        by rw [same], by rw [same]⟩
  | @intent previous opened generation plan planned =>
      have same := (openWriter_contents planned.file).1
      have valid := (planSetup_sound planned.chosen).valid
      refine ⟨?_, ?_, by rw [← same]; rfl, by rw [← same]; rfl, by rw [← same]; rfl⟩
      · rw [guardGeneration_intentStore valid]
        exact planned.guardGeneration_le
      · rw [Store.accountedGeneration, ← same]
        exact Nat.le_refl _
  | accounted planned =>
      exact planned.keeps
        (guardGeneration_intentStore (planSetup_sound planned.chosen).valid _) rfl
  | ready planned =>
      exact planned.keeps
        (guardGeneration_configured (planSetup_sound planned.chosen).valid _) rfl

structure SetupCall where
  env : SetupEnv
  maxAttempts : Nat
  interrupt : Option SetupStep

def SetupCall.event (call : SetupCall) : Event :=
  .setup call.env call.maxAttempts call.interrupt

/-- Any number of setup calls keep generations and charges, by induction on the calls. -/
theorem setups_keep (store : Store) (calls : List SetupCall)
    : SetupKeeps store (allowance.final store (calls.map SetupCall.event)) := by
  induction calls generalizing store with
  | nil => exact .refl store
  | cons call rest ih =>
      have first : SetupKeeps store (allowance.next store call.event).1 :=
        (applySetup_effect call.env store call.maxAttempts call.interrupt).keeps
      exact first.trans (ih _)

theorem AdmitEffect.generations {env : AdmitEnv} {origin : Origin} {stage : RankingStage}
    {result : Except AllowanceError Admission}
    (effect : AdmitEffect env store origin stage after result)
    : after.guardGeneration = store.guardGeneration
      ∧ after.accountedGeneration = store.accountedGeneration := by
  cases effect with
  | withheld => exact ⟨rfl, rfl⟩
  | @charged reservation accounting _ found written _ =>
      refine ⟨rfl, ?_⟩
      simp only [Store.accountedGeneration, (reserve_reserved found).tables, AccountingFile.contents,
        Accounting.metadata_debit written]

theorem generations_next (store : Store) (event : Event)
    : store.guardGeneration ≤ (allowance.next store event).1.guardGeneration
      ∧ store.accountedGeneration ≤ (allowance.next store event).1.accountedGeneration := by
  cases event with
  | admitAttempt env origin stage survives =>
      obtain ⟨guard, accounting⟩ := (admit_effect env store origin stage).generations
      exact ⟨Nat.le_of_eq guard.symm, Nat.le_of_eq accounting.symm⟩
  | setup env maxAttempts interrupt =>
      have keeps := (applySetup_effect env store maxAttempts interrupt).keeps
      exact ⟨keeps.guard, keeps.accounting⟩

-- Finishing an interrupted setup

theorem applySetup_quiet (read : store.readGuard = .ok previous)
    (file : openWriter store.accounting (firstActivation previous maxAttempts) = .ok opened)
    (counted : accountingGeneration opened = .ok generation)
    (planned : planSetup previous generation maxAttempts = .ok plan)
    : applySetup .quiet store maxAttempts none
      = (
          if plan.unchanged then { store with accounting := opened }
          else readyStore plan (.tables (opened.setGeneration plan.target.generation)),
          .ok plan
        ) := by
  have limit : validateSetupLimit maxAttempts = .ok () := by
    simp only [planSetup, bind_eq_ok] at planned
    obtain ⟨_, limit, _⟩ := planned
    exact limit
  have begun : beginSetup .quiet store maxAttempts
      = ({ store with accounting := opened }, .ok plan) := by
    simp only [beginSetup, SetupEnv.quiet, limit, read, file, counted, planned, bind,
      Except.bind, pure, Except.pure]
  simp only [applySetup, begun]
  split
  · rfl
  · simp [publishIntent, writeAccounting, publishReady, SetupEnv.quiet, readyStore, bind,
      Except.bind, pure, Except.pure]

theorem planSetup_intent {accountingGeneration : Nat} (valid : guard.Valid)
    (phase : guard.phase = .intent) (bounded : accountingGeneration ≤ i64Max)
    (present : accountingGeneration ≠ 0 ∨ guard.generation = 1)
    : planSetup (some guard) accountingGeneration guard.maxAttempts
      = .ok {
          previous := some guard
          target :=
            {
              phase := .ready
              generation := max guard.generation accountingGeneration
              maxAttempts := guard.maxAttempts
            }
          unchanged := false
          resumesIntent := true
        } := by
  have first : accountingGeneration ≠ 0
      ∨ firstActivation (some guard) guard.maxAttempts = true := by
    simpa [firstActivation, phase] using present
  simp only [planSetup, validateSetupLimit, bind_eq_ok, ensure_eq_ok, pure_eq_ok]
  refine ⟨(), ⟨valid.maxAttempts_pos, valid.maxAttempts_le⟩, (), ⟨bounded, ?_⟩, (), first,
    (max guard.generation accountingGeneration, false, true), ?_, rfl⟩
  · intro found member
    cases Option.mem_some.mp member
    exact ⟨valid.generation_pos, valid.generation_le⟩
  · simp [plannedGeneration, phase]

/-- Planning the recorded limit of a ready guard changes nothing. -/
theorem planSetup_ready (valid : guard.Valid) (phase : guard.phase = .ready)
    : planSetup (some guard) guard.generation guard.maxAttempts
      = .ok {
          previous := some guard
          target := guard
          unchanged := true
          resumesIntent := false
        } := by
  simp only [planSetup, validateSetupLimit, bind_eq_ok, ensure_eq_ok, pure_eq_ok]
  refine ⟨(), ⟨valid.maxAttempts_pos, valid.maxAttempts_le⟩, (),
    ⟨valid.generation_le, ?_⟩, (), Or.inl valid.generation_pos,
    (guard.generation, true, false), ?_, ?_⟩
  · intro found member
    cases Option.mem_some.mp member
    exact ⟨valid.generation_pos, valid.generation_le⟩
  · simp [plannedGeneration, phase]
  · rw [← phase]

/-- What applying a limit in quiet surroundings ends in. -/
structure Finishes (store : Store) (maxAttempts : Nat) (plan : SetupPlan) (after : Store)
    : Prop where
  previewed : previewSetup store maxAttempts = .ok plan
  applied : applySetup .quiet store maxAttempts none = (after, .ok plan)
  phase : plan.target.phase = .ready
  limit : plan.target.maxAttempts = maxAttempts
  guard : after.readGuard = .ok (some plan.target)
  accounting
    : ∃ metadata,
        readMeta after.accounting = .ok (some metadata)
        ∧ metadata.readyGeneration = plan.target.generation

theorem finishes_of_planned (protocol : store.Protocol)
    (planned : Planned store maxAttempts previous opened generation plan)
    (counted : accountingGeneration store.accounting = .ok generation)
    : Finishes store maxAttempts plan
        (readyStore plan (.tables (opened.setGeneration plan.target.generation))) := by
  have sound := planSetup_sound planned.chosen
  refine ⟨?_, ?_, sound.phase, sound.limit, readGuard_configured sound.valid _,
    _, readMeta_sound (planned.written_sound protocol), ?_⟩
  · have limit : validateSetupLimit maxAttempts = .ok () := by
      simp only [validateSetupLimit, ensure_eq_ok, ← sound.limit]
      exact ⟨sound.valid.maxAttempts_pos, sound.valid.maxAttempts_le⟩
    simp only [previewSetup, limit, planned.guard, counted, bind, Except.bind, planned.chosen]
  · rw [applySetup_quiet planned.guard planned.file planned.counted planned.chosen]
    simp [planned.changes]
  · rw [setGeneration_contents]

/-- Applying the recorded limit again finishes setup from every state a run reaches.
Witness: an intent is resumed at the later of both generations, a ready guard is kept.
-/
theorem reapply_finishes (protocol : store.Protocol) (read : store.readGuard = .ok (some guard))
    : ∃ plan after, Finishes store guard.maxAttempts plan after := by
  cases protocol with
  | unconfigured blank => cases read
  | @configured known file valid agrees =>
      have same : known = guard := by
        simpa [readGuard_configured valid] using read
      subst same
      cases agrees with
      | activating phase first =>
          have opened : openWriter .empty (firstActivation (some known) known.maxAttempts)
              = .ok .empty := by
            have create : firstActivation (some known) known.maxAttempts = true := by
              simp [firstActivation, phase, first]
            rw [create]
            rfl
          exact ⟨_, _, finishes_of_planned (.configured valid (.activating phase first))
            ⟨read, opened, rfl, planSetup_intent valid phase (by decide) (Or.inr first), rfl⟩
            rfl⟩
      | @interrupted accounting phase sound behind =>
          have opened : openWriter (.tables accounting)
              (firstActivation (some known) known.maxAttempts) = .ok (.tables accounting) := by
            simp [openWriter, readMeta_sound sound, ensure, bind, Except.bind, pure, Except.pure]
          have counted : accountingGeneration (.tables accounting)
              = .ok accounting.metadata.readyGeneration := by
            simp [accountingGeneration, readMeta_sound sound, bind, Except.bind, pure,
              Except.pure]
          exact ⟨_, _, finishes_of_planned (.configured valid (.interrupted phase sound behind))
            ⟨read, opened, counted,
              planSetup_intent valid phase sound.generation_le (Or.inl sound.generation_pos),
              rfl⟩
            counted⟩
      | @ready accounting phase sound matching =>
          have opened : openWriter (.tables accounting)
              (firstActivation (some known) known.maxAttempts) = .ok (.tables accounting) := by
            simp [openWriter, readMeta_sound sound, ensure, bind, Except.bind, pure, Except.pure]
          have counted : accountingGeneration (.tables accounting) = .ok known.generation := by
            simp [accountingGeneration, readMeta_sound sound, matching, bind, Except.bind, pure,
              Except.pure]
          have planned := planSetup_ready valid phase
          have limit : validateSetupLimit known.maxAttempts = .ok () := by
            simp only [validateSetupLimit, ensure_eq_ok]
            exact ⟨valid.maxAttempts_pos, valid.maxAttempts_le⟩
          refine ⟨
            {
              previous := some known
              target := known
              unchanged := true
              resumesIntent := false
            },
            { guard := some known.encode, accounting := .tables accounting },
            ?_, ?_, phase, rfl, read, accounting.metadata, readMeta_sound sound, matching⟩
          · simp only [previewSetup, limit, read, counted, bind, Except.bind, planned]
          · rw [applySetup_quiet read opened counted planned]
            simp

/-- A ready guard has the generation of the accounting, after every run. -/
theorem ready_agrees (protocol : store.Protocol) (read : store.readGuard = .ok (some guard))
    (phase : guard.phase = .ready)
    : ∃ metadata,
        readMeta store.accounting = .ok (some metadata)
        ∧ metadata.readyGeneration = guard.generation := by
  cases protocol with
  | unconfigured blank => cases read
  | @configured known file valid agrees =>
      have same : known = guard := by
        simpa [readGuard_configured valid] using read
      subst same
      cases agrees with
      | activating intent _ => simp [phase] at intent
      | interrupted intent _ _ => simp [phase] at intent
      | ready _ sound matching => exact ⟨_, readMeta_sound sound, matching⟩

/-- Setup recovery: from the stores that any run leaves, crashes included,
an unfinished setup admits no debit, generations only grow and setup keeps every charge,
a ready guard agrees with the accounting, and the recorded limit can be applied again.
-/
theorem setup_recovery (events : List Event)
    : (∀ guard,
        (reach events).readGuard = .ok (some guard)
        → guard.phase = .intent ∨ guard.generation ≠ (reach events).accountedGeneration
        → ∀ env origin stage,
            (admitAttempt env (reach events) origin stage).1 = reach events
            ∧ ∀ debit, (admitAttempt env (reach events) origin stage).2 ≠ .ok (.debited debit))
      ∧ (∀ later,
          (reach events).guardGeneration ≤ (reach (events ++ later)).guardGeneration
          ∧ (reach events).accountedGeneration ≤ (reach (events ++ later)).accountedGeneration)
      ∧ (∀ calls : List SetupCall,
          SetupKeeps (reach events) (reach (events ++ calls.map SetupCall.event)))
      ∧ (∀ guard,
          (reach events).readGuard = .ok (some guard)
          → guard.phase = .ready
          → ∃ metadata,
              readMeta (reach events).accounting = .ok (some metadata)
              ∧ metadata.readyGeneration = guard.generation)
      ∧ (∀ guard,
          (reach events).readGuard = .ok (some guard)
          → ∃ plan after, Finishes (reach events) guard.maxAttempts plan after) := by
  have protocol : (reach events).Protocol := protocol_final events
  refine ⟨fun guard read unfinished => admit_withheld read unfinished, ?_, ?_,
    fun guard read phase => ready_agrees protocol read phase,
    fun guard read => reapply_finishes protocol read⟩
  · intro later
    simp only [reach, Machine.final_append]
    exact ⟨allowance.monotone Store.guardGeneration (fun _ => True)
        (fun _ _ _ => trivial) (fun store event _ => (generations_next store event).1) trivial later,
      allowance.monotone Store.accountedGeneration (fun _ => True)
        (fun _ _ _ => trivial) (fun store event _ => (generations_next store event).2) trivial
        later⟩
  · intro calls
    simp only [reach, Machine.final_append]
    exact setups_keep _ calls

/-- A first setup that crashes after its intent is finished by applying its limit again. -/
theorem setup_recovery_first_intent
    : ∃ guard,
        (reach [.setup .quiet 5 (some .intentPublished)]).readGuard = .ok (some guard)
        ∧ guard.phase = .intent
        ∧ ∃ plan after,
            Finishes (reach [.setup .quiet 5 (some .intentPublished)]) guard.maxAttempts plan
              after :=
  ⟨{ phase := .intent, generation := 1, maxAttempts := 5 }, rfl, rfl,
    (setup_recovery [.setup .quiet 5 (some .intentPublished)]).2.2.2.2 _ rfl⟩

end SkillRanker.Allowance
