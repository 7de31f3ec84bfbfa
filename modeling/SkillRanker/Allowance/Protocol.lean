import SkillRanker.Library.Machine
import SkillRanker.Allowance.Admission

/-! Runs of the allowance: admissions and setup calls of any number of processes, one after
the other as the lock and the transaction serialize them, and the agreement of guard and
accounting that every run keeps.
-/

namespace SkillRanker.Allowance

open SkillRanker.Library

-- Runs

/-- One call of a process. An admission whose process does not survive it shows no result;
a setup call that crashes is one whose surroundings end it.
-/
inductive Event
  | admitAttempt (env : AdmitEnv) (origin : Origin) (stage : RankingStage) (survives : Bool)
  | setup (env : SetupEnv) (maxAttempts : Nat) (interrupt : Option SetupStep)

inductive Output
  | admission (result : Option (Except AllowanceError Admission))
  | setup (result : Except AllowanceError SetupPlan)

def allowance : Machine Store Event Output where
  next store
    | .admitAttempt env origin stage survives =>
        let (after, result) := admitAttempt env store origin stage
        (after, .admission (if survives then some result else none))
    | .setup env maxAttempts interrupt =>
        let (after, result) := applySetup env store maxAttempts interrupt
        (after, .setup result)

-- Agreement of guard and accounting

structure Metadata.Sound (metadata : Metadata) : Prop where
  schema : metadata.schemaVersion = accountingSchemaVersion
  generation_pos : metadata.readyGeneration ≠ 0
  generation_le : metadata.readyGeneration ≤ i64Max

/-- How a guard and the accounting relate at the ends of a setup step. -/
inductive Agrees (guard : Guard) : AccountingFile → Prop
  /-- The first intent, before the accounting was written. -/
  | activating (phase : guard.phase = .intent) (first : guard.generation = 1)
    : Agrees guard .empty
  /-- An intent, before or after its accounting was written. -/
  | interrupted {accounting} (phase : guard.phase = .intent)
    (sound : accounting.metadata.Sound)
    (behind : accounting.metadata.readyGeneration ≤ guard.generation)
    : Agrees guard (.tables accounting)
  /-- A finished setup. -/
  | ready {accounting} (phase : guard.phase = .ready)
    (sound : accounting.metadata.Sound)
    (matching : accounting.metadata.readyGeneration = guard.generation)
    : Agrees guard (.tables accounting)

inductive Store.Protocol : Store → Prop
  | unconfigured {file} (blank : file = .absent ∨ file = .empty)
    : Store.Protocol { guard := none, accounting := file }
  | configured {guard file} (valid : guard.Valid) (agrees : Agrees guard file)
    : Store.Protocol { guard := some guard.encode, accounting := file }

def Store.guardGeneration (store : Store) : Nat :=
  match store.readGuard with
  | .ok (some guard) => guard.generation
  | _ => 0

def AccountingFile.contents (file : AccountingFile) : Accounting :=
  match file with
  | .tables accounting => accounting
  | _ => AccountingFile.empty.setGeneration 0

theorem readGuard_configured {guard : Guard} (valid : guard.Valid) (file : AccountingFile)
    : Store.readGuard { guard := some guard.encode, accounting := file }
      = .ok (some guard) := by
  simp only [Store.readGuard, bind_eq_ok, pure_eq_ok]
  exact ⟨guard, Guard.decode_encode valid, rfl⟩

@[simp]
theorem guardGeneration_configured {guard : Guard} (valid : guard.Valid)
    (file : AccountingFile)
    : Store.guardGeneration { guard := some guard.encode, accounting := file }
      = guard.generation := by
  simp only [Store.guardGeneration, readGuard_configured valid]

variable {accounting : Accounting}

theorem readMeta_sound (sound : accounting.metadata.Sound)
    : readMeta (.tables accounting) = .ok (some accounting.metadata) := by
  simp only [readMeta, bind_eq_ok, ensure_eq_ok, pure_eq_ok]
  exact ⟨(), ⟨sound.schema, sound.generation_pos⟩, trivial⟩

variable {generation : Nat} {file : AccountingFile}

theorem accountingGeneration_contents (counted : accountingGeneration file = .ok generation)
    : generation = file.contents.metadata.readyGeneration := by
  simp only [accountingGeneration, bind_eq_ok, pure_eq_ok] at counted
  obtain ⟨found, read, rfl⟩ := counted
  cases file with
  | absent => cases read; rfl
  | empty => cases read; rfl
  | tables accounting =>
      simp only [readMeta, bind_eq_ok, pure_eq_ok] at read
      obtain ⟨_, _, rfl⟩ := read
      rfl

variable {opened : AccountingFile}

/-- Opening for writing never changes the contents, and leaves no absent file. -/
theorem openWriter_contents {create : Bool} (result : openWriter file create = .ok opened)
    : opened.contents = file.contents
      ∧ opened ≠ .absent
      ∧ (opened = file ∨ file = .absent ∧ opened = .empty) := by
  cases create with
  | false =>
      obtain ⟨accounting, rfl, rfl⟩ := openWriter_false_eq_ok result
      simp
  | true =>
      cases file with
      | absent =>
          simp only [openWriter, bind_eq_ok, pure_eq_ok, Except.ok.injEq] at result
          obtain ⟨_, rfl, _, _, _, _, rfl⟩ := result
          simp [AccountingFile.contents]
      | empty =>
          simp only [openWriter, bind_eq_ok, pure_eq_ok, Except.ok.injEq] at result
          obtain ⟨_, rfl, _, _, _, _, rfl⟩ := result
          simp
      | tables accounting =>
          simp only [openWriter, bind_eq_ok, pure_eq_ok, Except.ok.injEq] at result
          obtain ⟨_, rfl, _, _, _, _, rfl⟩ := result
          simp

/-- Setup's upsert changes the generation of the contents and nothing else of them. -/
theorem setGeneration_contents (file : AccountingFile) (generation : Nat)
    : file.setGeneration generation
      = {
          file.contents with
          metadata := { file.contents.metadata with readyGeneration := generation }
        } := by
  cases file <;> rfl

-- Preservation

variable {store : Store}

/-- Tables always hold sound metadata. -/
theorem Store.Protocol.sound (protocol : store.Protocol)
    (tables : store.accounting = .tables accounting)
    : accounting.metadata.Sound := by
  cases protocol with
  | unconfigured blank => rcases blank with rfl | rfl <;> cases tables
  | configured valid agrees =>
      cases agrees with
      | activating => cases tables
      | interrupted _ sound _ => cases tables; exact sound
      | ready _ sound _ => cases tables; exact sound

variable {maxAttempts : Nat} {previous : Option Guard} {plan : SetupPlan}

/-- Tables that setup opened are those it found. -/
theorem Planned.tables
    (planned
      : Planned store maxAttempts previous (.tables accounting) generation plan)
    : store.accounting = .tables accounting := by
  obtain ⟨_, _, same | ⟨_, other⟩⟩ := openWriter_contents planned.file
  · exact same.symm
  · cases other

/-- Intents of a sound plan agree with the accounting they were planned from.
Witness: without tables only the first generation is planned, with tables none is lowered.
-/
theorem Planned.intent_protocol (protocol : store.Protocol)
    (planned : Planned store maxAttempts previous opened generation plan)
    : (intentStore plan opened).Protocol := by
  have sound := planSetup_sound planned.chosen
  have counted := accountingGeneration_contents planned.counted
  obtain ⟨_, present, _⟩ := openWriter_contents planned.file
  refine .configured ⟨sound.valid.generation_pos, sound.valid.generation_le,
    sound.valid.maxAttempts_pos, sound.valid.maxAttempts_le⟩ ?_
  cases opened with
  | absent => exact (present rfl).elim
  | empty => exact .activating rfl (sound.first counted)
  | tables accounting =>
      exact .interrupted rfl (protocol.sound planned.tables) (counted ▸ sound.overAccounting)

theorem Planned.written_sound (protocol : store.Protocol)
    (planned : Planned store maxAttempts previous opened generation plan)
    : (opened.setGeneration plan.target.generation).metadata.Sound := by
  have valid := (planSetup_sound planned.chosen).valid
  rw [setGeneration_contents]
  refine ⟨?_, valid.generation_pos, valid.generation_le⟩
  cases opened with
  | absent => rfl
  | empty => rfl
  | tables accounting => exact (protocol.sound planned.tables).schema

theorem SetupEffect.protocol {after : Store} (protocol : store.Protocol)
    (effect : SetupEffect store maxAttempts after)
    : after.Protocol := by
  cases effect with
  | refused => exact protocol
  | opened file =>
      obtain ⟨_, _, same⟩ := openWriter_contents file
      rcases same with rfl | ⟨missing, rfl⟩
      · exact protocol
      · cases protocol with
        | unconfigured blank => exact .unconfigured (Or.inr rfl)
        | configured valid agrees => cases agrees <;> cases missing
  | intent planned => exact planned.intent_protocol protocol
  | @accounted previous opened generation plan planned =>
      have valid := (planSetup_sound planned.chosen).valid
      refine .configured ⟨valid.generation_pos, valid.generation_le, valid.maxAttempts_pos,
        valid.maxAttempts_le⟩ (.interrupted rfl (planned.written_sound protocol) ?_)
      exact Nat.le_of_eq (by rw [setGeneration_contents])
  | @ready previous opened generation plan planned =>
      have sound := planSetup_sound planned.chosen
      refine .configured sound.valid (.ready sound.phase (planned.written_sound protocol) ?_)
      rw [setGeneration_contents]

/-- A debit leaves the metadata's schema and generation as they are. -/
theorem sound_debit {charged : Accounting} {receipt : Receipt}
    (written : accounting.debit receipt = some charged) (sound : accounting.metadata.Sound)
    : charged.metadata.Sound
      ∧ charged.metadata.readyGeneration = accounting.metadata.readyGeneration := by
  rw [Accounting.metadata_debit written]
  exact ⟨⟨sound.schema, sound.generation_pos, sound.generation_le⟩, rfl⟩

/-- One admission keeps the agreement of the stores: it changes no guard and no generation.
-/
theorem AdmitEffect.protocol {env : AdmitEnv} {after : Store} {origin : Origin}
    {stage : RankingStage} {result : Except AllowanceError Admission} (protocol : store.Protocol)
    (effect : AdmitEffect env store origin stage after result)
    : after.Protocol := by
  cases effect with
  | withheld => exact protocol
  | @charged reservation accounting _ found written _ =>
      have reserved := reserve_reserved found
      have tables := reserved.tables
      cases protocol with
      | unconfigured blank => rcases blank with rfl | rfl <;> cases tables
      | configured valid agrees =>
          refine .configured valid ?_
          cases agrees with
          | activating => cases tables
          | interrupted phase sound behind =>
              cases tables
              obtain ⟨kept, same⟩ := sound_debit written sound
              exact .interrupted phase kept (same ▸ behind)
          | ready phase sound matching =>
              cases tables
              obtain ⟨kept, same⟩ := sound_debit written sound
              exact .ready phase kept (same.trans matching)

/-- Every step of a run keeps the agreement of the stores. -/
theorem protocol_next (store : Store) (event : Event) (protocol : store.Protocol)
    : (allowance.next store event).1.Protocol := by
  cases event with
  | admitAttempt env origin stage survives => exact (admit_effect env store origin stage).protocol protocol
  | setup env maxAttempts interrupt =>
      exact (applySetup_effect env store maxAttempts interrupt).protocol protocol

/-- Both stores agree after every run from the empty stores. -/
theorem protocol_final (events : List Event)
    : (allowance.final Store.initial events).Protocol :=
  allowance.invariant (.unconfigured (Or.inl rfl)) protocol_next events

end SkillRanker.Allowance
