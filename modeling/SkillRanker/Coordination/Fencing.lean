import SkillRanker.Coordination.Records
import SkillRanker.Library.Machine

/-! The fence of the leases over whole runs, whatever the callers do and their clocks show. -/

namespace SkillRanker.Coordination

open SkillRanker.Library

inductive Call
  | acquire (key : CoordinationKey) (now ttl : Nat) (token : Except String OwnerToken)
      (durable : Bool)
  | forceReacquire (key : CoordinationKey) (now ttl : Nat) (token : Except String OwnerToken)
      (durable : Bool)
  | activeLease (leader : LeaderContext) (now : Nat)
  | complete (key : CoordinationKey) (token : OwnerToken) (generation now : Nat)
      (durable : Bool)

inductive Answer
  | acquired (answer : LeaseAcquisition)
  | active (answer : Bool)
  | completed (answer : PublishOutcome)
  | refused (error : CoordinationError)
  | rolledBack
deriving DecidableEq

def Call.key : Call → CoordinationKey
  | .acquire key .. => key
  | .forceReacquire key .. => key
  | .activeLease leader _ => leader.key
  | .complete key .. => key

def transact {Outcome : Type} (leases : Leases) (durable : Bool) (answer : Outcome → Answer)
    (outcome : Except CoordinationError (Leases × Outcome))
    : Leases × Answer :=
  match outcome with
  | .error error => (leases, .refused error)
  | .ok (after, result) => if durable then (after, answer result) else (leases, .rolledBack)

/-- The table of leases under the calls of any number of callers. Transactions on the store
exclude one another, so a run is the sequence of its calls.
-/
def coordinator : Machine Leases Call Answer where
  next leases call :=
    match call with
    | .acquire key now ttl token durable =>
        transact leases durable .acquired (acquire leases key now ttl token)
    | .forceReacquire key now ttl token durable =>
        transact leases durable .acquired (forceReacquire leases key now ttl token)
    | .activeLease leader now =>
        match activeLease leases leader now with
        | .ok answer => (leases, .active answer)
        | .error error => (leases, .refused error)
    | .complete key token generation now durable =>
        transact leases durable .completed (complete leases key token generation now)

abbrev Step := Transition Leases Call Answer

def Step.leader (step : Step) : Option LeaderContext :=
  match step.output with
  | .acquired (.leading leader) => some leader
  | _ => none

structure Publication where
  key : CoordinationKey
  token : OwnerToken
  generation : Nat
  now : Nat

def Step.publication (step : Step) : Option Publication :=
  match step.event, step.output with
  | .complete key token generation now _, .completed .published =>
      some { key := key, token := token, generation := generation, now := now }
  | _, _ => none

def leaders (steps : List Step) : List LeaderContext := steps.filterMap Step.leader

def publications (steps : List Step) : List Publication := steps.filterMap Step.publication

theorem leaders_snoc (steps : List Step) (step : Step)
    : leaders (steps ++ [step]) = leaders steps ++ step.leader.toList := by
  cases made : step.leader <;> simp [leaders, made]

theorem publications_snoc (steps : List Step) (step : Step)
    : publications (steps ++ [step]) = publications steps ++ step.publication.toList := by
  cases made : step.publication <;> simp [publications, made]

/-- What a step does to sound rows, and what the run records of it. -/
inductive StepEffect (step : Step) : Prop
  | quiet (same : step.after = step.before) (leaderless : step.leader = none)
    (unpublished : step.publication = none)
    (pending : step.output ≠ .acquired .alreadyCompleted)
  | completed {record} (same : step.after = step.before) (leaderless : step.leader = none)
    (unpublished : step.publication = none)
    (known : step.before.record step.event.key = some record)
    (done : record.isCompleted = true)
  | leading {record : LeaseRecord} (valid : record.Valid) (fresh : record.isCompleted = false)
    (newer
      : ∀ old,
          step.before.record step.event.key = some old
          → old.fencingGeneration < record.fencingGeneration)
    (written : step.after = step.before.write step.event.key record.stored)
    (made : step.leader = some (record.leader step.event.key))
    (unpublished : step.publication = none)
    (pending : step.output ≠ .acquired .alreadyCompleted)
  | published {record : LeaseRecord} {token : OwnerToken} {generation now : Nat}
    (known : step.before.record step.event.key = some record)
    (publishable : record.Publishable token generation now)
    (written : step.after = step.before.write step.event.key record.completed.stored)
    (leaderless : step.leader = none)
    (made
      : step.publication
        = some {
            key := step.event.key
            token := token
            generation := generation
            now := now
          })
    (pending : step.output ≠ .acquired .alreadyCompleted)

/-- An acquisition takes one of the first three effects. -/
theorem acquired_effect {step : Step} {durable : Bool}
    {outcome : Except CoordinationError (Leases × LeaseAcquisition)}
    (ends : (step.after, step.output) = transact step.before durable .acquired outcome)
    (effect
      : ∀ result,
          outcome = .ok result → AcquireEffect step.before step.event.key result)
    (unpublished : step.publication = none)
    : StepEffect step := by
  cases outcome with
  | error error =>
      obtain ⟨after, output⟩ := Prod.mk.inj ends
      exact .quiet after (by simp [Step.leader, output]) unpublished (by simp [output])
  | ok result =>
      cases durable with
      | false =>
          obtain ⟨after, output⟩ := Prod.mk.inj ends
          exact .quiet after (by simp [Step.leader, output]) unpublished (by simp [output])
      | true =>
          cases effect result rfl with
          | following =>
              obtain ⟨after, output⟩ := Prod.mk.inj ends
              exact .quiet after (by simp [Step.leader, output]) unpublished (by simp [output])
          | completed known done =>
              obtain ⟨after, output⟩ := Prod.mk.inj ends
              exact .completed after (by simp [Step.leader, output]) unpublished known done
          | leading valid fresh newer =>
              obtain ⟨after, output⟩ := Prod.mk.inj ends
              exact .leading valid fresh newer after (by simp [Step.leader, output])
                unpublished (by simp [output])

variable {leases : Leases}

theorem step_effect (sound : leases.Sound) (call : Call)
    : StepEffect (coordinator.transition leases call) := by
  cases call with
  | acquire key now ttl token durable =>
      exact acquired_effect rfl (fun _ answered => acquire_effect sound answered) rfl
  | forceReacquire key now ttl token durable =>
      exact acquired_effect rfl (fun _ answered => forceReacquire_effect sound answered) rfl
  | activeLease leader now =>
      cases answered : activeLease leases leader now
      all_goals
        refine .quiet ?_ ?_ rfl ?_ <;>
          simp [Machine.transition, coordinator, answered, Step.leader]
  | complete key token generation now durable =>
      cases answered : complete leases key token generation now with
      | error error =>
          refine .quiet ?_ ?_ ?_ ?_ <;>
            simp [Machine.transition, coordinator, answered, transact, Step.leader,
              Step.publication]
      | ok result =>
          cases durable with
          | false =>
              refine .quiet ?_ ?_ ?_ ?_ <;>
                simp [Machine.transition, coordinator, answered, transact, Step.leader,
                  Step.publication]
          | true =>
              have effect := complete_effect sound answered
              cases effect with
              | superseded =>
                  refine .quiet ?_ ?_ ?_ ?_ <;>
                    simp [Machine.transition, coordinator, answered, transact, Step.leader,
                      Step.publication]
              | published known publishable =>
                  refine .published known publishable ?_ ?_ ?_ ?_ <;>
                    simp [Machine.transition, coordinator, answered, transact, Step.leader,
                      Step.publication, Call.key]

/-- What ties the rows to the leaders and publications of the run: the record of a key is the
last leader's, and its flag says whether that generation was published.
-/
structure Fence (steps : List Step) (leases : Leases) : Prop where
  sound : leases.Sound
  held : ∀ key record, leases.record key = some record → record.leader key ∈ leaders steps
  latest
    : ∀ leader ∈ leaders steps,
        ∃ record,
          leases.record leader.key = some record
          ∧ (leader = record.leader leader.key
            ∨ leader.fencingGeneration < record.fencingGeneration)
  spent
    : ∀ made ∈ publications steps,
        ∃ record,
          leases.record made.key = some record
          ∧ (made.generation = record.fencingGeneration ∧ record.isCompleted = true
            ∨ made.generation < record.fencingGeneration)
  flagged
    : ∀ key record,
        leases.record key = some record
        → record.isCompleted = true
        → ∃ made ∈ publications steps,
            made.key = key ∧ made.generation = record.fencingGeneration

theorem Fence.initial : Fence [] (fun _ => none) := by
  refine ⟨?_, ?_, ?_, ?_, ?_⟩
  · intro key row found
    cases found
  · intro key record known
    cases known
  · intro leader member
    cases member
  · intro made member
    cases member
  · intro key record known
    cases known

variable {steps : List Step}

/-- A step that writes nothing and records nothing keeps the fence. -/
theorem Fence.idle {step : Step} (fence : Fence steps step.before) (same : step.after = step.before)
    (leaderless : step.leader = none) (unpublished : step.publication = none)
    : Fence (steps ++ [step]) step.after := by
  have keptLeaders : leaders (steps ++ [step]) = leaders steps := by
    rw [leaders_snoc, leaderless, Option.toList_none, List.append_nil]
  have keptPublications : publications (steps ++ [step]) = publications steps := by
    rw [publications_snoc, unpublished, Option.toList_none, List.append_nil]
  rw [same]
  refine ⟨fence.sound, ?_, ?_, ?_, ?_⟩
  · rw [keptLeaders]
    exact fence.held
  · rw [keptLeaders]
    exact fence.latest
  · rw [keptPublications]
    exact fence.spent
  · rw [keptPublications]
    exact fence.flagged

variable {record : LeaseRecord}

/-- A new leader keeps the fence. Witness: whatever its key held is of an earlier
generation.
-/
theorem Fence.led {step : Step} (fence : Fence steps step.before) (valid : record.Valid)
    (fresh : record.isCompleted = false)
    (newer
      : ∀ old,
          step.before.record step.event.key = some old
          → old.fencingGeneration < record.fencingGeneration)
    (written : step.after = step.before.write step.event.key record.stored)
    (made : step.leader = some (record.leader step.event.key))
    (unpublished : step.publication = none)
    : Fence (steps ++ [step]) step.after := by
  have added : leaders (steps ++ [step]) = leaders steps ++ [record.leader step.event.key] := by
    rw [leaders_snoc, made, Option.toList_some]
  have kept : publications (steps ++ [step]) = publications steps := by
    rw [publications_snoc, unpublished, Option.toList_none, List.append_nil]
  rw [written]
  refine ⟨fence.sound.write step.event.key valid, ?_, ?_, ?_, ?_⟩
  · rw [added]
    intro key found known
    rw [Leases.record_write valid] at known
    split at known
    · rename_i same
      cases known
      subst same
      exact List.mem_append_right _ (List.mem_singleton.mpr rfl)
    · exact List.mem_append_left _ (fence.held key found known)
  · rw [added]
    intro leader member
    rw [Leases.record_write valid]
    split
    · rename_i same
      refine ⟨record, rfl, ?_⟩
      rcases List.mem_append.mp member with old | new
      · obtain ⟨before, known, order⟩ := fence.latest leader old
        rw [same] at known
        have grown := newer before known
        rcases order with whole | earlier
        · refine .inr ?_
          rw [whole]
          exact grown
        · exact .inr (Nat.lt_trans earlier grown)
      · rw [same]
        exact .inl (List.mem_singleton.mp new)
    · rename_i other
      rcases List.mem_append.mp member with old | new
      · exact fence.latest leader old
      · rw [List.mem_singleton.mp new] at other
        exact absurd rfl other
  · rw [kept]
    intro published member
    obtain ⟨before, known, order⟩ := fence.spent published member
    rw [Leases.record_write valid]
    split
    · rename_i same
      rw [same] at known
      have grown := newer before known
      refine ⟨record, rfl, .inr ?_⟩
      rcases order with ⟨equal, _⟩ | earlier
      · rw [equal]
        exact grown
      · exact Nat.lt_trans earlier grown
    · exact ⟨before, known, order⟩
  · rw [kept]
    intro key found known done
    rw [Leases.record_write valid] at known
    split at known
    · cases known
      exact absurd (fresh.symm.trans done) Bool.false_ne_true
    · exact fence.flagged key found known done

/-- A publication keeps the fence. Witness: it marks the record it was checked against. -/
theorem Fence.published {step : Step} {made : Publication} (fence : Fence steps step.before)
    (known : step.before.record step.event.key = some record)
    (written : step.after = step.before.write step.event.key record.completed.stored)
    (leaderless : step.leader = none) (recorded : step.publication = some made)
    (sameKey : made.key = step.event.key)
    (sameGeneration : made.generation = record.fencingGeneration)
    : Fence (steps ++ [step]) step.after := by
  have kept : leaders (steps ++ [step]) = leaders steps := by
    rw [leaders_snoc, leaderless, Option.toList_none, List.append_nil]
  have added : publications (steps ++ [step]) = publications steps ++ [made] := by
    rw [publications_snoc, recorded, Option.toList_some]
  have valid := (fence.sound.row known).1.completed
  rw [written]
  refine ⟨fence.sound.write step.event.key valid, ?_, ?_, ?_, ?_⟩
  · rw [kept]
    intro key found stored
    rw [Leases.record_write valid] at stored
    split at stored
    · rename_i same
      cases stored
      subst same
      exact fence.held _ record known
    · exact fence.held key found stored
  · rw [kept]
    intro leader member
    obtain ⟨before, stored, order⟩ := fence.latest leader member
    rw [Leases.record_write valid]
    split
    · rename_i same
      rw [same] at stored
      cases known.symm.trans stored
      exact ⟨record.completed, rfl, order⟩
    · exact ⟨before, stored, order⟩
  · rw [added]
    intro published member
    rw [Leases.record_write valid]
    split
    · rename_i same
      refine ⟨record.completed, rfl, ?_⟩
      rcases List.mem_append.mp member with old | new
      · obtain ⟨before, stored, order⟩ := fence.spent published old
        rw [same] at stored
        cases known.symm.trans stored
        exact order.imp_left (fun last => ⟨last.1, rfl⟩)
      · rw [List.mem_singleton.mp new]
        exact .inl ⟨sameGeneration, rfl⟩
    · rename_i other
      rcases List.mem_append.mp member with old | new
      · exact fence.spent published old
      · rw [List.mem_singleton.mp new] at other
        exact absurd sameKey other
  · rw [added]
    intro key found stored done
    rw [Leases.record_write valid] at stored
    split at stored
    · rename_i same
      cases stored
      exact ⟨made, List.mem_append_right _ (List.mem_singleton.mpr rfl),
        sameKey.trans same.symm, sameGeneration⟩
    · obtain ⟨last, member, facts⟩ := fence.flagged key found stored done
      exact ⟨last, List.mem_append_left _ member, facts⟩

theorem Fence.step {step : Step} (fence : Fence steps step.before) (effect : StepEffect step)
    : Fence (steps ++ [step]) step.after := by
  cases effect with
  | quiet same leaderless unpublished _ => exact fence.idle same leaderless unpublished
  | completed same leaderless unpublished _ _ => exact fence.idle same leaderless unpublished
  | leading valid fresh newer written made unpublished _ =>
      exact fence.led valid fresh newer written made unpublished
  | published known publishable written leaderless made _ =>
      exact fence.published known written leaderless made rfl publishable.generation.symm

/-- The rows that the calls of a run leave, from the empty table. -/
def reach (calls : List Call) : Leases := coordinator.final (fun _ => none) calls

def run (calls : List Call) : List Step := coordinator.history (fun _ => none) calls

variable (calls : List Call)

/-- The fence holds after every run, by induction on its calls. -/
theorem reach_fence : Fence (run calls) (reach calls) :=
  coordinator.run_induction (motive := fun _ steps leases => Fence steps leases) Fence.initial
    (fun _ call fence => fence.step (step_effect fence.sound call)) calls

structure Fenced (steps : List Step) (leases : Leases) : Prop where
  /-- Each leader of a key has a greater generation than every earlier one. -/
  increasing
    : (leaders steps).Pairwise
        (fun earlier later =>
          earlier.key = later.key
          → earlier.fencingGeneration < later.fencingGeneration)
  /-- A generation of a key is published at most once. -/
  once
    : (publications steps).Pairwise
        (fun earlier later =>
          ¬ (earlier.key = later.key ∧ earlier.generation = later.generation))
  /-- Whoever publishes is the last leader of its key, unexpired and unpublished. -/
  current
    : ∀ earlier (step : Step) later made,
        steps = earlier ++ step :: later
        → step.publication = some made
        → ∃ leader ∈ leaders earlier,
            leader.key = made.key
            ∧ leader.ownerToken = made.token
            ∧ leader.fencingGeneration = made.generation
            ∧ made.now < leader.leaseExpiresAtUnixMs
            ∧ (∀ other ∈ leaders earlier, other.key = made.key → other ≠ leader →
                other.fencingGeneration < leader.fencingGeneration)
            ∧ ∀ past ∈ publications earlier,
                ¬ (past.key = made.key ∧ past.generation = made.generation)
  completed
    : ∀ earlier (step : Step) later,
        steps = earlier ++ step :: later
        → step.output = .acquired .alreadyCompleted
        → ∃ made ∈ publications earlier, made.key = step.event.key
  /-- The reader of the store refuses no row. -/
  readable
    : ∀ key row, leases key = some row → ∃ record, checkLease leases key = .ok (some record)
  /-- A leader is active exactly when it could publish. -/
  active
    : ∀ leader ∈ leaders steps, ∀ now,
        activeLease leases leader now = .ok true
        ↔ ∃ after,
            complete leases leader.key leader.ownerToken leader.fencingGeneration now
              = .ok (after, .published)

/-- A publication is of the generation its key has last, which no earlier one published. -/
theorem Fence.unpublished (fence : Fence steps leases) {key : CoordinationKey}
    (known : leases.record key = some record) (unused : record.isCompleted = false)
    {past : Publication} (member : past ∈ publications steps)
    : ¬ (past.key = key ∧ past.generation = record.fencingGeneration) := by
  rintro ⟨sameKey, sameGeneration⟩
  obtain ⟨other, stored, order⟩ := fence.spent past member
  rw [sameKey] at stored
  cases known.symm.trans stored
  rcases order with ⟨_, done⟩ | earlier
  · exact Bool.false_ne_true (unused.symm.trans done)
  · exact Nat.ne_of_lt earlier sameGeneration

/-- A leader other than the holder of its key is of an earlier generation. -/
theorem Fence.superseded (fence : Fence steps leases) {key : CoordinationKey}
    (known : leases.record key = some record) {other : LeaderContext}
    (member : other ∈ leaders steps) (sameKey : other.key = key)
    (different : other ≠ record.leader key)
    : other.fencingGeneration < record.fencingGeneration := by
  obtain ⟨last, stored, order⟩ := fence.latest other member
  rw [sameKey] at stored order
  cases known.symm.trans stored
  exact order.resolve_left different

/-- A leader that is active can publish and no other can, as both read the same record. -/
theorem Fence.active (fence : Fence steps leases) {leader : LeaderContext}
    (member : leader ∈ leaders steps) (now : Nat)
    : activeLease leases leader now = .ok true
      ↔ ∃ after,
          complete leases leader.key leader.ownerToken leader.fencingGeneration now
            = .ok (after, .published) := by
  obtain ⟨record, known, order⟩ := fence.latest leader member
  have active_eq
      : activeLease leases leader now = .ok true
        ↔ record.Publishable leader.ownerToken leader.fencingGeneration now
          ∧ record.expiresAtUnixMs = leader.leaseExpiresAtUnixMs := by
    simp only [activeLease, fence.sound.checkLease_eq, known, ok_bind, pure_eq_ok,
      Option.any_some, Bool.and_eq_true, Bool.not_eq_true', decide_eq_true_eq]
    constructor
    · rintro ⟨⟨⟨⟨⟨unused, owner⟩, generation⟩, expires⟩, started⟩, unexpired⟩
      exact ⟨⟨unused, owner, generation, started, unexpired⟩, expires⟩
    · rintro ⟨⟨unused, owner, generation, started, unexpired⟩, expires⟩
      exact ⟨⟨⟨⟨⟨unused, owner⟩, generation⟩, expires⟩, started⟩, unexpired⟩
  rw [active_eq]
  constructor
  · rintro ⟨publishable, _⟩
    exact ⟨_, complete_eq_published fence.sound known publishable⟩
  · rintro ⟨after, answered⟩
    have effect := complete_effect fence.sound answered
    cases effect with
    | published stored publishable =>
        cases known.symm.trans stored
        refine ⟨publishable, ?_⟩
        rcases order with whole | earlier
        · exact (congrArg LeaderContext.leaseExpiresAtUnixMs whole).symm
        · exact absurd publishable.generation (Nat.ne_of_gt earlier)

/-- A new leader supersedes the earlier ones of its key. -/
theorem Fence.increasing {step : Step} (fence : Fence steps step.before) (effect : StepEffect step)
    {leader earlier : LeaderContext} (made : step.leader = some leader)
    (member : earlier ∈ leaders steps) (same : earlier.key = leader.key)
    : earlier.fencingGeneration < leader.fencingGeneration := by
  cases effect with
  | quiet _ leaderless => cases leaderless.symm.trans made
  | completed _ leaderless => cases leaderless.symm.trans made
  | published _ _ _ leaderless => cases leaderless.symm.trans made
  | leading _ _ newer _ led =>
      cases led.symm.trans made
      obtain ⟨old, known, order⟩ := fence.latest earlier member
      rw [same] at known
      have grown := newer old known
      rcases order with whole | before
      · rw [whole]
        exact grown
      · exact Nat.lt_trans before grown

theorem StepEffect.publishes {step : Step} (effect : StepEffect step) {made : Publication}
    (recorded : step.publication = some made)
    : ∃ record,
        step.before.record made.key = some record
        ∧ record.Publishable made.token made.generation made.now := by
  cases effect with
  | quiet _ _ unpublished => cases unpublished.symm.trans recorded
  | completed _ _ unpublished => cases unpublished.symm.trans recorded
  | leading _ _ _ _ _ unpublished => cases unpublished.symm.trans recorded
  | published known publishable _ _ same =>
      cases same.symm.trans recorded
      exact ⟨_, known, publishable⟩

/-- At most one value has no two to compare. -/
theorem pairwise_toList {α : Type} (relation : α → α → Prop) (value : Option α)
    : value.toList.Pairwise relation := by
  cases value <;> simp

/-- The leaders of a run have increasing generations, by induction on its calls. -/
theorem run_increasing
    : (leaders (run calls)).Pairwise
        (fun earlier later =>
          earlier.key = later.key
          → earlier.fencingGeneration < later.fencingGeneration) := by
  induction calls using List.reverseRecOn with
  | nil => exact .nil
  | append_singleton calls call ih =>
      have fence := reach_fence calls
      rw [run, Machine.history_snoc, leaders_snoc]
      refine List.pairwise_append.mpr ⟨ih, pairwise_toList _ _, ?_⟩
      intro earlier member leader made
      exact fence.increasing (step_effect fence.sound call) (Option.mem_toList.mp made) member

/-- The publications of a run are of different generations, by induction on its calls. -/
theorem run_once
    : (publications (run calls)).Pairwise
        (fun earlier later =>
          ¬ (earlier.key = later.key ∧ earlier.generation = later.generation)) := by
  induction calls using List.reverseRecOn with
  | nil => exact .nil
  | append_singleton calls call ih =>
      have fence := reach_fence calls
      rw [run, Machine.history_snoc, publications_snoc]
      refine List.pairwise_append.mpr ⟨ih, pairwise_toList _ _, ?_⟩
      intro past member made recorded
      obtain ⟨record, known, publishable⟩ :=
        (step_effect fence.sound call).publishes (Option.mem_toList.mp recorded)
      rw [← publishable.generation]
      exact fence.unpublished known publishable.unused member

/-- Every run of the coordinator is fenced. -/
theorem leases_fenced (calls : List Call) : Fenced (run calls) (reach calls) := by
  refine
    {
      increasing := run_increasing calls
      once := run_once calls
      current := ?current
      completed := ?completed
      readable := ?readable
      active := fun leader member now => (reach_fence calls).active member now
    }
  case current =>
    intro earlier step later made split recorded
    obtain ⟨first, call, rest, _, rfl, rfl⟩ := coordinator.history_split split
    have fence := reach_fence first
    obtain ⟨record, known, publishable⟩ :=
      (step_effect fence.sound call).publishes recorded
    refine ⟨record.leader made.key, fence.held made.key record known, rfl, publishable.token,
      publishable.generation, publishable.unexpired, ?_, ?_⟩
    · intro other member sameKey different
      exact fence.superseded known member sameKey different
    · intro past member
      rw [← publishable.generation]
      exact fence.unpublished known publishable.unused member
  case completed =>
    intro earlier step later split answered
    obtain ⟨first, call, rest, _, rfl, rfl⟩ := coordinator.history_split split
    have fence := reach_fence first
    cases step_effect fence.sound call with
    | quiet _ _ _ pending => exact absurd answered pending
    | leading _ _ _ _ _ _ pending => exact absurd answered pending
    | published _ _ _ _ _ pending => exact absurd answered pending
    | completed _ _ _ known done =>
        obtain ⟨made, member, sameKey, _⟩ := fence.flagged _ _ known done
        exact ⟨made, member, sameKey⟩
  case readable =>
    intro key row found
    obtain ⟨record, valid, rfl⟩ := (reach_fence calls).sound key row found
    refine ⟨record, ?_⟩
    simp only [checkLease, found, check_stored valid, ok_bind]
    rfl

end SkillRanker.Coordination
