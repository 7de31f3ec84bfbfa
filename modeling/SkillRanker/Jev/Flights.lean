import SkillRanker.Jev.AttemptAccounts
import SkillRanker.Jev.SendStage

/-! Every admitted attempt is finalized exactly once by its flight, whatever the transport
does with it.
-/

namespace SkillRanker.Jev

open SkillRanker.Library
open Std

variable {before after : AttemptAdmission} {trace : AttemptTrace}

/-- One attempt has moved to a new trace, and nothing else of the coordinator that its users
rely on.
-/
structure AttemptAdmission.Moved (before after : AttemptAdmission) (attemptId : String)
    (trace : AttemptTrace) : Prop where
  written : after.issuedAttemptIds = before.issuedAttemptIds.insert attemptId trace
  owner : after.owner = before.owner
  budget : after.budget = before.budget
  admitted : after.receipt.admittedAttempts = before.receipt.admittedAttempts

namespace AttemptAdmission

variable {admission : AttemptAdmission}
variable {attemptId : String}

theorem Moved.known (moved : before.Moved after attemptId trace)
    : after.issuedAttemptIds[attemptId]? = some trace := by
  rw [moved.written]
  exact TreeMap.getElem?_insert_self

theorem Moved.others {other : String} (moved : before.Moved after attemptId trace)
    (differs : other ≠ attemptId)
    : after.issuedAttemptIds[other]? = before.issuedAttemptIds[other]? := by
  rw [moved.written]
  exact getElem_insert_ne differs

theorem isActive_of_known {owner : Nat} {state : AttemptState} (same : owner = admission.owner)
    (known : admission.issuedAttemptIds[attemptId]? = some trace) (inState : trace.state = state)
    : admission.isActive owner attemptId state = true := by
  simp [isActive, attemptState, same, known, inState]

theorem recordSent_moved (sent : SentAttempt) (now : Nat) (owner : sent.owner = admission.owner)
    (known : admission.issuedAttemptIds[sent.attemptId]? = some trace)
    (state : trace.state = .admitted)
    : (admission.recordSent sent now).2 = .ok ()
      ∧ admission.Moved (admission.recordSent sent now).1 sent.attemptId (trace.send now) := by
  have active := isActive_of_known owner known state
  simp only [recordSent, active, if_true, settle, known]
  exact ⟨trivial, rfl, rfl, rfl, rfl⟩

theorem recordTerminalFailure_moved {sent : SentAttempt} (failure : AttemptFailure) (now : Nat)
    (owner : sent.owner = admission.owner)
    (known : admission.issuedAttemptIds[sent.attemptId]? = some trace) (state : trace.state = .sent)
    : (admission.recordTerminalFailure sent failure now).2 = .ok ()
      ∧ admission.Moved (admission.recordTerminalFailure sent failure now).1 sent.attemptId
          (trace.fail now failure) := by
  have active := isActive_of_known owner known state
  simp only [recordTerminalFailure, active, if_true, settle, known]
  exact ⟨trivial, rfl, rfl, rfl, rfl⟩

theorem recordDiscard_moved (discarded : DiscardedAttempt) (now : Nat)
    (owner : discarded.owner = admission.owner)
    (known : admission.issuedAttemptIds[discarded.attemptId]? = some trace)
    (state : trace.state = .admitted)
    : admission.Moved (admission.recordDiscard discarded now).1 discarded.attemptId
        (trace.discard now) := by
  have active := isActive_of_known owner known state
  simp only [recordDiscard, active, if_true, settle, known]
  exact ⟨rfl, rfl, rfl, rfl⟩

/-- The report of a response completes its attempt, or fails it where the counters cannot
hold its usage.
-/
theorem recordResponse_moved {sent : SentAttempt} (usage : Usage) (now : Nat)
    (owner : sent.owner = admission.owner)
    (known : admission.issuedAttemptIds[sent.attemptId]? = some trace) (state : trace.state = .sent)
    : admission.Moved (admission.recordResponse sent usage now).1 sent.attemptId
        (trace.complete now usage)
      ∨ admission.Moved (admission.recordResponse sent usage now).1 sent.attemptId
          (trace.fail now (.local "usage-counter-overflow")) := by
  have active := isActive_of_known owner known state
  by_cases fits : (admission.usageTotal usage).isNone
  · obtain ⟨answered, moved⟩ :=
      recordTerminalFailure_moved (.local "usage-counter-overflow") now owner known state
    refine .inr ?_
    simp only [recordResponse, active, fits, if_true]
    generalize admission.recordTerminalFailure sent (.local "usage-counter-overflow") now
      = result at answered moved
    obtain ⟨failed, answer⟩ := result
    cases answered
    exact moved
  · refine .inl ?_
    simp only [recordResponse, active, if_true, fits, settle, known]
    exact ⟨rfl, rfl, rfl, rfl⟩

end AttemptAdmission

/-- What a flight leaves alone: everything of the coordinator but its own attempt. -/
structure Frame (base : AttemptAdmission) (attemptId : String) (admission : AttemptAdmission)
    : Prop where
  sound : admission.Sound
  owner : admission.owner = base.owner
  budget : admission.budget = base.budget
  admitted : admission.receipt.admittedAttempts = base.receipt.admittedAttempts
  others
    : ∀ other,
        other ≠ attemptId
        → admission.issuedAttemptIds[other]? = base.issuedAttemptIds[other]?

theorem Frame.moved {base : AttemptAdmission} {attemptId : String}
    (frame : Frame base attemptId before) (moved : before.Moved after attemptId trace)
    (sound : after.Sound)
    : Frame base attemptId after := by
  refine ⟨sound, moved.owner.trans frame.owner, moved.budget.trans frame.budget,
    moved.admitted.trans frame.admitted, ?_⟩
  intro other differs
  exact (moved.others differs).trans (frame.others other differs)

namespace AttemptFlight

inductive Holding (flight : AttemptFlight) (attemptId : String) : Prop
  | permitted {permit : AttemptPermit} {trace : AttemptTrace}
    (held : flight.permit = some permit) (unsent : flight.sent = none)
    (unconsumed : permit.consumed = false) (owner : permit.owner = flight.admission.owner)
    (named : permit.attemptId = attemptId)
    (known : flight.admission.issuedAttemptIds[attemptId]? = some trace)
    (state : trace.state = .admitted) (stage : trace.provenance.stage = permit.stage)
  | sent {sent : SentAttempt} {trace : AttemptTrace}
    (taken : flight.permit = none) (held : flight.sent = some sent)
    (owner : sent.owner = flight.admission.owner) (named : sent.attemptId = attemptId)
    (known : flight.admission.issuedAttemptIds[attemptId]? = some trace)
    (state : trace.state = .sent) (stage : trace.provenance.stage = sent.stage)

/-- A flight in the air: its attempt is unfinished and noted as far as it got. -/
structure Airborne (base : AttemptAdmission) (notes : List Note) (attemptId : String)
    (flight : AttemptFlight) : Prop where
  frame : Frame base attemptId flight.admission
  holding : flight.Holding attemptId
  noted
    : ∃ wire,
        flight.notes = notes ++ wire ∧ ∀ note ∈ wire, note = .reachedWire attemptId

structure Landed (base : AttemptAdmission) (notes : List Note) (attemptId : String)
    (flight : AttemptFlight) : Prop where
  frame : Frame base attemptId flight.admission
  finished
    : ∃ trace wire,
        flight.admission.issuedAttemptIds[attemptId]? = some trace
        ∧ trace.state = .finished
        ∧ flight.notes = notes ++ wire ++ [.finalized attemptId trace.provenance.outcome]
        ∧ ∀ note ∈ wire, note = .reachedWire attemptId

variable {base : AttemptAdmission} {notes : List Note} {attemptId : String}
  {flight : AttemptFlight}

section

variable (airborne : Airborne base notes attemptId flight)
include airborne

/-- The callback of the transport sends the attempt once, and does nothing after that. -/
theorem Airborne.start (now : Nat)
    : Airborne base notes attemptId (flight.start now).1 := by
  cases airborne.holding with
  | sent taken _ _ _ _ _ _ =>
      simpa only [AttemptFlight.start, taken] using airborne
  | @permitted permit trace held unsent unconsumed owner named known state stage =>
      subst named
      let sent : SentAttempt :=
        {
          owner := permit.owner
          attemptId := permit.attemptId
          stage := permit.stage
          sentAt := permit.admittedAt
        }
      have marked : permit.markSent = .ok sent := by
        rw [AttemptPermit.markSent, unconsumed]
        rfl
      have moved := AttemptAdmission.recordSent_moved sent now owner known state
      have effect := flight.admission.recordSent_effect sent now
      obtain ⟨wire, noted, reached⟩ := airborne.noted
      simp only [AttemptFlight.start, held, marked]
      generalize flight.admission.recordSent sent now = result at moved effect
      obtain ⟨admission, answer⟩ := result
      obtain ⟨answered, moved⟩ := moved
      cases answered
      refine ⟨airborne.frame.moved moved (effect.sound airborne.frame.sound), ?_, ?_⟩
      · exact .sent rfl rfl (owner.trans moved.owner.symm) rfl moved.known rfl stage
      · refine ⟨wire ++ [.reachedWire permit.attemptId], ?_, ?_⟩
        · rw [noted, List.append_assoc]
        · intro note member
          rcases List.mem_append.mp member with earlier | last
          · exact reached note earlier
          · exact List.mem_singleton.mp last

/-- However often the transport reports its start, the flight stays in the air, by induction
on the reports.
-/
theorem Airborne.starts (starts : List Nat)
    : Airborne base notes attemptId
        (starts.foldl (fun flight now => (flight.start now).1) flight) := by
  induction starts generalizing flight with
  | nil => exact airborne
  | cons now rest ih => exact ih (airborne.start now)

/-- An unfinished attempt that moves to its end is noted once. -/
theorem Airborne.recorded (before : AttemptFlight) (same : before.admission = flight.admission)
    (kept : before.notes = flight.notes) {result : AttemptAdmission × Except AdmissionError Unit}
    (effect : flight.admission.Effect result.1)
    (moved : flight.admission.Moved result.1 attemptId trace) (finished : trace.state = .finished)
    : Landed base notes attemptId (before.recorded attemptId result).1 := by
  have unfinished : flight.admission.attemptState attemptId ≠ some .finished := by
    cases airborne.holding with
    | permitted _ _ _ _ _ known state => simp [AttemptAdmission.attemptState, known, state]
    | sent _ _ _ _ known state => simp [AttemptAdmission.attemptState, known, state]
  have noted
      : finalNotes before.admission result.1 attemptId
        = [.finalized attemptId trace.provenance.outcome] := by
    rw [same]
    simp [finalNotes, moved.known, finished, unfinished]
  obtain ⟨wire, eq, reached⟩ := airborne.noted
  refine ⟨airborne.frame.moved moved (effect.sound airborne.frame.sound), trace, wire,
    moved.known, finished, ?_, reached⟩
  rw [AttemptFlight.recorded, noted, kept, eq]

/-- Finishing a flight lands it, whatever came back. -/
theorem Airborne.finish (usage : Option Usage) (error : Option TransportError) (now : Nat)
    : Landed base notes attemptId (flight.finish usage error now).1 := by
  cases airborne.holding with
  | @permitted permit trace held unsent unconsumed owner named known state stage =>
      subst named
      simp only [AttemptFlight.finish, unsent, held]
      have moved := AttemptAdmission.recordDiscard_moved
        (permit.discardBeforeSend "local refusal before HTTP") now owner known state
      exact airborne.recorded { flight with permit := none, sent := none } rfl rfl
        (flight.admission.recordDiscard_effect _ now) moved rfl
  | @sent sent trace taken held owner named known state stage =>
      subst named
      cases usage with
      | none =>
          simp only [AttemptFlight.finish, held]
          have moved := (AttemptAdmission.recordTerminalFailure_moved (attemptFailure error) now
            owner known state).2
          exact airborne.recorded { flight with sent := none } rfl rfl
            (flight.admission.recordTerminalFailure_effect sent _ now) moved rfl
      | some usage =>
          simp only [AttemptFlight.finish, held]
          have matching (_ : sent.owner = flight.admission.owner) (other : AttemptTrace)
              (found : flight.admission.issuedAttemptIds[sent.attemptId]? = some other)
              : other.provenance.stage = sent.stage := by
            cases known.symm.trans found
            exact stage
          have effect := flight.admission.recordResponse_effect sent usage now matching
          rcases AttemptAdmission.recordResponse_moved usage now owner known state
            with completed | failed
          · exact airborne.recorded { flight with sent := none } rfl rfl effect completed rfl
          · exact airborne.recorded { flight with sent := none } rfl rfl effect failed rfl

end

end AttemptFlight

end SkillRanker.Jev
