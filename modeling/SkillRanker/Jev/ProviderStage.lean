import SkillRanker.Allowance.Charges
import SkillRanker.Breaker.Row
import SkillRanker.Jev.SendSessions

/-! One stage with its three ledgers: the circuit, the allowance and the coordinator of attempts,
which are advanced one after another before each attempt.
-/

namespace SkillRanker.Jev

open SkillRanker.Library
open Breaker (Ticket)
open Allowance (AdmitEnv Store AllowanceError)

variable {Failure : Type}

-- Authorization

/-- What the authorization of one attempt meets: the answer of the policy, the row of the circuit,
and the stores of the allowance where one is configured. Other processes change both rows and
stores, so each attempt meets its own.
-/
structure Gate (Failure : Type) where
  policy : Except Failure Unit
  circuit : Breaker.Row
  nowMs : Nat
  leaseMs : Nat
  process : Nat
  counter : Nat
  allowance : Option (AdmitEnv × Store)

/-- Why an attempt is not authorized. -/
inductive StageRefusal (Failure : Type)
  | policy (failure : Failure)
  | cooldown (refusal : Breaker.Refusal)
  | allowance (error : AllowanceError)

structure Authorization (Failure : Type) where
  obtained : Option Ticket
  charged : Bool
  settled : List (Ticket × Breaker.Outcome)
  answer : Except (StageRefusal Failure) Ticket

def Authorization.refused (refusal : StageRefusal Failure) : Authorization Failure :=
  { obtained := none, charged := false, settled := [], answer := .error refusal }

def windowStart (env : AdmitEnv) : Nat :=
  (Allowance.windowBounds (env.now.elim 0 UInt64.toNat)).1

variable (allowance : Option (AdmitEnv × Store)) (origin : CanonicalOrigin) (stage : RankingStage)

def debitAllowance : Bool × Except AllowanceError Unit :=
  match allowance with
  | none => (false, .ok ())
  | some (env, store) =>
      let (after, answer) := Allowance.admitAttempt env store origin stage
      (
        store.total origin (windowStart env) < after.total origin (windowStart env),
        answer.map (fun _ => ())
      )

/-- The callback that authorizes an attempt: the policy first, then the circuit, and the charge
last, so that a refusal of the circuit costs nothing.
-/
def Gate.authorize (gate : Gate Failure) : Authorization Failure :=
  match gate.policy with
  | .error failure => .refused (.policy failure)
  | .ok () =>
      match (gate.circuit.admitRequest gate.nowMs gate.leaseMs gate.process gate.counter).2 with
      | .error refusal => .refused (.cooldown refusal)
      | .ok ticket =>
          let (charged, answer) := debitAllowance gate.allowance origin stage
          match answer with
          | .error error =>
              {
                obtained := some ticket
                charged
                settled := [(ticket, .neutral)]
                answer := .error (.allowance error)
              }
          | .ok () => { obtained := some ticket, charged, settled := [], answer := .ok ticket }

/-- How a settled attempt bears on the health of its endpoint. -/
def breakerOutcome : Option TransportError → Breaker.Outcome
  | none => .success
  | some error =>
      if retryable error.kind then
        .transient
          (match error.retryAfter with
          | .delay duration => some (min (duration / nanosPerMilli) u64Max)
          | _ => none)
      else .neutral

-- The stage

/-- One turn of the sending loop with the gate before it, which decides its authorization. -/
structure Turn (Failure : Type) where
  round : Round
  gate : Gate Failure

namespace Turn

variable (turn : Turn Failure) (session : RetrySession)

def authorization : Option (Authorization Failure) :=
  if (checkWork session.clock turn.round.cancelled turn.round.checkedAt).toBool then
    some (turn.gate.authorize session.origin stage)
  else none

def authorized : Round :=
  { turn.round with authorized := (turn.gate.authorize session.origin stage).answer.toBool }

end Turn

structure TurnLog (Failure : Type) where
  authorization : Option (Authorization Failure)
  notes : List Note

/-- A stage after its turns, with the log of each. -/
structure Provided (Failure : Type) where
  session : RetrySession
  logs : List (TurnLog Failure)
  outcome : Outcome

def provideRounds (call : StageCall) (initialAttempts : Nat)
    : RetrySession → Option TransportError → List (Turn Failure) → Provided Failure
  | session, _, [] => { session, logs := [], outcome := .running }
  | session, lastTransport, turn :: rest =>
      let sending := RetrySession.sendRounds call initialAttempts session lastTransport
        [turn.authorized call.stage session]
      let log := {
        authorization := turn.authorization call.stage session
        notes := sending.notes
      }
      match sending.outcome with
      | .running =>
          let later := provideRounds call initialAttempts sending.session
            (turn.round.result.bind RetrySession.failureOf) rest
          { later with logs := log :: later.logs }
      | outcome => { session := sending.session, logs := [log], outcome }

/-- A stage and the turns that it meets. -/
structure ProviderCall (Failure : Type) where
  call : StageCall
  turns : List (Turn Failure)

def ProviderCall.sent (session : RetrySession) (stage : ProviderCall Failure) : StageCall :=
  { stage.call with rounds := stage.turns.map (·.authorized stage.call.stage session) }

def RetrySession.providerStage (session : RetrySession) (stage : ProviderCall Failure)
    : Provided Failure :=
  if stage.call.stage = .rerank
      ∧ session.wide.any (fun wide => wide.requested ≠ stage.call.request.model) then
    {
      session := session
      logs := []
      outcome := .returned (.error (session.error .modelPairMismatch none))
    }
  else
    provideRounds (stage.sent session) session.admission.receipt.admittedAttempts session none
      stage.turns

-- Accounts

def settlement (ticket : Option Ticket) : Note → Option (Ticket × Breaker.Outcome)
  | .settled failure => ticket.map fun ticket => (ticket, breakerOutcome failure)
  | _ => none

def Note.isAuthorized : Note → Bool
  | .authorized => true
  | _ => false

namespace TurnLog

variable (log : TurnLog Failure)

def obtained : Option Ticket := log.authorization.bind (·.obtained)

def charged : Bool := log.authorization.any (·.charged)

def settled : List (Ticket × Breaker.Outcome) :=
  log.authorization.elim [] fun authorization =>
    authorization.settled ++ log.notes.filterMap (settlement authorization.answer.toOption)

def refusal : Option (StageRefusal Failure) :=
  log.authorization.bind fun authorization =>
    match authorization.answer with
    | .error refusal => some refusal
    | .ok _ => none

def attempts : List String := admittedIds log.notes

/-- The callback let an attempt through that the coordinator refused. -/
def stranded : Bool := log.notes.any Note.isAuthorized && log.attempts.isEmpty

/-- The turn has charged an attempt that was not admitted. -/
def lost : Bool := log.charged && log.attempts.isEmpty

end TurnLog

/-- An allowance is in force: its guard is set up. -/
def Gate.Enforced (gate : Gate Failure) : Prop :=
  ∃ env store guard,
    gate.allowance = some (env, store) ∧ store.readGuard = .ok (some guard)

structure TurnLog.Accounted (gate : Gate Failure) (log : TurnLog Failure) : Prop where
  /-- A ticket is settled once, in its turn, unless the coordinator refused its attempt. -/
  tickets : log.settled.map Prod.fst = if log.stranded then [] else log.obtained.toList
  /-- It is settled with the outcome of its own attempt, or as neutral without one. -/
  own
    : ∀ ticket outcome,
        (ticket, outcome) ∈ log.settled
        → (∃ failure, .settled failure ∈ log.notes ∧ outcome = breakerOutcome failure)
          ∨ log.attempts = [] ∧ outcome = .neutral
  charges : gate.Enforced → log.charged.toNat = log.attempts.length + log.lost.toNat
  /-- The policy and the circuit refuse at no cost. -/
  early
    : ∀ refusal,
        log.refusal = some refusal
        → (∀ error, refusal ≠ .allowance error)
        → log.obtained = none ∧ log.charged = false ∧ log.notes = []

-- The authorization of an attempt

section

variable {env : AdmitEnv} {store : Store} {guard : Allowance.Guard} {origin : CanonicalOrigin}
  {stage : RankingStage} {gate : Gate Failure}

/-- A reservation is the only good end of a check under a guard. -/
theorem reserve_isSome {found : Option Allowance.Reservation}
    (guarded : store.readGuard = .ok (some guard))
    (reserved : Allowance.reserve env store origin = .ok found)
    : ∃ reservation, found = some reservation := by
  simp only [Allowance.reserve, guarded, bind_eq_ok] at reserved
  obtain ⟨_, ⟨⟩, reserved⟩ := reserved
  simp only [bind_eq_ok, ensure_eq_ok] at reserved
  obtain ⟨_, _, _, _, _, ⟨⟩, _, _, reserved⟩ := reserved
  simp only [bind_eq_ok, ensure_eq_ok, require_eq_ok] at reserved
  obtain ⟨_, _, opened, file, _, _, _, _, _, _, _, _, _, _, _, _, _, _, reserved⟩ := reserved
  obtain ⟨accounting, _, rfl⟩ := Allowance.openWriter_false_eq_ok file
  simp only [bind_eq_ok, ensure_eq_ok, pure_eq_ok] at reserved
  obtain ⟨_, _, _, _, _, _, rfl⟩ := reserved
  exact ⟨_, rfl⟩

theorem admitAttempt_guarded (guarded : store.readGuard = .ok (some guard))
    : (Allowance.admitAttempt env store origin stage).2 ≠ .ok .unguarded := by
  intro answered
  unfold Allowance.admitAttempt at answered
  split at answered
  · cases answered
  · rename_i unreserved
    obtain ⟨_, ⟨⟩⟩ := reserve_isSome guarded unreserved
  · split at answered
    · cases answered
    · dsimp only at answered
      split at answered
      · cases answered
      · split at answered
        · cases answered
        · split at answered <;> cases answered

/-- Under a guard, a check that lets the attempt through has charged it. -/
theorem debitAllowance_charged (enforced : gate.Enforced)
    (passed : (debitAllowance gate.allowance origin stage).2 = .ok ())
    : (debitAllowance gate.allowance origin stage).1 = true := by
  obtain ⟨env, store, guard, configured, guarded⟩ := enforced
  rw [configured] at passed ⊢
  simp only [debitAllowance, decide_eq_true_eq] at passed ⊢
  have effect := Allowance.admit_effect env store origin stage
  have guardedly := @admitAttempt_guarded env store guard origin stage guarded
  generalize Allowance.admitAttempt env store origin stage = result
    at passed effect guardedly ⊢
  obtain ⟨after, answer⟩ := result
  cases effect with
  | withheld undebited =>
      cases answer with
      | error error => cases passed
      | ok admission =>
          cases admission with
          | debited debit => exact absurd rfl (undebited debit)
          | unguarded => exact absurd rfl guardedly
  | @charged reservation accounting _ found written =>
      have reserved := Allowance.reserve_reserved found
      obtain ⟨reading, read, now⟩ := reserved.clock
      have here : windowStart env = reservation.windowStart := by
        rw [windowStart, read, Option.elim, ← now, reserved.window]
      have charge := (reserved.charge written).total origin reservation.windowStart
      rw [Allowance.chargedCount, if_neg (by unfold Allowance.pruneHorizon; omega),
        if_pos ⟨rfl, rfl⟩] at charge
      rw [here, charge]
      omega

inductive Authorizes (gate : Gate Failure) : Authorization Failure → Prop
  | refused {refusal} : Authorizes gate (.refused refusal)
  | withheld {ticket charged error}
    : Authorizes gate
        {
          obtained := some ticket
          charged
          settled := [(ticket, .neutral)]
          answer := .error (.allowance error)
        }
  | passed {ticket charged} (due : gate.Enforced → charged = true)
    : Authorizes gate { obtained := some ticket, charged, settled := [], answer := .ok ticket }

theorem authorize_authorizes (gate : Gate Failure) (origin : CanonicalOrigin)
    (stage : RankingStage)
    : Authorizes gate (gate.authorize origin stage) := by
  unfold Gate.authorize
  split
  · exact .refused
  split
  · exact .refused
  dsimp only
  split
  · exact .withheld
  · rename_i passed
    exact .passed fun enforced => debitAllowance_charged enforced passed

end

-- One turn

def reported (notes : List Note) (failure : Option TransportError) (waits : List RetryWait)
    : List Note :=
  notes ++ .settled failure :: waits.map .waited

variable {session : RetrySession} {round : Round} {sending : Sending} {stage : RankingStage}
  {turn : Turn Failure}

theorem Flown.reported {after : RetrySession} {attemptId : String} {notes : List Note}
    (flown : Flown session after attemptId notes) (failure : Option TransportError)
    (waits : List RetryWait) (ticket : Ticket)
    : admittedIds (reported notes failure waits) = [attemptId]
      ∧ (reported notes failure waits).filterMap (settlement (some ticket))
        = [(ticket, breakerOutcome failure)] := by
  have ids := flown.ids.1
  obtain ⟨trace, wire, _, _, rfl, reached⟩ := flown.finished
  have unsettled : wire.filterMap (settlement (some ticket)) = [] :=
    List.filterMap_eq_nil_iff.mpr fun note member => by rw [reached note member]; rfl
  constructor
  · rw [Jev.reported, admittedIds_append, ids]
    simp [admittedIds]
  · simp [Jev.reported, List.filterMap_cons, unsettled, settlement]

/-- The work goes on and the round is authorized. -/
def Entered (session : RetrySession) (round : Round) : Prop :=
  (checkWork session.clock round.cancelled round.checkedAt).toBool ∧ round.authorized

inductive TurnSends (session : RetrySession) (round : Round) (sending : Sending) : Prop
  | stopped (closed : ¬ Entered session round) (silent : sending.notes = [])
    (ended : sending.outcome ≠ .running)
  | refused (entered : Entered session round) (only : sending.notes = [.authorized])
    (ended : sending.outcome ≠ .running)
  | dropped (lost : sending.outcome = .dropped)
  | flown {after attemptId notes} (entered : Entered session round)
    (flown : Flown session after attemptId notes)
    (noted : ∃ failure waits, sending.notes = reported notes failure waits)
    (kept : sending.outcome = .running → sending.session = after)

theorem sendRounds_turn (call : StageCall) (initialAttempts : Nat)
    (sound : session.admission.Sound) (lastTransport : Option TransportError) (round : Round)
    : TurnSends session round
        (RetrySession.sendRounds call initialAttempts session lastTransport [round]) := by
  rw [RetrySession.sendRounds]
  split
  · rename_i stopped
    exact .stopped (fun entered => by rw [Entered, stopped] at entered; cases entered.1) rfl
      Outcome.noConfusion
  rename_i working
  split
  · rename_i unauthorized
    exact .stopped (fun entered => unauthorized entered.2) rfl Outcome.noConfusion
  rename_i authorized
  have entered : Entered session round := ⟨by rw [working]; rfl, by simpa using authorized⟩
  split
  · exact .refused entered rfl Outcome.noConfusion
  rename_i admission permit admitted
  have airborne := (airborne_of_admitAttempt sound admitted).starts round.starts
  split
  · exact .dropped rfl
  rename_i result _
  have flown := flown_of_landed admitted
    (airborne.finish (RetrySession.usageOf result) (RetrySession.failureOf result)
      round.settledAt)
  dsimp only
  split
  · exact .flown entered flown ⟨_, [], rfl⟩ Outcome.noConfusion
  · exact .flown entered flown ⟨_, [], rfl⟩ Outcome.noConfusion
  · split
    · exact .flown entered flown ⟨_, [], rfl⟩ Outcome.noConfusion
    · exact .dropped rfl
    · rename_i wait _
      exact .flown entered flown ⟨_, [wait], by simp [RetrySession.sendRounds]; rfl⟩
        fun _ => rfl

theorem TurnSends.goesOn (sends : TurnSends session round sending)
    (running : sending.outcome = .running)
    : ∃ attemptId notes, Flown session sending.session attemptId notes := by
  cases sends with
  | stopped _ _ ended => exact absurd running ended
  | refused _ _ ended => exact absurd running ended
  | dropped lost => cases running.symm.trans lost
  | flown _ flown _ kept =>
      obtain rfl := kept running
      exact ⟨_, _, flown⟩

/-- A turn that is not dropped keeps its accounts, and loses no charge where the stage goes on. -/
theorem turn_accounted (sends : TurnSends session (turn.authorized stage session) sending)
    (undropped : sending.outcome ≠ .dropped)
    : (TurnLog.mk (turn.authorization stage session) sending.notes).Accounted turn.gate
      ∧ (sending.outcome = .running
        → (TurnLog.mk (turn.authorization stage session) sending.notes).lost = false) := by
  have authorizes := authorize_authorizes turn.gate session.origin stage
  cases sends with
  | dropped lost => exact absurd lost undropped
  | stopped closed silent ended =>
      refine ⟨?_, fun running => absurd running ended⟩
      rw [silent]
      unfold Entered Turn.authorized at closed
      unfold Turn.authorization
      generalize turn.gate.authorize session.origin stage = answer at *
      split
      · rename_i working
        cases authorizes with
        | refused => exact ⟨rfl, nofun, fun _ => rfl, fun _ _ _ => ⟨rfl, rfl, rfl⟩⟩
        | @withheld ticket charged error =>
            refine ⟨rfl, fun other outcome member => .inr ⟨rfl, ?_⟩, fun _ => ?_, ?_⟩
            · simp_all [TurnLog.settled]
            · cases charged <;> rfl
            · rintro _ ⟨⟩ other
              exact absurd rfl (other error)
        | passed => exact absurd ⟨working, rfl⟩ closed
      · exact ⟨rfl, nofun, fun _ => rfl, nofun⟩
  | refused entered only ended =>
      refine ⟨?_, fun running => absurd running ended⟩
      rw [only]
      unfold Entered Turn.authorized at entered
      unfold Turn.authorization
      rw [if_pos entered.1]
      generalize turn.gate.authorize session.origin stage = answer at *
      cases authorizes with
      | refused => cases entered.2
      | withheld => cases entered.2
      | @passed ticket charged due =>
          exact ⟨rfl, nofun, fun _ => by cases charged <;> rfl, nofun⟩
  | @flown _ attemptId _ entered flown noted _ =>
      obtain ⟨failure, waits, noted⟩ := noted
      rw [noted]
      unfold Entered Turn.authorized at entered
      unfold Turn.authorization
      rw [if_pos entered.1]
      generalize turn.gate.authorize session.origin stage = answer at *
      cases authorizes with
      | refused => cases entered.2
      | withheld => cases entered.2
      | @passed ticket charged due =>
          obtain ⟨admits, settles⟩ := flown.reported failure waits ticket
          generalize told : (TurnLog.mk (some _) (reported _ failure waits) : TurnLog Failure) = log
          have own : log.settled = [(ticket, breakerOutcome failure)] := told ▸ settles
          have sent : log.attempts = [attemptId] := told ▸ admits
          have kept : log.lost = false := by rw [TurnLog.lost, sent]; exact Bool.and_false _
          have unstranded : log.stranded = false := by
            rw [TurnLog.stranded, sent]
            exact Bool.and_false _
          refine ⟨⟨?_, fun other outcome member => .inl ⟨failure, ?_, ?_⟩, fun held => ?_, ?_⟩,
            fun _ => kept⟩
          · rw [own, unstranded, ← told]
            rfl
          · simp [← told, reported]
          · simp_all
          · rw [kept, sent, ← told]
            simp [TurnLog.charged, due held]
          · simp [← told, TurnLog.refusal]

-- A stage

/-- The accounts of a whole stage: those of its turns, and at most one charge that is lost. -/
structure StageAccounts (turns : List (Turn Failure)) (logs : List (TurnLog Failure)) : Prop where
  each : ∀ log ∈ logs, ∃ turn ∈ turns, log.Accounted turn.gate
  lost : logs.countP TurnLog.lost ≤ 1

variable (call : StageCall) (initialAttempts : Nat)

section

variable (sound : session.admission.Sound)
include sound

/-- The accounts of the turns of a stage, by induction on them. -/
theorem provideRounds_accounts (lastTransport : Option TransportError) (turns : List (Turn Failure))
    (undropped
      : (provideRounds call initialAttempts session lastTransport turns).outcome ≠ .dropped)
    : StageAccounts turns
        (provideRounds call initialAttempts session lastTransport turns).logs := by
  induction turns generalizing session lastTransport with
  | nil => exact ⟨nofun, Nat.zero_le 1⟩
  | cons turn rest ih =>
      have sends := sendRounds_turn call initialAttempts sound lastTransport
        (turn.authorized call.stage session)
      rw [provideRounds] at undropped ⊢
      dsimp only at undropped ⊢
      generalize RetrySession.sendRounds call initialAttempts session lastTransport
        [turn.authorized call.stage session] = sending at sends undropped ⊢
      cases ended : sending.outcome with
      | dropped =>
          simp only [ended] at undropped
          exact absurd rfl undropped
      | returned result =>
          obtain ⟨accounted, _⟩ :=
            turn_accounted sends (by rw [ended]; exact Outcome.noConfusion)
          refine ⟨?_, List.countP_le_length⟩
          intro log member
          rw [List.mem_singleton.mp member]
          exact ⟨turn, List.mem_cons_self, accounted⟩
      | running =>
          simp only [ended] at undropped ⊢
          obtain ⟨accounted, kept⟩ :=
            turn_accounted sends (by rw [ended]; exact Outcome.noConfusion)
          obtain ⟨_, _, flown⟩ := sends.goesOn ended
          have later := ih flown.sound _ undropped
          refine ⟨?_, ?_⟩
          · intro log member
            rcases List.mem_cons.mp member with rfl | member
            · exact ⟨turn, List.mem_cons_self, accounted⟩
            · obtain ⟨other, mem, accounted⟩ := later.each log member
              exact ⟨other, List.mem_cons_of_mem _ mem, accounted⟩
          · rw [List.countP_cons_of_neg (by rw [kept ended]; exact Bool.false_ne_true)]
            exact later.lost

omit sound in
/-- The turns of a loop are those of its first turn, and then those of the rest. -/
theorem sendRounds_cons (session : RetrySession) (lastTransport : Option TransportError)
    (round : Round) (rest : List Round)
    : RetrySession.sendRounds call initialAttempts session lastTransport (round :: rest)
      = (
        let first := RetrySession.sendRounds call initialAttempts session lastTransport [round]
        match first.outcome with
        | .running =>
            let later := RetrySession.sendRounds call initialAttempts first.session
              (round.result.bind RetrySession.failureOf) rest
            { later with notes := first.notes ++ later.notes }
        | _ => first
      ) := by
  rw [RetrySession.sendRounds, RetrySession.sendRounds]
  split
  · rfl
  split
  · rfl
  split
  · rfl
  split
  · rfl
  dsimp only
  split
  · rfl
  · rfl
  split
  · rfl
  · rfl
  rename_i answered _ _ _ _
  simp [RetrySession.sendRounds, answered, RetrySession.failureOf]

def notesOf (logs : List (TurnLog Failure)) : List Note := logs.flatMap (·.notes)

/-- Provided turns are sent rounds that their gates authorized, by induction on them. -/
theorem provideRounds_sends (lastTransport : Option TransportError) (turns : List (Turn Failure))
    : let sending := RetrySession.sendRounds call initialAttempts session lastTransport
        (turns.map (·.authorized call.stage session))
      let provided := provideRounds call initialAttempts session lastTransport turns
      provided.session = sending.session
        ∧ provided.outcome = sending.outcome
        ∧ notesOf provided.logs = sending.notes := by
  induction turns generalizing session lastTransport with
  | nil => exact ⟨rfl, rfl, rfl⟩
  | cons turn rest ih =>
      have sends := sendRounds_turn call initialAttempts sound lastTransport
        (turn.authorized call.stage session)
      rw [List.map_cons, sendRounds_cons, provideRounds]
      dsimp only
      generalize RetrySession.sendRounds call initialAttempts session lastTransport
        [turn.authorized call.stage session] = sending at sends ⊢
      cases ended : sending.outcome with
      | dropped => exact ⟨rfl, ended.symm, List.append_nil _⟩
      | returned result => exact ⟨rfl, ended.symm, List.append_nil _⟩
      | running =>
          obtain ⟨_, _, flown⟩ := sends.goesOn ended
          have same : rest.map (·.authorized call.stage session)
              = rest.map (·.authorized call.stage sending.session) := by
            unfold Turn.authorized
            rw [flown.same]
          rw [same]
          obtain ⟨sameSession, sameOutcome, notes⟩ := ih flown.sound
            (turn.round.result.bind RetrySession.failureOf)
          refine ⟨sameSession, sameOutcome, ?_⟩
          rw [notesOf, List.flatMap_cons]
          exact congrArg _ notes

-- Runs of stages

def providers : Machine RetrySession (ProviderCall Failure) (Provided Failure) where
  next session stage :=
    let provided := session.providerStage stage
    (provided.session, provided)

abbrev ProviderStep (Failure : Type) :=
  Transition RetrySession (ProviderCall Failure) (Provided Failure)

def runLogs (steps : List (ProviderStep Failure)) : List (TurnLog Failure) :=
  steps.flatMap (·.output.logs)

/-- A provided stage is a sent one, from the same session to the same. -/
structure SentAs (step : ProviderStep Failure) (sent : SendStep) : Prop where
  before : sent.before = step.before
  event : sent.event = step.event.sent step.before
  after : sent.after = step.after
  outcome : sent.output.outcome = step.output.outcome
  notes : sent.output.notes = notesOf step.output.logs

/-- A provided stage sends what its gates authorize. -/
theorem sentAs (stage : ProviderCall Failure)
    : SentAs (providers.transition session stage)
        (sessions.transition session (stage.sent session)) := by
  have same : (session.providerStage stage).session
        = (session.sendStage (stage.sent session)).session
      ∧ (session.providerStage stage).outcome
        = (session.sendStage (stage.sent session)).outcome
      ∧ notesOf (session.providerStage stage).logs
        = (session.sendStage (stage.sent session)).notes := by
    unfold RetrySession.providerStage RetrySession.sendStage
    rw [ProviderCall.sent]
    dsimp only
    split
    · exact ⟨rfl, rfl, rfl⟩
    · exact provideRounds_sends (stage.sent session) _ sound none stage.turns
  exact ⟨rfl, rfl, same.1.symm, same.2.1.symm, same.2.2.symm⟩

theorem providers_sent (stages : List (ProviderCall Failure))
    : ∃ calls,
        providers.final session stages = sessions.final session calls
        ∧ List.Forall₂ SentAs (providers.history session stages)
            (sessions.history session calls) := by
  have step (reached : RetrySession) (stage : ProviderCall Failure)
      (sound : reached.admission.Sound)
      : (providers.next reached stage).1.admission.Sound
        ∧ (sessions.next reached (stage.sent reached)).1 = (providers.next reached stage).1
        ∧ SentAs (providers.transition reached stage)
            (sessions.transition reached (stage.sent reached)) := by
    have sent := sentAs sound stage
    refine ⟨?_, sent.after, sent⟩
    have kept := ((sendStage_sends sound (stage.sent reached)).ledger sound).1
    rwa [show (reached.sendStage (stage.sent reached)).session = _ from sent.after] at kept
  exact providers.exists_run sessions step sound stages

/-- The accounts of a run: those of each stage, and its charges, which pay for no more than the
attempts that the budget allows and one more for each stage.
-/
structure ProviderAccounts (budget : AttemptBudget) (steps : List (ProviderStep Failure))
    : Prop where
  each : ∀ step ∈ steps, StageAccounts step.event.turns step.output.logs
  attempts
    : (admittedIds (notesOf (runLogs steps))).Nodup
      ∧ (admittedIds (notesOf (runLogs steps))).length ≤ budget.maxHttpAttempts.toNat
  charges
    : (∀ step ∈ steps, ∀ turn ∈ step.event.turns, turn.gate.Enforced)
      → (runLogs steps).countP TurnLog.charged
        = (admittedIds (notesOf (runLogs steps))).length + (runLogs steps).countP TurnLog.lost
  lost : (runLogs steps).countP TurnLog.lost ≤ steps.length

omit sound in
theorem runNotes_of_sent {steps : List (ProviderStep Failure)} {sends : List SendStep}
    (sent : List.Forall₂ SentAs steps sends)
    : runNotes sends = notesOf (runLogs steps) := by
  induction sent with
  | nil => rfl
  | cons first later ih =>
      simp only [runNotes, runLogs, notesOf, List.flatMap_cons, List.flatMap_append] at ih ⊢
      rw [first.notes, ih]
      rfl

omit sound in
/-- Charges pay for attempts or are lost, over all turns. -/
theorem countP_charged {logs : List (TurnLog Failure)}
    (each : ∀ log ∈ logs, log.charged.toNat = log.attempts.length + log.lost.toNat)
    : logs.countP TurnLog.charged
      = (admittedIds (notesOf logs)).length + logs.countP TurnLog.lost := by
  induction logs with
  | nil => rfl
  | cons log rest ih =>
      have one := each log List.mem_cons_self
      have more := ih fun other member => each other (List.mem_cons_of_mem _ member)
      rw [notesOf, List.flatMap_cons, admittedIds_append, List.length_append, List.countP_cons,
        List.countP_cons]
      simp only [notesOf, TurnLog.attempts] at one more
      cases charged : log.charged <;> cases lost : log.lost <;>
        simp only [charged, lost, Bool.toNat_true, Bool.toNat_false, reduceIte,
          Bool.false_eq_true] at one ⊢ <;> omega

theorem stage_accounts (stage : ProviderCall Failure)
    (completes : ∀ turn ∈ stage.turns, turn.round.Completes session.clock)
    : StageAccounts stage.turns (session.providerStage stage).logs := by
  have undropped : (session.providerStage stage).outcome ≠ .dropped := by
    intro dropped
    have sent := (sentAs sound stage).outcome.trans dropped
    obtain ⟨round, member, stuck⟩ := (sendStage_sends sound (stage.sent session)).dropped sent
    obtain ⟨turn, mem, rfl⟩ := List.mem_map.mp member
    obtain ⟨answered, woken⟩ := completes turn mem
    exact stuck ⟨answered, woken⟩
  unfold RetrySession.providerStage at undropped ⊢
  split
  · exact ⟨nofun, Nat.zero_le 1⟩
  · rename_i paired
    rw [if_neg paired] at undropped
    exact provideRounds_accounts (stage.sent session) _ sound none stage.turns undropped

end

variable (clock : InvocationDeadline) (budget : AttemptBudget) (invocationId : String) (owner : Nat)

/-- Every run of provided stages is a run of the sending stage. -/
theorem provider_simulates (origin : Option CanonicalOrigin)
    (created : RetrySession.new origin clock budget invocationId owner = .ok session)
    (stages : List (ProviderCall Failure))
    : ∃ calls,
        providers.final session stages = sessions.final session calls
        ∧ List.Forall₂ SentAs (providers.history session stages)
            (sessions.history session calls) :=
  providers_sent (Kept.new created).sound stages

/-- Every run of a session whose rounds complete keeps the accounts of its charges, its tickets and
its attempts, whatever the transport answers and the clocks, the circuit and the allowance show.
-/
theorem provider_accounts (origin : Option CanonicalOrigin)
    (created : RetrySession.new origin clock budget invocationId owner = .ok session)
    (stages : List (ProviderCall Failure))
    (completes : ∀ stage ∈ stages, ∀ turn ∈ stage.turns, turn.round.Completes clock)
    : ProviderAccounts budget (providers.history session stages) := by
  have start := Kept.new created
  obtain ⟨calls, _, sent⟩ := providers_sent start.sound stages
  have kept := run_kept start calls
  obtain ⟨fresh, zero, ledger⟩ := kept.ledger
  have attempts := kept.sound.attempts
  rw [ledger.count, zero, kept.budget] at attempts
  have each
      : ∀ step ∈ providers.history session stages,
          StageAccounts step.event.turns step.output.logs := by
    intro step member
    obtain ⟨first, stage, later, rfl, rfl⟩ := providers.mem_history member
    obtain ⟨calls, same, _⟩ := providers_sent start.sound first
    have reached := run_kept start calls
    refine stage_accounts (same ▸ reached.sound) stage fun turn mem => ?_
    rw [same, reached.clock]
    exact completes stage (List.mem_append_right _ List.mem_cons_self) turn mem
  refine ⟨each, ⟨?_, ?_⟩, fun enforced => countP_charged fun log member => ?_, ?_⟩
  · rw [← runNotes_of_sent sent]
    exact ledger.nodup
  · rw [← runNotes_of_sent sent]
    omega
  · obtain ⟨step, taken, listed⟩ := List.mem_flatMap.mp member
    obtain ⟨turn, mem, accounted⟩ := (each step taken).each log listed
    exact accounted.charges (enforced step taken turn mem)
  · rw [runLogs, List.countP_flatMap]
    refine (List.sum_le_card_nsmul _ 1 ?_).trans (by simp)
    intro count listed
    obtain ⟨step, taken, rfl⟩ := List.mem_map.mp listed
    exact (each step taken).lost

def allowing : Gate Unit :=
  {
    policy := .ok ()
    circuit := .default
    nowMs := 1
    leaseMs := 1
    process := 0
    counter := 0
    allowance := some (.quiet 1 "a", Allowance.reach [.setup .quiet 10 none])
  }

/-- The rounds of a put-off call under an allowance, which wait as long as they have to. -/
def putOffStage : ProviderCall Unit where
  call := putOff
  turns :=
    putOff.rounds.map fun round =>
      ⟨{ round with polls := [{ cancelled := false, now := 1020, instant := 10 ^ 12 }] }, allowing⟩

theorem provider_simulates_put_off
    : ∃ session,
        RetrySession.new none .default .defaultInvocation "inv" 0 = .ok session
        ∧ ∃ calls,
            providers.final session [putOffStage] = sessions.final session calls
            ∧ List.Forall₂ SentAs (providers.history session [putOffStage])
                (sessions.history session calls) :=
  ⟨_, rfl, provider_simulates .default .defaultInvocation "inv" 0 none rfl _⟩

theorem provider_accounts_put_off
    : ∃ session,
        RetrySession.new none .default .defaultInvocation "inv" 0 = .ok session
        ∧ ProviderAccounts .defaultInvocation (providers.history session [putOffStage]) := by
  refine ⟨_, rfl, provider_accounts .default .defaultInvocation "inv" 0 none rfl _ ?_⟩
  intro stage listed turn mem
  rw [List.mem_singleton.mp listed] at mem
  obtain ⟨round, taken, rfl⟩ := List.mem_map.mp mem
  clear mem
  refine ⟨?_, _, List.mem_singleton_self _, ?_⟩
  · revert round
    decide +kernel
  · revert round
    decide +kernel

end SkillRanker.Jev
