import SkillRanker.Jev.Codec

/-! Sending one stage: when a failed attempt may be retried, and how attempts are made. -/

namespace SkillRanker.Jev

open SkillRanker.Library

def nanosPerMilli : Nat := 1000000

/-- `Duration::MAX`. -/
def durationMax : Nat := u64Max * 1000000000 + 999999999

/-- `Duration::from_millis`. -/
def fromMillis (millis : Nat) : Nat := millis * nanosPerMilli

/-- `Duration::checked_add`. -/
def checkedAddDuration (left right : Nat) : Option Nat :=
  if left + right ≤ durationMax then some (left + right) else none

inductive RetryAfter
  | absent
  | delay (duration : Nat)
  | invalid
deriving DecidableEq, Repr

inductive ProviderAdmissionRefusal
  | offline
  | dryRun
  | networkNotAuthorized
  | missingCredential
deriving DecidableEq, Repr

inductive TransportErrorKind
  | invalidConfiguration
  | admission (refusal : ProviderAdmissionRefusal)
  | credentialOriginMismatch
  | request (error : CodecError)
  | response (error : CodecError)
  | cancelled
  | deadline
  | dns
  | connect
  | transientIo
  | tls
  | protocol
  | bodyTooLarge
  | unsupportedEncoding
  | invalidContentType
  | redirect
  | httpStatus (status : UInt16)
deriving DecidableEq

structure TransportError where
  kind : TransportErrorKind
  httpAttemptStarted : Bool
  retryAfter : RetryAfter
deriving DecidableEq

def retryable : TransportErrorKind → Bool
  | .dns => true
  | .connect => true
  | .transientIo => true
  | .httpStatus status => status ∈ [429, 500, 502, 503, 504, 529]
  | _ => false

inductive RetryStop
  | notTransient
  | invalidRetryAfter
  | doesNotFitDeadline
deriving DecidableEq, Repr

def RetryAfter.provider : RetryAfter → Except RetryStop Nat
  | .absent => .ok 0
  | .delay duration => .ok duration
  | .invalid => .error .invalidRetryAfter

/-- The wait after so many failures: it doubles three times. -/
def backoff (failures : Nat) : Nat := fromMillis (100 <<< min (failures - 1) 3)

def retryDelay (error : TransportError) (failures remaining minimumAttempt entropy : Nat)
    : Except RetryStop Nat := do
  ensure (retryable error.kind) .notTransient
  let provider ← error.retryAfter.provider
  let delay ←
    require (checkedAddDuration (max provider (backoff failures)) (fromMillis (entropy % 51)))
      .doesNotFitDeadline
  ensure
    (¬ (checkedAddDuration delay minimumAttempt).all (fun needed => needed ≥ remaining))
    .doesNotFitDeadline
  return delay

/-- A delay that was granted: at least what the provider asked and the backoff, and with
room for one more attempt.
-/
structure Granted (error : TransportError) (failures remaining minimumAttempt delay : Nat)
    : Prop where
  transient : retryable error.kind = true
  requested : ∀ duration, error.retryAfter = .delay duration → duration ≤ delay
  valid : error.retryAfter ≠ .invalid
  backedOff : backoff failures ≤ delay
  fits : delay + minimumAttempt < remaining

/-- Whatever the entropy adds, a granted delay is never shortened. -/
theorem retryDelay_granted {error : TransportError}
    {failures remaining minimumAttempt entropy delay : Nat}
    (granted : retryDelay error failures remaining minimumAttempt entropy = .ok delay)
    : Granted error failures remaining minimumAttempt delay := by
  simp only [retryDelay, bind_eq_ok, ensure_eq_ok, require_eq_ok, pure_eq_ok] at granted
  obtain ⟨_, transient, provider, asked, sum, added, _, room, rfl⟩ := granted
  simp only [checkedAddDuration, Option.ite_none_right_eq_some, Option.some.injEq] at added
  obtain ⟨_, rfl⟩ := added
  refine ⟨transient, ?_, ?_, ?_, ?_⟩
  · intro duration same
    rw [same] at asked
    cases asked
    omega
  · intro invalid
    rw [invalid] at asked
    cases asked
  · omega
  · unfold checkedAddDuration at room
    split at room
    · simpa using room
    · simp at room

-- Sending one stage: each attempt is authorized, admitted, flown and finalized

/-- A wait between two attempts, with the reading of the clock that granted it and those of the
monotonic clock around it.
-/
structure RetryWait where
  error : TransportError
  failures : Nat
  remainingAt : Nat
  delay : Nat
  started : Nat
  ended : Nat

/-- What happens while a stage is sent, in order. The journal, the callers' callbacks and the
coordinator see parts of it.
-/
inductive Note
  | authorized
  | admitted (attemptId : String)
  | reachedWire (attemptId : String)
  | finalized (attemptId : String) (outcome : AttemptOutcome)
  | settled (failure : Option TransportError)
  | waited (wait : RetryWait)

def transportFailureKind : TransportErrorKind → String
  | .invalidConfiguration => "invalid-configuration"
  | .admission _ => "provider-admission-refused"
  | .credentialOriginMismatch => "credential-origin-mismatch"
  | .request _ => "request-encode"
  | .response _ => "response-decode"
  | .cancelled => "cancelled"
  | .deadline => "deadline"
  | .dns => "dns"
  | .connect => "connect"
  | .transientIo => "transient-io"
  | .tls => "tls"
  | .protocol => "protocol"
  | .bodyTooLarge => "body-too-large"
  | .unsupportedEncoding => "unsupported-encoding"
  | .invalidContentType => "invalid-content-type"
  | .redirect => "redirect"
  | .httpStatus _ => "http-status"

/-- `AttemptFailure::from_transport`. -/
def AttemptFailure.fromTransport (error : TransportError) : AttemptFailure :=
  match error.kind with
  | .httpStatus status => .http status
  | kind =>
      let name := transportFailureKind kind
      if error.httpAttemptStarted then .indeterminate name else .local name

def attemptFailure (error : Option TransportError) : AttemptFailure :=
  error.elim (.indeterminate "settlement-unobserved") .fromTransport

-- The flight of one attempt

/-- An admitted attempt until it is finalized: a permit, then a sent attempt, then neither.
-/
structure AttemptFlight where
  admission : AttemptAdmission
  permit : Option AttemptPermit
  sent : Option SentAttempt
  notes : List Note

namespace AttemptFlight

variable (flight : AttemptFlight)

def protocolError : TransportError :=
  { kind := .protocol, httpAttemptStarted := false, retryAfter := .absent }

/-- The callback of the transport when the request goes on the wire. -/
def start (now : Nat) : AttemptFlight × Except TransportError Unit :=
  match flight.permit with
  | none => (flight, .error protocolError)
  | some permit =>
      let taken := { flight with permit := none }
      match permit.markSent with
      | .error _ => (taken, .error protocolError)
      | .ok sent =>
          match taken.admission.recordSent sent now with
          | (admission, .error _) => ({ taken with admission }, .error protocolError)
          | (admission, .ok ()) =>
              (
                {
                  taken with
                  admission
                  sent := some sent
                  notes := taken.notes ++ [.reachedWire sent.attemptId]
                },
                .ok ()
              )

/-- The note of an attempt that an operation has finished. -/
def finalNotes (before after : AttemptAdmission) (attemptId : String) : List Note :=
  match after.issuedAttemptIds[attemptId]? with
  | some trace =>
      if trace.state = .finished ∧ before.attemptState attemptId ≠ some .finished then
        [.finalized attemptId trace.provenance.outcome]
      else []
  | none => []

def recorded (attemptId : String) (result : AttemptAdmission × Except AdmissionError Unit)
    : AttemptFlight × Except AdmissionError Unit :=
  (
    {
      flight with
      admission := result.1
      notes := flight.notes ++ finalNotes flight.admission result.1 attemptId
    },
    result.2
  )

def finish (usage : Option Usage) (error : Option TransportError) (now : Nat)
    : AttemptFlight × Except AdmissionError Unit :=
  match flight.sent with
  | some sent =>
      let taken := { flight with sent := none }
      match usage with
      | some usage => taken.recorded sent.attemptId (taken.admission.recordResponse sent usage now)
      | none =>
          taken.recorded sent.attemptId
            (taken.admission.recordTerminalFailure sent (attemptFailure error) now)
  | none =>
      match flight.permit with
      | some permit =>
          let taken := { flight with permit := none }
          taken.recorded permit.attemptId
            (taken.admission.recordDiscard
              (permit.discardBeforeSend "local refusal before HTTP") now)
      | none => (flight, .ok ())

def drop (now : Nat) : AttemptFlight := (flight.finish none none now).1

end AttemptFlight

-- The wait before a retry

/-- Work goes on while it is neither cancelled nor out of time. -/
def checkWork (clock : InvocationDeadline) (cancelled : Bool) (now : Nat)
    : Except TransportErrorKind Unit :=
  if cancelled then .error .cancelled
  else
    match clock.admitNewWork now with
    | .ok _ => .ok ()
    | .error _ => .error .deadline

/-- One turn of the waiting loop: what its checks read before it sleeps. -/
structure Poll where
  cancelled : Bool
  now : Nat
  instant : Nat

inductive Waiting
  | elapsed (ended : Nat)
  | stopped (kind : TransportErrorKind)
  | dropped
deriving DecidableEq

/-- Waits until an instant. Where the polls end, the future is dropped in its sleep. -/
def waitUntil (clock : InvocationDeadline) (target : Nat) : List Poll → Waiting
  | [] => .dropped
  | poll :: rest =>
      match checkWork clock poll.cancelled poll.now with
      | .error kind => .stopped kind
      | .ok () =>
          if target - poll.instant = 0 then .elapsed poll.instant
          else waitUntil clock target rest

def instantMax : Nat := i64Max * 1000000000 + 999999999

def waitBeforeRetry (clock : InvocationDeadline) (delay started : Nat) (polls : List Poll)
    : Waiting :=
  if started + delay ≤ instantMax then waitUntil clock (started + delay) polls
  else .stopped .deadline

-- The session

structure ModelObservation where
  requested : String
  returned : String
  startedAt : Nat
  receivedAt : Nat
  startedElapsedMs : Nat
  receivedElapsedMs : Nat
deriving DecidableEq

inductive ModelPairStatus
  | notPaired
  | matchingUnpinnedIdentifiers
deriving DecidableEq, Repr

inductive RetryErrorKind
  | transport (kind : TransportErrorKind)
  | admission (refusal : AdmissionRefusal)
  | accounting
  | policyChanged
  | retryStopped (stop : RetryStop)
  | modelPairMismatch
deriving DecidableEq

structure RetryError where
  kind : RetryErrorKind
  receipt : CostReceipt
  lastTransport : Option TransportError
deriving DecidableEq

structure StageResponse where
  response : Response
  model : ModelObservation
  pairStatus : ModelPairStatus
  attempts : Nat
  receipt : CostReceipt

structure RetrySession where
  origin : CanonicalOrigin
  clock : InvocationDeadline
  admission : AttemptAdmission
  wide : Option ModelObservation
  lastModel : Option ModelObservation

/-- What one turn of the sending loop meets: the clock and the cancel flag at each check, the
authorization, what the transport does, and the wait. A missing result is a future dropped
while the transport runs.
-/
structure Round where
  cancelled : Bool
  checkedAt : Nat
  authorized : Bool
  admittedAt : Nat
  reservedAt : Nat
  starts : List Nat
  result : Option (Except TransportError Response)
  settledAt : Nat
  receivedAt : Nat
  receivedElapsedMs : Nat
  remainingAt : Nat
  entropy : Nat
  waitStarted : Nat
  polls : List Poll

/-- One call of `send_stage_observed`. -/
structure StageCall where
  stage : RankingStage
  request : Request
  startedAt : Nat
  startedElapsedMs : Nat
  rounds : List Round

inductive Outcome
  | returned (result : Except RetryError StageResponse)
  | dropped
  /-- The rounds that were given have all ended in a retry. -/
  | running

/-- A session after a call, with what happened in it. -/
structure Sending where
  session : RetrySession
  notes : List Note
  outcome : Outcome

/-- `CanonicalOrigin::production`. -/
def CanonicalOrigin.production : CanonicalOrigin := "https://api.typesafe.ai"

def RetrySession.new (origin : Option CanonicalOrigin) (clock : InvocationDeadline)
    (budget : AttemptBudget) (invocationId : String) (owner : Nat)
    : Except AdmissionError RetrySession := do
  let admission ← AttemptAdmission.new budget clock invocationId owner
  return {
    origin := origin.getD .production
    clock := clock
    admission := admission
    wide := none
    lastModel := none
  }

namespace RetrySession

variable (session : RetrySession)

def error (kind : RetryErrorKind) (lastTransport : Option TransportError) : RetryError :=
  { kind, receipt := session.admission.receipt, lastTransport }

/-- Accepts a response, unless it breaks the pair of a rerank with its wide stage. -/
def accept (call : StageCall) (initialAttempts : Nat) (round : Round) (response : Response)
    : RetrySession × Except RetryError StageResponse :=
  let model : ModelObservation :=
    {
      requested := response.requestedModel
      returned := response.returnedModel
      startedAt := call.startedAt
      receivedAt := round.receivedAt
      startedElapsedMs := call.startedElapsedMs
      receivedElapsedMs := round.receivedElapsedMs
    }
  let observed := { session with lastModel := some model }
  let paired : Except RetryError ModelPairStatus :=
    if call.stage = .rerank then
      match observed.wide with
      | none => .error (observed.error .modelPairMismatch none)
      | some wide =>
          if wide.requested ≠ model.requested ∨ wide.returned ≠ model.returned then
            .error (observed.error .modelPairMismatch none)
          else .ok .matchingUnpinnedIdentifiers
    else .ok .notPaired
  match paired with
  | .error error => (observed, .error error)
  | .ok pairStatus =>
      (
        if call.stage = .wide then { observed with wide := some model } else observed,
        .ok
          {
            response := response
            model := model
            pairStatus := pairStatus
            attempts := session.admission.receipt.admittedAttempts - initialAttempts
            receipt := session.admission.receipt
          }
      )

/-- Whether a failed attempt is retried, and the wait before it. -/
inductive Retrying
  | waited (wait : RetryWait)
  | stopped (kind : RetryErrorKind)
  | dropped

def retry (initialAttempts : Nat) (round : Round) (error : TransportError) : Retrying :=
  if ¬ retryable error.kind then .stopped (.transport error.kind)
  else if session.admission.remainingHttpAttempts = 0 then
    .stopped
      (.admission
        (.attemptsExhausted session.admission.receipt.admittedAttempts
          session.admission.budget.maxHttpAttempts.toNat))
  else
    let failures := session.admission.receipt.admittedAttempts - initialAttempts
    let remaining := fromMillis (session.clock.remainingBeforeCleanup round.remainingAt)
    let minimumAttempt := fromMillis session.admission.budget.minAttemptReserveMs.toNat
    match retryDelay error failures remaining minimumAttempt round.entropy with
    | .error stop => .stopped (.retryStopped stop)
    | .ok delay =>
        match waitBeforeRetry session.clock delay round.waitStarted round.polls with
        | .stopped kind => .stopped (.transport kind)
        | .dropped => .dropped
        | .elapsed ended =>
            .waited
              {
                error := error
                failures := failures
                remainingAt := round.remainingAt
                delay := delay
                started := round.waitStarted
                ended := ended
              }

def usageOf : Except TransportError Response → Option Usage
  | .ok response => some response.usage
  | .error _ => none

def failureOf : Except TransportError Response → Option TransportError
  | .ok _ => none
  | .error error => some error

/-- The loop of a call, from the failure of its last attempt if there is one. -/
def sendRounds (call : StageCall) (initialAttempts : Nat)
    : RetrySession → Option TransportError → List Round → Sending
  | session, _, [] => { session, notes := [], outcome := .running }
  | session, lastTransport, round :: rest =>
      match checkWork session.clock round.cancelled round.checkedAt with
      | .error kind =>
          {
            session
            notes := []
            outcome := .returned (.error (session.error (.transport kind) lastTransport))
          }
      | .ok () =>
          if ¬ round.authorized then
            {
              session
              notes := []
              outcome := .returned (.error (session.error .policyChanged lastTransport))
            }
          else
            match session.admission.admitAttempt call.stage session.origin round.admittedAt
              round.reservedAt with
            | (_, .error refusal) =>
                {
                  session
                  notes := [.authorized]
                  outcome :=
                    .returned (.error (session.error (.admission refusal) lastTransport))
                }
            | (admission, .ok permit) =>
                let flight : AttemptFlight :=
                  {
                    admission := admission
                    permit := some permit
                    sent := none
                    notes := [.authorized, .admitted permit.attemptId]
                  }
                let started := round.starts.foldl (fun flight now => (flight.start now).1) flight
                match round.result with
                | none =>
                    let dropped := started.drop round.settledAt
                    {
                      session := { session with admission := dropped.admission }
                      notes := dropped.notes
                      outcome := .dropped
                    }
                | some result =>
                    let (landed, accounting) :=
                      started.finish (usageOf result) (failureOf result) round.settledAt
                    let settled := { session with admission := landed.admission }
                    let notes := landed.notes ++ [.settled (failureOf result)]
                    match accounting, result with
                    | .error _, _ =>
                        {
                          session := settled
                          notes := notes
                          outcome :=
                            .returned (.error (settled.error .accounting lastTransport))
                        }
                    | .ok (), .ok response =>
                        let (accepted, answer) :=
                          settled.accept call initialAttempts round response
                        { session := accepted, notes := notes, outcome := .returned answer }
                    | .ok (), .error error =>
                        match settled.retry initialAttempts round error with
                        | .stopped kind =>
                            {
                              session := settled
                              notes := notes
                              outcome := .returned (.error (settled.error kind (some error)))
                            }
                        | .dropped =>
                            { session := settled, notes := notes, outcome := .dropped }
                        | .waited wait =>
                            let later := sendRounds call initialAttempts settled (some error) rest
                            { later with notes := notes ++ .waited wait :: later.notes }

/-- `send_stage_observed`. -/
def sendStage (call : StageCall) : Sending :=
  if call.stage = .rerank
      ∧ session.wide.any (fun wide => wide.requested ≠ call.request.model) then
    {
      session := session
      notes := []
      outcome := .returned (.error (session.error .modelPairMismatch none))
    }
  else
    sendRounds call session.admission.receipt.admittedAttempts session none call.rounds

end RetrySession

end SkillRanker.Jev
