import SkillRanker.Jev.SendRuns

/-! The sending stage over whole sessions: every sequence of calls, whatever the transport
answers and the clocks show.
-/

namespace SkillRanker.Jev

open SkillRanker.Library

variable {session : RetrySession} {initialAttempts : Nat} {clock : InvocationDeadline}
  {budget : AttemptBudget}

def sessions : Machine RetrySession StageCall Sending where
  next session call :=
    let sending := session.sendStage call
    (sending.session, sending)

abbrev SendStep := Transition RetrySession StageCall Sending

def runNotes (steps : List SendStep) : List Note := steps.flatMap (fun step => step.output.notes)

def wideModels (steps : List SendStep) : List ModelObservation :=
  steps.filterMap
    (fun step =>
      match step.output.outcome with
      | .returned (.ok staged) => if step.event.stage = .wide then some staged.model else none
      | _ => none)

variable {call : StageCall} {accepted : RetrySession} {response : Response}

/-- What an accepted response records of its model, and what a rerank compares it with. -/
theorem accept_ok {round : Round} {staged : StageResponse}
    (answered : session.accept call initialAttempts round response = (accepted, .ok staged))
    : accepted.wide = (if call.stage = .wide then some staged.model else session.wide)
      ∧ (call.stage = .rerank
        → ∃ wide,
            session.wide = some wide
            ∧ wide.requested = staged.model.requested
            ∧ wide.returned = staged.model.returned) := by
  unfold RetrySession.accept at answered
  dsimp only at answered
  split at answered
  · cases answered
  · rename_i status paired
    cases answered
    refine ⟨by split <;> rfl, ?_⟩
    intro rerank
    rw [if_pos rerank] at paired
    split at paired
    · cases paired
    · rename_i wide known
      split at paired
      · cases paired
      · rename_i equal
        simp only [not_or, not_not] at equal
        exact ⟨wide, known, equal⟩

/-- A refused response records no pair. -/
theorem accept_error {round : Round} {error : RetryError}
    (answered : session.accept call initialAttempts round response = (accepted, .error error))
    : accepted.wide = session.wide := by
  unfold RetrySession.accept at answered
  dsimp only at answered
  split at answered
  · cases answered
    rfl
  · cases answered

/-- The wide model after a call, and the pair of a rerank, by induction on its rounds. -/
theorem Sends.models {rounds : List Round} {sending : Sending}
    (sends : Sends call initialAttempts session rounds sending)
    : (∀ staged,
        sending.outcome = .returned (.ok staged)
        → sending.session.wide
            = (if call.stage = .wide then some staged.model else session.wide)
          ∧ (call.stage = .rerank
            → ∃ wide,
                session.wide = some wide
                ∧ wide.requested = staged.model.requested
                ∧ wide.returned = staged.model.returned))
      ∧ ((∀ staged, sending.outcome ≠ .returned (.ok staged))
        → sending.session.wide = session.wide) := by
  induction sends with
  | exhausted => exact ⟨fun _ => Outcome.noConfusion, fun _ => rfl⟩
  | refused => exact ⟨by simp, fun _ => rfl⟩
  | unanswered flown => exact ⟨by simp, fun _ => by rw [flown.same]⟩
  | failed flown => exact ⟨by simp, fun _ => by rw [flown.same]⟩
  | abandoned flown => exact ⟨by simp, fun _ => by rw [flown.same]⟩
  | @answered session after round rest attemptId notes response flown =>
      have kept : after.wide = session.wide := by rw [flown.same]
      rw [← kept]
      cases answered : after.accept call initialAttempts round response with
      | mk accepted answer =>
          cases answer with
          | ok staged =>
              refine ⟨?_, fun never => absurd rfl (never staged)⟩
              intro other same
              cases same
              exact accept_ok answered
          | error error => exact ⟨by simp, fun _ => accept_error answered⟩
  | @retried session after round rest attemptId notes error wait sending flown _ _ ih =>
      have kept : after.wide = session.wide := by rw [flown.same]
      rw [← kept]
      exact ih

structure CallLaw (budget : AttemptBudget) (clock : InvocationDeadline) (step : SendStep)
    : Prop where
  /-- Each admission directly follows an authorization, and each one after the first of the
  call a lawful wait for the failure before it. -/
  spaced : Spaced 0 clock budget step.event.rounds step.output.notes
  /-- A call ends in a result once it has more rounds than attempts remain. -/
  ends
    : step.before.admission.remainingHttpAttempts < step.event.rounds.length
      → (∀ round ∈ step.event.rounds, round.Completes clock)
      → ∃ result, step.output.outcome = .returned result

structure SendLaw (budget : AttemptBudget) (clock : InvocationDeadline) (steps : List SendStep)
    (session : RetrySession) : Prop where
  calls : ∀ step ∈ steps, CallLaw budget clock step
  budget : (admittedIds (runNotes steps)).length ≤ budget.maxHttpAttempts.toNat
  /-- The attempts are finalized in the order of their admission, each once. -/
  once
    : (admittedIds (runNotes steps)).Nodup
      ∧ finalizedIds (runNotes steps) = admittedIds (runNotes steps)
  /-- A finalized attempt is a response, a terminal failure or a discard on record. -/
  ends
    : ∀ attemptId outcome,
        .finalized attemptId outcome ∈ runNotes steps
        → outcome ∈ [.completed, .failed, .discarded]
          ∧ ∃ trace,
              session.admission.issuedAttemptIds[attemptId]? = some trace
              ∧ trace.state = .finished
              ∧ trace.provenance.outcome = outcome
  /-- A rerank that returns has the models of the last wide response. -/
  paired
    : ∀ earlier (step : SendStep) later staged,
        steps = earlier ++ step :: later
        → step.event.stage = .rerank
        → step.output.outcome = .returned (.ok staged)
        → ∃ wide,
            (wideModels earlier).getLast? = some wide
            ∧ wide.requested = staged.model.requested
            ∧ wide.returned = staged.model.returned

/-- A whole call is what its loop does, or a refusal before it. -/
theorem sendStage_sends (sound : session.admission.Sound) (call : StageCall)
    : Sends call session.admission.receipt.admittedAttempts session call.rounds
        (session.sendStage call) := by
  unfold RetrySession.sendStage
  split
  · exact .refused (.inl rfl)
  · exact sendRounds_sends call _ session none call.rounds sound

/-- The notes and the wide model of a run are those of its session. -/
structure Kept (budget : AttemptBudget) (clock : InvocationDeadline) (steps : List SendStep)
    (session : RetrySession) : Prop where
  sound : session.admission.Sound
  budget : session.admission.budget = budget
  clock : session.clock = clock
  ledger
    : ∃ start : AttemptAdmission,
        start.receipt.admittedAttempts = 0
        ∧ Ledger start session.admission (runNotes steps)
  wide : session.wide = (wideModels steps).getLast?

theorem Kept.new {origin : Option CanonicalOrigin} {invocationId : String} {owner : Nat}
    (created : RetrySession.new origin clock budget invocationId owner = .ok session)
    : Kept budget clock [] session := by
  simp only [RetrySession.new, bind_eq_ok, pure_eq_ok] at created
  obtain ⟨admission, made, rfl⟩ := created
  have sound := AttemptAdmission.Sound.new made
  unfold AttemptAdmission.new at made
  split at made
  · cases made
  · cases made
    exact ⟨sound, rfl, rfl, ⟨_, rfl, .quiet _ (by simp [runNotes])⟩, rfl⟩

variable {steps : List SendStep}

/-- A call adds its notes, and its model when it is wide. -/
theorem Kept.step (kept : Kept budget clock steps session) (call : StageCall)
    : Kept budget clock (steps ++ [sessions.transition session call])
        (sessions.next session call).1 := by
  have sends := sendStage_sends kept.sound call
  obtain ⟨sound, sameBudget, sameClock, ledger⟩ := sends.ledger kept.sound
  obtain ⟨models, unchanged⟩ := sends.models
  obtain ⟨start, zero, earlier⟩ := kept.ledger
  refine ⟨sound, sameBudget.trans kept.budget, sameClock.trans kept.clock, ⟨start, zero, ?_⟩,
    ?_⟩
  · have notes
        : runNotes (steps ++ [sessions.transition session call])
          = runNotes steps ++ (session.sendStage call).notes := by
      simp [runNotes, Machine.transition, sessions]
    rw [notes]
    exact earlier.append ledger
  · change (session.sendStage call).session.wide = _
    rw [wideModels, List.filterMap_append]
    cases outcome : (session.sendStage call).outcome with
    | dropped =>
        rw [unchanged (by simp [outcome]), kept.wide]
        simp [wideModels, Machine.transition, sessions, outcome]
    | running =>
        rw [unchanged (by simp [outcome]), kept.wide]
        simp [wideModels, Machine.transition, sessions, outcome]
    | returned result =>
        cases result with
        | error error =>
            rw [unchanged (by simp [outcome]), kept.wide]
            simp [wideModels, Machine.transition, sessions, outcome]
        | ok staged =>
            rw [(models staged outcome).1]
            by_cases isWide : call.stage = .wide
            · simp [isWide, Machine.transition, sessions, outcome]
            · simp [isWide, kept.wide, wideModels, Machine.transition, sessions, outcome]

/-- The final state of a coherent trace has a final outcome. -/
theorem outcome_of_finished {trace : AttemptTrace} (coherent : trace.Coherent)
    (finished : trace.state = .finished)
    : trace.provenance.outcome ∈ [.completed, .failed, .discarded] := by
  cases coherent with
  | admitted => cases finished
  | sent => cases finished
  | completed => exact .head _
  | failed => exact .tail _ (.head _)
  | discarded => exact .tail _ (.tail _ (.head _))

theorem Kept.callLaw (kept : Kept budget clock steps session) (call : StageCall)
    : CallLaw budget clock (sessions.transition session call) := by
  have sends := sendStage_sends kept.sound call
  have spaced := sends.spaced (Nat.le_refl _)
  rw [Nat.sub_self, kept.clock, kept.budget] at spaced
  refine ⟨spaced, ?_⟩
  intro enough completes
  change ∃ result, (session.sendStage call).outcome = .returned result
  cases outcome : (session.sendStage call).outcome with
  | returned result => exact ⟨result, rfl⟩
  | running => exact absurd enough (Nat.not_lt.mpr (sends.running outcome))
  | dropped =>
      obtain ⟨round, member, stuck⟩ := sends.dropped outcome
      rw [kept.clock] at stuck
      exact absurd (completes round member) stuck

/-- What a session keeps holds after every run, by induction on its calls. -/
theorem run_kept (created : Kept budget clock [] session) (calls : List StageCall)
    : Kept budget clock (sessions.history session calls) (sessions.final session calls) :=
  sessions.run_induction (motive := fun _ steps reached => Kept budget clock steps reached)
    created (fun _ call kept => kept.step call) calls

/-- Every run of a session keeps the law of the sending stage. -/
theorem sends_lawful (origin : Option CanonicalOrigin) (clock : InvocationDeadline)
    (budget : AttemptBudget) (invocationId : String) (owner : Nat) {session : RetrySession}
    (created : RetrySession.new origin clock budget invocationId owner = .ok session)
    (calls : List StageCall)
    : SendLaw budget clock (sessions.history session calls) (sessions.final session calls) := by
  have start := Kept.new created
  have kept := run_kept start calls
  obtain ⟨fresh, zero, ledger⟩ := kept.ledger
  refine ⟨?_, ?_, ⟨ledger.nodup, ledger.finalized⟩, ?_, ?_⟩
  · intro step member
    obtain ⟨first, call, later, _, rfl⟩ := sessions.mem_history member
    exact (run_kept start first).callLaw call
  · have attempts := kept.sound.attempts
    rw [ledger.count, zero, kept.budget] at attempts
    omega
  · intro attemptId outcome member
    obtain ⟨trace, known, finished, rfl⟩ := ledger.ends attemptId outcome member
    exact ⟨outcome_of_finished (kept.sound.coherent attemptId trace known) finished, trace,
      known, finished, rfl⟩
  · intro earlier step later staged split rerank answered
    obtain ⟨first, call, rest, _, rfl, rfl⟩ := sessions.history_split split
    have before := run_kept start first
    obtain ⟨wide, known, same⟩ :=
      ((sendStage_sends before.sound call).models.1 staged answered).2 rerank
    exact ⟨wide, before.wide.symm.trans known, same⟩

def putOff : StageCall :=
  let round : Round :=
    {
      cancelled := false
      checkedAt := 1
      authorized := true
      admittedAt := 1
      reservedAt := 1
      starts := [2]
      result :=
        some (.error
          {
            kind := .httpStatus 503
            httpAttemptStarted := true
            retryAfter := .delay 1000000000
          })
      settledAt := 9
      receivedAt := 9
      receivedElapsedMs := 9
      remainingAt := 9
      entropy := 7
      waitStarted := 50
      polls :=
        [
          { cancelled := false, now := 9, instant := 60 },
          { cancelled := false, now := 1020, instant := 1007000050 }
        ]
    }
  let response : Response :=
    {
      requestedModel := "jev"
      returnedModel := "jev-1"
      answers := ∅
      usage := { inputTokens := 7, outputTokens := 2 }
    }
  {
    stage := .wide
    request := { model := "jev", questions := ∅ }
    startedAt := 0
    startedElapsedMs := 0
    rounds :=
      [
        round,
        {
          round with
          checkedAt := 1021
          admittedAt := 1021
          reservedAt := 1021
          result := some (.ok response)
        }
      ]
  }

/-- A put-off call keeps the law. -/
theorem sends_lawful_put_off
    : ∃ session,
        RetrySession.new none .default .defaultInvocation "inv" 0 = .ok session
        ∧ SendLaw .defaultInvocation .default (sessions.history session [putOff])
            (sessions.final session [putOff]) :=
  ⟨_, rfl, sends_lawful none .default .defaultInvocation "inv" 0 rfl [putOff]⟩

end SkillRanker.Jev
