import SkillRanker.Jev.Flights
import SkillRanker.Library.Machine

/-! The law of the sending stage over whole sessions: how attempts are authorized, spaced,
finalized and counted, and that every call ends.
-/

namespace SkillRanker.Jev

open SkillRanker.Library

def admittedIds (notes : List Note) : List String :=
  notes.filterMap (fun note => match note with | .admitted attemptId => some attemptId | _ => none)

def finalizedIds (notes : List Note) : List String :=
  notes.filterMap
    (fun note => match note with | .finalized attemptId _ => some attemptId | _ => none)

structure Flown (before after : RetrySession) (attemptId : String) (notes : List Note) : Prop where
  same : after = { before with admission := after.admission }
  sound : after.admission.Sound
  budget : after.admission.budget = before.admission.budget
  room
    : before.admission.receipt.admittedAttempts < before.admission.budget.maxHttpAttempts.toNat
  admitted
    : after.admission.receipt.admittedAttempts = before.admission.receipt.admittedAttempts + 1
  absent : before.admission.issuedAttemptIds[attemptId]? = none
  others
    : ∀ other,
        other ≠ attemptId
        → after.admission.issuedAttemptIds[other]? = before.admission.issuedAttemptIds[other]?
  finished
    : ∃ trace wire,
        after.admission.issuedAttemptIds[attemptId]? = some trace
        ∧ trace.state = .finished
        ∧ notes
          = [.authorized, .admitted attemptId] ++ wire
            ++ [.finalized attemptId trace.provenance.outcome]
        ∧ ∀ note ∈ wire, note = .reachedWire attemptId

variable {admission : AttemptAdmission} {permit : AttemptPermit}

theorem airborne_of_admitAttempt {session : RetrySession} (sound : session.admission.Sound)
    {stage : RankingStage} {now later : Nat}
    (admitted
      : session.admission.admitAttempt stage session.origin now later
        = (admission, .ok permit))
    : AttemptFlight.Airborne admission [.authorized, .admitted permit.attemptId]
        permit.attemptId
        {
          admission := admission
          permit := some permit
          sent := none
          notes := [.authorized, .admitted permit.attemptId]
        } := by
  unfold AttemptAdmission.admitAttempt at admitted
  cases found : session.admission.slot stage now later with
  | error refusal => simp [found] at admitted
  | ok slot =>
      simp only [found, Prod.mk.injEq, Except.ok.injEq] at admitted
      obtain ⟨rfl, rfl⟩ := admitted
      refine ⟨⟨sound.register found, rfl, rfl, rfl, fun _ _ => rfl⟩, ?_, [], rfl, by simp⟩
      exact .permitted rfl rfl rfl rfl rfl Std.TreeMap.getElem?_insert_self rfl rfl

/-- A flight of an admitted attempt that landed is one whole attempt of the session. -/
theorem flown_of_landed {session : RetrySession} {stage : RankingStage} {now later : Nat}
    {flight : AttemptFlight}
    (admitted
      : session.admission.admitAttempt stage session.origin now later
        = (admission, .ok permit))
    (landed
      : flight.Landed admission [.authorized, .admitted permit.attemptId] permit.attemptId)
    : Flown session { session with admission := flight.admission } permit.attemptId
        flight.notes := by
  unfold AttemptAdmission.admitAttempt at admitted
  cases found : session.admission.slot stage now later with
  | error refusal => simp [found] at admitted
  | ok slot =>
      simp only [found, Prod.mk.injEq, Except.ok.injEq] at admitted
      obtain ⟨rfl, rfl⟩ := admitted
      have checks := session.admission.slot_admitted found
      have word := session.admission.budget.maxHttpAttempts.toNat_lt
      have room := checks.attempts
      refine ⟨rfl, landed.frame.sound, landed.frame.budget, room, ?_, checks.absent, ?_, ?_⟩
      · refine landed.frame.admitted.trans (checks.sequence.trans (saturatingAddU32_eq ?_))
        unfold u32Max
        omega
      · intro other differs
        exact (landed.frame.others other differs).trans
          (AttemptAdmission.getElem_insert_ne differs)
      · exact landed.finished

/-- Everything the loop of a call can do, round by round. -/
inductive Sends (call : StageCall) (initialAttempts : Nat)
    : RetrySession → List Round → Sending → Prop
  | exhausted {session}
    : Sends call initialAttempts session [] { session, notes := [], outcome := .running }
  | refused {session rounds notes error} (early : notes = [] ∨ notes = [.authorized])
    : Sends call initialAttempts session rounds
        { session, notes, outcome := .returned (.error error) }
  | unanswered {session after round rest attemptId notes}
    (flown : Flown session after attemptId notes) (lost : round.result = none)
    : Sends call initialAttempts session (round :: rest)
        { session := after, notes, outcome := .dropped }
  | failed {session after round rest attemptId notes failure error}
    (flown : Flown session after attemptId notes)
    : Sends call initialAttempts session (round :: rest)
        {
          session := after
          notes := notes ++ [.settled failure]
          outcome := .returned (.error error)
        }
  | answered {session after round rest attemptId notes response}
    (flown : Flown session after attemptId notes)
    : Sends call initialAttempts session (round :: rest)
        {
          session := (after.accept call initialAttempts round response).1
          notes := notes ++ [.settled none]
          outcome := .returned (after.accept call initialAttempts round response).2
        }
  | abandoned {session after round rest attemptId notes error}
    (flown : Flown session after attemptId notes)
    (asleep : after.retry initialAttempts round error = .dropped)
    : Sends call initialAttempts session (round :: rest)
        {
          session := after
          notes := notes ++ [.settled (some error)]
          outcome := .dropped
        }
  | retried {session after round rest attemptId notes error wait sending}
    (flown : Flown session after attemptId notes)
    (waited : after.retry initialAttempts round error = .waited wait)
    (later : Sends call initialAttempts after rest sending)
    : Sends call initialAttempts session (round :: rest)
        {
          sending with
          notes := notes ++ [.settled (some error)] ++ .waited wait :: sending.notes
        }

theorem sendRounds_sends (call : StageCall) (initialAttempts : Nat) (session : RetrySession)
    (lastTransport : Option TransportError) (rounds : List Round)
    (sound : session.admission.Sound)
    : Sends call initialAttempts session rounds
        (RetrySession.sendRounds call initialAttempts session lastTransport rounds) := by
  induction rounds generalizing session lastTransport with
  | nil => exact .exhausted
  | cons round rest ih =>
      rw [RetrySession.sendRounds]
      split
      · exact .refused (.inl rfl)
      split
      · exact .refused (.inl rfl)
      split
      · exact .refused (.inr rfl)
      rename_i admission permit admitted
      have airborne := (airborne_of_admitAttempt sound admitted).starts round.starts
      split
      · rename_i lost
        exact .unanswered (flown_of_landed admitted (airborne.finish none none round.settledAt))
          lost
      rename_i result _
      have flown := flown_of_landed admitted
        (airborne.finish (RetrySession.usageOf result) (RetrySession.failureOf result)
          round.settledAt)
      dsimp only
      split
      · exact .failed flown
      · exact .answered flown
      · split
        · exact .failed flown
        · rename_i asleep
          exact .abandoned flown asleep
        · rename_i waited
          exact .retried flown waited (ih _ _ flown.sound)

-- Attempts and their ends

/-- The notes of attempts against the coordinator before and after them: each attempt is new,
and ends once as its note says.
-/
structure Ledger (before after : AttemptAdmission) (notes : List Note) : Prop where
  finalized : finalizedIds notes = admittedIds notes
  count
    : after.receipt.admittedAttempts
      = before.receipt.admittedAttempts + (admittedIds notes).length
  nodup : (admittedIds notes).Nodup
  absent : ∀ attemptId ∈ admittedIds notes, before.issuedAttemptIds[attemptId]? = none
  kept
    : ∀ attemptId,
        attemptId ∉ admittedIds notes
        → after.issuedAttemptIds[attemptId]? = before.issuedAttemptIds[attemptId]?
  ends
    : ∀ attemptId outcome,
        .finalized attemptId outcome ∈ notes
        → ∃ trace,
            after.issuedAttemptIds[attemptId]? = some trace
            ∧ trace.state = .finished
            ∧ trace.provenance.outcome = outcome

theorem admittedIds_append (first later : List Note)
    : admittedIds (first ++ later) = admittedIds first ++ admittedIds later :=
  List.filterMap_append

theorem finalizedIds_append (first later : List Note)
    : finalizedIds (first ++ later) = finalizedIds first ++ finalizedIds later :=
  List.filterMap_append

variable {notes : List Note} {attemptId : String}

theorem mem_finalizedIds (member : attemptId ∈ finalizedIds notes)
    : ∃ outcome, .finalized attemptId outcome ∈ notes := by
  obtain ⟨note, found, eq⟩ := List.mem_filterMap.mp member
  cases note <;> simp at eq
  rename_i outcome
  subst eq
  exact ⟨outcome, found⟩

/-- Notes that speak of no attempt change nothing. -/
theorem Ledger.quiet (admission : AttemptAdmission)
    (quiet : ∀ note ∈ notes, ∀ attemptId outcome,
      note ≠ .admitted attemptId ∧ note ≠ .finalized attemptId outcome)
    : Ledger admission admission notes := by
  have unadmitted : admittedIds notes = [] := by
    rw [admittedIds, List.filterMap_eq_nil_iff]
    intro note member
    cases note with
    | admitted attemptId => exact absurd rfl (quiet _ member attemptId .admitted).1
    | _ => rfl
  have unfinalized : finalizedIds notes = [] := by
    rw [finalizedIds, List.filterMap_eq_nil_iff]
    intro note member
    cases note with
    | finalized attemptId outcome => exact absurd rfl (quiet _ member attemptId outcome).2
    | _ => rfl
  refine ⟨unfinalized.trans unadmitted.symm, by rw [unadmitted]; rfl, ?_, ?_, ?_, ?_⟩
  · rw [unadmitted]
    exact .nil
  · intro attemptId member
    rw [unadmitted] at member
    cases member
  · intro attemptId _
    rfl
  · intro attemptId outcome member
    exact absurd rfl (quiet _ member attemptId outcome).2

/-- Ledgers in turn make one: what the later admits, the earlier did not. -/
theorem Ledger.append {before middle after : AttemptAdmission} {first later : List Note}
    (head : Ledger before middle first) (tail : Ledger middle after later)
    : Ledger before after (first ++ later) := by
  have known (attemptId : String) (member : attemptId ∈ admittedIds first)
      : attemptId ∉ admittedIds later := by
    intro again
    rw [← head.finalized] at member
    obtain ⟨outcome, noted⟩ := mem_finalizedIds member
    obtain ⟨trace, found, _⟩ := head.ends attemptId outcome noted
    cases found.symm.trans (tail.absent attemptId again)
  refine ⟨?_, ?_, ?_, ?_, ?_, ?_⟩
  · rw [finalizedIds_append, admittedIds_append, head.finalized, tail.finalized]
  · rw [tail.count, head.count, admittedIds_append, List.length_append, Nat.add_assoc]
  · rw [admittedIds_append]
    refine List.nodup_append.mpr ⟨head.nodup, tail.nodup, ?_⟩
    rintro attemptId member _ again rfl
    exact known attemptId member again
  · intro attemptId member
    rw [admittedIds_append] at member
    rcases List.mem_append.mp member with earlier | new
    · exact head.absent attemptId earlier
    · by_cases earlier : attemptId ∈ admittedIds first
      · exact head.absent attemptId earlier
      · exact (head.kept attemptId earlier).symm.trans (tail.absent attemptId new)
  · intro attemptId missing
    rw [admittedIds_append, List.mem_append, not_or] at missing
    exact (tail.kept attemptId missing.2).trans (head.kept attemptId missing.1)
  · intro attemptId outcome member
    rcases List.mem_append.mp member with earlier | new
    · obtain ⟨trace, found, facts⟩ := head.ends attemptId outcome earlier
      refine ⟨trace, ?_, facts⟩
      have unrepeated : attemptId ∉ admittedIds later := by
        intro again
        cases found.symm.trans (tail.absent attemptId again)
      exact (tail.kept attemptId unrepeated).trans found
    · exact tail.ends attemptId outcome new

/-- An attempt is admitted once and finalized once. -/
theorem Flown.ids {before after : RetrySession} (flown : Flown before after attemptId notes)
    : admittedIds notes = [attemptId] ∧ finalizedIds notes = [attemptId] := by
  obtain ⟨trace, wire, _, _, rfl, reached⟩ := flown.finished
  have silentAdmitted : admittedIds wire = [] := by
    rw [admittedIds, List.filterMap_eq_nil_iff]
    intro note member
    rw [reached note member]
  have silentFinalized : finalizedIds wire = [] := by
    rw [finalizedIds, List.filterMap_eq_nil_iff]
    intro note member
    rw [reached note member]
  constructor
  · rw [admittedIds_append, admittedIds_append, silentAdmitted]
    rfl
  · rw [finalizedIds_append, finalizedIds_append, silentFinalized]
    rfl

theorem Flown.ledger {before after : RetrySession} (flown : Flown before after attemptId notes)
    : Ledger before.admission after.admission notes := by
  obtain ⟨admitted, finalized⟩ := flown.ids
  refine ⟨finalized.trans admitted.symm, ?_, ?_, ?_, ?_, ?_⟩
  · rw [admitted]
    exact flown.admitted
  · rw [admitted]
    exact List.nodup_singleton attemptId
  · intro other member
    rw [admitted] at member
    rw [List.mem_singleton.mp member]
    exact flown.absent
  · intro other missing
    rw [admitted, List.mem_singleton] at missing
    exact flown.others other missing
  · intro other outcome member
    obtain ⟨trace, wire, known, finished, rfl, reached⟩ := flown.finished
    rcases List.mem_append.mp member with early | last
    · rcases List.mem_append.mp early with start | flying
      · simp at start
      · cases reached _ flying
    · cases List.mem_singleton.mp last
      exact ⟨trace, known, finished, rfl⟩

theorem RetrySession.accept_keeps (session : RetrySession) (call : StageCall)
    (initialAttempts : Nat) (round : Round) (response : Response)
    : (session.accept call initialAttempts round response).1.admission = session.admission
      ∧ (session.accept call initialAttempts round response).1.clock = session.clock := by
  unfold RetrySession.accept
  dsimp only
  split
  · exact ⟨rfl, rfl⟩
  · split <;> exact ⟨rfl, rfl⟩

variable {call : StageCall} {initialAttempts : Nat} {rounds : List Round} {sending : Sending}

/-- What a call keeps, and the ledger of its attempts, by induction on its rounds. -/
theorem Sends.ledger {session : RetrySession}
    (sends : Sends call initialAttempts session rounds sending) (sound : session.admission.Sound)
    : sending.session.admission.Sound
      ∧ sending.session.admission.budget = session.admission.budget
      ∧ sending.session.clock = session.clock
      ∧ Ledger session.admission sending.session.admission sending.notes := by
  have settled (admission : AttemptAdmission) (failure : Option TransportError)
      : Ledger admission admission [.settled failure] := .quiet admission (by simp)
  induction sends with
  | @exhausted session => exact ⟨sound, rfl, rfl, .quiet session.admission (by simp)⟩
  | @refused session _ _ _ early =>
      refine ⟨sound, rfl, rfl, .quiet session.admission ?_⟩
      rcases early with rfl | rfl <;> simp
  | unanswered flown => exact ⟨flown.sound, flown.budget, by rw [flown.same], flown.ledger⟩
  | failed flown =>
      exact ⟨flown.sound, flown.budget, by rw [flown.same], flown.ledger.append (settled _ _)⟩
  | abandoned flown =>
      exact ⟨flown.sound, flown.budget, by rw [flown.same], flown.ledger.append (settled _ _)⟩
  | @answered session after round rest attemptId notes response flown =>
      obtain ⟨admission, clock⟩ := after.accept_keeps call initialAttempts round response
      rw [admission, clock]
      exact ⟨flown.sound, flown.budget, by rw [flown.same], flown.ledger.append (settled _ _)⟩
  | @retried session after round rest attemptId notes error wait sending flown waited later ih =>
      obtain ⟨sound, budget, clock, tail⟩ := ih flown.sound
      have waiting : Ledger after.admission after.admission [.waited wait] :=
        .quiet after.admission (by simp)
      exact ⟨sound, budget.trans flown.budget, clock.trans (by rw [flown.same]),
        (flown.ledger.append (settled _ _)).append (waiting.append tail)⟩

-- Waits

/-- A wait as it must be in its round: granted at the reading of the clock that the round took for
it, with the reserve of the budget, and never shortened.
-/
structure RetryWait.Lawful (wait : RetryWait) (clock : InvocationDeadline)
    (budget : AttemptBudget) (round : Round) : Prop where
  reading : wait.remainingAt = round.remainingAt
  granted
    : Granted wait.error wait.failures
        (fromMillis (clock.remainingBeforeCleanup wait.remainingAt))
        (fromMillis budget.minAttemptReserveMs.toNat) wait.delay
  started : wait.started = round.waitStarted
  woken : ∃ poll ∈ round.polls, poll.instant = wait.ended
  whole : wait.started + wait.delay ≤ wait.ended

variable {clock : InvocationDeadline}

/-- A wait that elapses is polled at its target or behind it, by induction on the polls. -/
theorem waitUntil_elapsed {target ended : Nat} {polls : List Poll}
    (waited : waitUntil clock target polls = .elapsed ended)
    : target ≤ ended ∧ ∃ poll ∈ polls, poll.instant = ended := by
  induction polls with
  | nil => cases waited
  | cons poll rest ih =>
      rw [waitUntil] at waited
      split at waited
      · cases waited
      · split at waited
        · rename_i reached
          cases waited
          exact ⟨Nat.le_of_sub_eq_zero reached, poll, List.mem_cons_self, rfl⟩
        · obtain ⟨late, other, member, last⟩ := ih waited
          exact ⟨late, other, List.mem_cons_of_mem _ member, last⟩

theorem waitUntil_dropped {target : Nat} {polls : List Poll}
    (dropped : waitUntil clock target polls = .dropped)
    : ∀ poll ∈ polls, poll.instant < target := by
  induction polls with
  | nil =>
      intro poll member
      cases member
  | cons poll rest ih =>
      rw [waitUntil] at dropped
      split at dropped
      · cases dropped
      · split at dropped
        · cases dropped
        · rename_i short
          intro other member
          rcases List.mem_cons.mp member with rfl | later
          · omega
          · exact ih dropped other later

theorem remainingBeforeCleanup_le (clock : InvocationDeadline) (now : Nat)
    : clock.remainingBeforeCleanup now ≤ clock.total := by
  unfold InvocationDeadline.remainingBeforeCleanup InvocationDeadline.latestWorkTime
    InvocationDeadline.expiresAt
  split <;> omega

variable {error : TransportError}

theorem retry_waited {session : RetrySession} {round : Round} {wait : RetryWait}
    (waited : session.retry initialAttempts round error = .waited wait)
    : wait.error = error
      ∧ wait.failures = session.admission.receipt.admittedAttempts - initialAttempts
      ∧ wait.Lawful session.clock session.admission.budget round := by
  unfold RetrySession.retry at waited
  split at waited
  · cases waited
  split at waited
  · cases waited
  dsimp only at waited
  split at waited
  · cases waited
  rename_i delay granted
  split at waited
  · cases waited
  · cases waited
  · rename_i ended elapsed
    cases waited
    unfold waitBeforeRetry at elapsed
    split at elapsed
    · obtain ⟨whole, woken⟩ := waitUntil_elapsed elapsed
      exact ⟨rfl, rfl, rfl, retryDelay_granted granted, rfl, woken, whole⟩
    · cases elapsed

/-- The surroundings let a round end: the transport answers, and the monotonic clock is
polled until it has gone on for as long as the whole deadline.
-/
structure Round.Completes (round : Round) (clock : InvocationDeadline) : Prop where
  answered : round.result.isSome
  woken : ∃ poll ∈ round.polls, round.waitStarted + fromMillis clock.total ≤ poll.instant

/-- A retry is not left asleep where the clock goes on. -/
theorem retry_dropped {session : RetrySession} {round : Round}
    (dropped : session.retry initialAttempts round error = .dropped)
    : ¬ round.Completes session.clock := by
  rintro ⟨_, poll, member, late⟩
  unfold RetrySession.retry at dropped
  split at dropped
  · cases dropped
  split at dropped
  · cases dropped
  dsimp only at dropped
  split at dropped
  · cases dropped
  rename_i delay granted
  have fits := (retryDelay_granted granted).fits
  have most := remainingBeforeCleanup_le session.clock round.remainingAt
  split at dropped
  · cases dropped
  · rename_i asleep
    unfold waitBeforeRetry at asleep
    split at asleep
    · have early := waitUntil_dropped asleep poll member
      unfold fromMillis nanosPerMilli at fits late
      omega
    · cases asleep
  · cases dropped

/-- A call that is still running after its rounds has spent an attempt on each, by induction
on them.
-/
theorem Sends.running {session : RetrySession}
    (sends : Sends call initialAttempts session rounds sending)
    (running : sending.outcome = .running)
    : rounds.length ≤ session.admission.remainingHttpAttempts := by
  induction sends with
  | exhausted => exact Nat.zero_le _
  | refused => cases running
  | unanswered => cases running
  | failed => cases running
  | answered => cases running
  | abandoned => cases running
  | @retried session after round rest _ _ _ _ _ flown _ _ ih =>
      have less := ih running
      have room := flown.room
      rw [AttemptAdmission.remainingHttpAttempts, flown.budget, flown.admitted] at less
      rw [AttemptAdmission.remainingHttpAttempts, List.length_cons]
      omega

/-- A call is dropped only in a round that does not end. -/
theorem Sends.dropped {session : RetrySession}
    (sends : Sends call initialAttempts session rounds sending)
    (dropped : sending.outcome = .dropped)
    : ∃ round ∈ rounds, ¬ round.Completes session.clock := by
  induction sends with
  | exhausted => cases dropped
  | refused => cases dropped
  | failed => cases dropped
  | answered => cases dropped
  | @unanswered _ _ round _ _ _ _ lost =>
      refine ⟨round, List.mem_cons_self, ?_⟩
      rintro ⟨answered, _⟩
      rw [lost] at answered
      cases answered
  | @abandoned session after round _ _ _ _ flown asleep =>
      have clock : after.clock = session.clock := by rw [flown.same]
      exact ⟨round, List.mem_cons_self, clock ▸ retry_dropped asleep⟩
  | @retried session after _ _ _ _ _ _ _ flown _ _ ih =>
      obtain ⟨round, member, stuck⟩ := ih dropped
      have clock : after.clock = session.clock := by rw [flown.same]
      exact ⟨round, List.mem_cons_of_mem _ member, clock ▸ stuck⟩

/-- A place in a concatenation is a place in one of its parts. -/
theorem append_split {α : Type} {head tail before after : List α} {value : α}
    (split : head ++ tail = before ++ value :: after)
    : (∃ rest, head = before ++ value :: rest)
      ∨ ∃ rest, before = head ++ rest ∧ tail = rest ++ value :: after := by
  rcases List.append_eq_append_iff.mp split with ⟨rest, rfl, eq⟩ | ⟨rest, rfl, eq⟩
  · exact .inr ⟨rest, rfl, eq⟩
  · cases rest with
    | nil =>
        refine .inr ⟨[], ?_, ?_⟩
        · simp
        · simpa using eq.symm
    | cons first rest =>
        obtain ⟨rfl, _⟩ := List.cons.inj eq
        exact .inl ⟨rest, rfl⟩

/-- The one admission of an attempt directly follows its authorization. -/
theorem Flown.authorized {session after : RetrySession} {other : String} {before later : List Note}
    (flown : Flown session after attemptId notes)
    (split : notes = before ++ .admitted other :: later)
    : before = [.authorized] := by
  obtain ⟨trace, wire, _, _, eq, reached⟩ := flown.finished
  rw [eq, List.append_assoc] at split
  have silent (note : Note) (member : note ∈ wire ++ [.finalized attemptId trace.provenance.outcome])
      : note ≠ .admitted other := by
    rcases List.mem_append.mp member with flying | last
    · rw [reached note flying]
      exact Note.noConfusion
    · rw [List.mem_singleton.mp last]
      exact Note.noConfusion
  match before, split with
  | [], split => cases (List.cons.inj split).1
  | [first], split =>
      obtain ⟨rfl, _⟩ := List.cons.inj split
      rfl
  | first :: second :: rest, split =>
      obtain ⟨_, tail⟩ := List.cons.inj split
      obtain ⟨_, tail⟩ := List.cons.inj tail
      refine absurd rfl (silent (.admitted other) ?_)
      rw [show wire ++ _ = rest ++ .admitted other :: later from tail]
      exact List.mem_append_right _ List.mem_cons_self

/-- Each admission of a call directly follows an authorization, and each one after the first
a wait for the failure before it, in the round of the attempt that failed. `used` counts the
attempts of the call so far.
-/
def Spaced (used : Nat) (clock : InvocationDeadline) (budget : AttemptBudget)
    (rounds : List Round) (notes : List Note) : Prop :=
  ∀ before attemptId later,
    notes = before ++ .admitted attemptId :: later
    → before = [.authorized]
      ∨ ∃ earlier wait place round,
          before = earlier ++ [.settled (some wait.error), .waited wait, .authorized]
          ∧ (admittedIds before).length = place + 1
          ∧ wait.failures = used + (place + 1)
          ∧ rounds[place]? = some round
          ∧ wait.Lawful clock budget round

theorem Flown.spaced {session after : RetrySession} (flown : Flown session after attemptId notes)
    (used : Nat) (clock : InvocationDeadline) (budget : AttemptBudget) (rounds : List Round)
    (failure : Option TransportError)
    : Spaced used clock budget rounds notes
      ∧ Spaced used clock budget rounds (notes ++ [.settled failure]) := by
  refine ⟨fun before other later split => .inl (flown.authorized split), ?_⟩
  intro before other later split
  rcases append_split split with ⟨rest, head⟩ | ⟨rest, _, tail⟩
  · exact .inl (flown.authorized head)
  · have member : Note.admitted other ∈ [Note.settled failure] := by
      rw [tail]
      exact List.mem_append_right _ List.mem_cons_self
    simp at member

/-- The attempts of a call are spaced, by induction on its rounds. -/
theorem Sends.spaced {session : RetrySession}
    (sends : Sends call initialAttempts session rounds sending)
    (started : initialAttempts ≤ session.admission.receipt.admittedAttempts)
    : Spaced (session.admission.receipt.admittedAttempts - initialAttempts) session.clock
        session.admission.budget rounds sending.notes := by
  induction sends with
  | exhausted =>
      intro before attemptId later split
      simp at split
  | refused early =>
      intro before attemptId later split
      have member : Note.admitted attemptId ∈ before ++ .admitted attemptId :: later :=
        List.mem_append_right _ List.mem_cons_self
      rw [← split] at member
      rcases early with rfl | rfl <;> simp at member
  | unanswered flown => exact (flown.spaced _ _ _ _ none).1
  | failed flown => exact (flown.spaced _ _ _ _ _).2
  | answered flown => exact (flown.spaced _ _ _ _ _).2
  | abandoned flown => exact (flown.spaced _ _ _ _ _).2
  | @retried session after round rest attemptId notes error wait sending flown waited later ih =>
      have clock : after.clock = session.clock := by rw [flown.same]
      have admitted := flown.admitted
      obtain ⟨same, failures, lawful⟩ := retry_waited waited
      have tail := ih (by omega)
      rw [clock, flown.budget] at lawful tail
      have one : admittedIds (notes ++ [.settled (some error)]) = [attemptId] := by
        rw [admittedIds_append, flown.ids.1]
        rfl
      have waiting (rest : List Note)
          : admittedIds (.waited wait :: rest) = admittedIds rest := rfl
      intro before other later split
      rcases append_split split with ⟨head, eq⟩ | ⟨head, rfl, eq⟩
      · exact (flown.spaced _ _ _ _ _).2 before other head eq
      · cases head with
        | nil => cases (List.cons.inj eq).1
        | cons first head =>
            obtain ⟨rfl, place⟩ := List.cons.inj eq
            refine .inr ?_
            rcases tail head other later place with
              rfl | ⟨earlier, next, turn, late, rfl, count, failed, known, next_lawful⟩
            · refine ⟨notes, wait, 0, round, by simp [same], ?_, by omega, rfl, lawful⟩
              rw [admittedIds_append, one, waiting]
              rfl
            · refine ⟨notes ++ [.settled (some error)] ++ .waited wait :: earlier, next, turn + 1,
                late, by simp, ?_, by omega, known, next_lawful⟩
              rw [admittedIds_append, one, waiting, List.length_append, count,
                List.length_singleton, Nat.add_comm]

end SkillRanker.Jev
