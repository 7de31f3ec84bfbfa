import SkillRanker.Storage.VerifiedDelivery

/-! The candidates of an event and its decision: whether the rows of one delivery stand beside the
decision of the same one.
-/

namespace SkillRanker.Storage
open SkillRanker.Library

variable {format : MembersFormat} {ledger after : Ledger}
variable {delivery : Delivery} {state : Ledger × Option Delivery}

-- Runs of deliveries

structure DeliveryStep where
  surroundings : Surroundings
  expected : LedgerStamp
  delivery : Delivery

def DeliveryStep.commits (format : MembersFormat) (ledger : Ledger) (step : DeliveryStep) : Bool :=
  step.surroundings.opening = none && step.surroundings.commit ≠ .failed false
    && (do
      step.delivery.request format
      checkStamp ledger step.expected
      step.delivery.body format ledger : Except StoreError (Ending Unit)).isOk

def Delivery.decides (delivery : Delivery) (ledger : Ledger) : Bool :=
  (ledger.rankingEvents.find? delivery.event.eventId).all (·.unfinished)

/-- The ledger, and the last delivery that gave the event its decision. -/
def recording (format : MembersFormat)
    : Machine (Ledger × Option Delivery) DeliveryStep (Except StoreError Unit) where
  next state step :=
    let (after, answer) := recordRankingEventWithAttempts format step.surroundings step.delivery
      step.expected state.1
    let carrier :=
      if step.commits format state.1 && step.delivery.decides state.1 then some step.delivery
      else state.2
    ((after, carrier), answer)

/-- A delivery that is not committed changes nothing, and a committed one has its effect. -/
theorem delivery_step (format : MembersFormat) (step : DeliveryStep) (ledger : Ledger)
    : (step.commits format ledger = false
        ∧ (recordRankingEventWithAttempts format step.surroundings step.delivery step.expected
            ledger).1 = ledger)
      ∨ (step.commits format ledger
        ∧ Delivered step.delivery ledger
            (recordRankingEventWithAttempts format step.surroundings step.delivery step.expected
              ledger).1) := by
  obtain ⟨surroundings, expected, delivery⟩ := step
  cases commits : DeliveryStep.commits format ledger ⟨surroundings, expected, delivery⟩ with
  | false =>
      refine Or.inl ⟨rfl, ?_⟩
      rcases mutate_cases surroundings id id expected (delivery.request format)
        (delivery.body format) ledger with same | ⟨after, value, _, committed⟩
      · exact same
      · have current : checkStamp ledger expected = .ok () := checkStamp_eq_ok.mpr committed.stamp
        simp [DeliveryStep.commits, committed.opened, committed.lasting, committed.request,
          current, committed.body, bind, Except.bind, Except.isOk, Except.toBool] at commits
  | true =>
      refine Or.inr ⟨rfl, ?_⟩
      simp only [DeliveryStep.commits, Bool.and_eq_true, decide_eq_true_eq] at commits
      obtain ⟨⟨opened, lasting⟩, passes⟩ := commits
      obtain ⟨ending, done⟩ := isOk_iff.mp passes
      obtain ⟨_, asked, done⟩ := bind_eq_ok.mp done
      obtain ⟨_, current, done⟩ := bind_eq_ok.mp done
      obtain ⟨after, rfl⟩ := Delivery.body_commits done
      have committed : Committed surroundings expected (delivery.request format)
          (delivery.body format) ledger after () :=
        ⟨opened, lasting, asked, checkStamp_eq_ok.mp current, done⟩
      rw [recordRankingEventWithAttempts, committed.left]
      exact delivered_of_committed committed

-- Rows and decisions

def Delivery.candidate? (delivery : Delivery) (key : String × CandidateStage × String)
    : Option NewRankingCandidate :=
  delivery.candidates.find? fun candidate => candidate.key = key

def DecisionCarried (eventId : String) (state : Ledger × Option Delivery) : Prop :=
  Option.Rel
    (fun row delivery => row.decision = delivery.event.decision
      ∧ row.reason = delivery.event.reason ∧ row.elapsedMs = delivery.event.elapsedMs)
    (state.1.rankingEvents.find? eventId) state.2

def CandidatesFollow (eventId : String) (state : Ledger × Option Delivery) : Prop :=
  ∀ stage skillId, state.1.rankingCandidates.find? (eventId, stage, skillId)
    = state.2.bind (·.candidate? (eventId, stage, skillId))

def DistinctPositions (candidates : List NewRankingCandidate) : Prop :=
  ∀ candidate ∈ candidates, ∀ other ∈ candidates, candidate.stage = other.stage
    → candidate.rankPosition.isSome → candidate.rankPosition = other.rankPosition
    → candidate = other

def eventCandidates (eventId : String) (ledger : Ledger) : List NewRankingCandidate :=
  ledger.rankingCandidates.rows.filter (·.eventId = eventId)

/-- The delivery brings what the candidates of the decision have to be: where it decides, every
stored candidate is its own, and else it brings none that is not stored.
-/
def Delivery.agrees (delivery : Delivery) (ledger : Ledger) : Bool :=
  if delivery.decides ledger then
    (eventCandidates delivery.event.eventId ledger).all fun stored =>
      delivery.candidate? stored.key = some stored
  else
    delivery.candidates.all fun candidate =>
      (ledger.rankingCandidates.find? candidate.key).isSome

/-- A delivery leaves under a key the stored candidate, or else its own. -/
theorem Delivered.candidate (written : Delivered delivery ledger after)
    (key : String × CandidateStage × String)
    : after.rankingCandidates.find? key
      = (ledger.rankingCandidates.find? key).or (delivery.candidate? key) := by
  rw [written.candidates]
  exact Table.find?_foldl_insert _ _ _

theorem mem_eventCandidates {eventId : String} {candidate : NewRankingCandidate}
    : candidate ∈ eventCandidates eventId ledger
      ↔ candidate.eventId = eventId
        ∧ ledger.rankingCandidates.find? candidate.key = some candidate := by
  simp [eventCandidates, Table.mem_rows_iff, and_comm]

/-- The rows still follow after a delivery that decides exactly if what is stored is its own. -/
theorem follow_decided (written : Delivered delivery ledger after)
    : CandidatesFollow delivery.event.eventId (after, some delivery)
      ↔ ∀ stored ∈ eventCandidates delivery.event.eventId ledger,
          delivery.candidate? stored.key = some stored := by
  refine ⟨?_, ?_⟩
  · intro follow stored mem
    obtain ⟨own, found⟩ := mem_eventCandidates.mp mem
    have place : stored.key = (delivery.event.eventId, stored.stage, stored.skillId) := by
      rw [← own]
      rfl
    have same := follow stored.stage stored.skillId
    rw [← place, written.candidate, found] at same
    exact same.symm
  · intro owned stage skillId
    change after.rankingCandidates.find? _ = delivery.candidate? _
    rw [written.candidate]
    cases found : ledger.rankingCandidates.find? (delivery.event.eventId, stage, skillId) with
    | none => rfl
    | some stored =>
        have place := Table.key_of_find? found
        have own : stored.eventId = delivery.event.eventId := congrArg Prod.fst place
        have mem := mem_eventCandidates.mpr ⟨own, by rw [place, found]⟩
        rw [← place, owned stored mem]
        rfl

/-- They still follow after another delivery exactly if it brings nothing new. -/
theorem follow_kept {carrier : Option Delivery} (written : Delivered delivery ledger after)
    (before : CandidatesFollow delivery.event.eventId (ledger, carrier))
    : CandidatesFollow delivery.event.eventId (after, carrier)
      ↔ ∀ candidate ∈ delivery.candidates,
          (ledger.rankingCandidates.find? candidate.key).isSome := by
  refine ⟨?_, ?_⟩
  · intro follow candidate mem
    have own := written.named candidate mem
    have place : candidate.key = (delivery.event.eventId, candidate.stage, candidate.skillId) := by
      rw [← own]
      rfl
    have same := (follow candidate.stage candidate.skillId).trans
      (before candidate.stage candidate.skillId).symm
    rw [← place] at same
    change after.rankingCandidates.find? _ = ledger.rankingCandidates.find? _ at same
    rw [← same, written.candidate]
    have brought : (delivery.candidate? candidate.key).isSome := by
      rw [Delivery.candidate?, List.find?_isSome]
      exact ⟨candidate, mem, by simp⟩
    cases ledger.rankingCandidates.find? candidate.key with
    | none => exact brought
    | some stored => rfl
  · intro known stage skillId
    rw [← before stage skillId]
    change after.rankingCandidates.find? _ = ledger.rankingCandidates.find? _
    rw [written.candidate]
    cases found : ledger.rankingCandidates.find? (delivery.event.eventId, stage, skillId) with
    | some stored => rfl
    | none =>
        have none : delivery.candidate? (delivery.event.eventId, stage, skillId) = none := by
          rw [Delivery.candidate?, List.find?_eq_none]
          intro candidate mem same
          have present := known candidate mem
          rw [of_decide_eq_true same, found] at present
          cases present
        rw [none]
        rfl

-- One step

theorem written_decides (decides : delivery.decides ledger)
    : (delivery.event.written
          (ledger.rankingEvents.find? delivery.event.eventId)).decision = delivery.event.decision
      ∧ (delivery.event.written
          (ledger.rankingEvents.find? delivery.event.eventId)).reason = delivery.event.reason
      ∧ (delivery.event.written
          (ledger.rankingEvents.find? delivery.event.eventId)).elapsedMs
        = delivery.event.elapsedMs := by
  unfold Delivery.decides at decides
  cases found : ledger.rankingEvents.find? delivery.event.eventId with
  | none => exact ⟨rfl, rfl, rfl⟩
  | some stored =>
      have unfinished : stored.unfinished := by simpa [found] using decides
      simp [NewRankingEvent.written, unfinished, NewRankingEvent.updated]

/-- The event keeps having the decision of the delivery that is said to carry it. -/
theorem decisionCarried_next (step : DeliveryStep)
    (carried : DecisionCarried step.delivery.event.eventId state)
    : DecisionCarried step.delivery.event.eventId ((recording format).next state step).1 := by
  obtain ⟨ledger, carrier⟩ := state
  unfold DecisionCarried recording
  dsimp only
  rcases delivery_step format step ledger with ⟨commits, same⟩ | ⟨commits, written⟩
  · rw [same, commits]
    exact carried
  · rw [commits, Bool.true_and, written.events, find?_writtenEvents, if_pos rfl]
    cases decides : step.delivery.decides ledger with
    | true => exact .some (written_decides decides)
    | false =>
        unfold Delivery.decides at decides
        unfold DecisionCarried at carried
        cases found : ledger.rankingEvents.find? step.delivery.event.eventId with
        | none =>
            rw [found] at decides
            cases decides
        | some stored =>
            have finished : stored.unfinished = false := by simpa [found] using decides
            rw [found] at carried
            simpa [NewRankingEvent.written, finished] using carried

/-- The candidates keep following exactly if a delivery that is committed agrees with them. -/
theorem candidatesFollow_next (step : DeliveryStep)
    (before : CandidatesFollow step.delivery.event.eventId state)
    : CandidatesFollow step.delivery.event.eventId ((recording format).next state step).1
      ↔ (step.commits format state.1 → step.delivery.agrees state.1) := by
  obtain ⟨ledger, carrier⟩ := state
  unfold recording Delivery.agrees
  dsimp only
  rcases delivery_step format step ledger with ⟨commits, same⟩ | ⟨commits, written⟩
  · rw [same, commits]
    exact ⟨fun _ => nofun, fun _ => before⟩
  · rw [commits, Bool.true_and]
    cases decides : step.delivery.decides ledger with
    | true => simpa using follow_decided written
    | false => simpa using follow_kept written before

/-- Candidates that follow a delivery have distinct positions if those of the delivery have. -/
theorem distinctPositions_of_follow {eventId : String} (follow : CandidatesFollow eventId state)
    (distinct : ∀ delivery ∈ state.2, DistinctPositions delivery.candidates)
    : DistinctPositions (eventCandidates eventId state.1) := by
  have supplied : ∀ candidate ∈ eventCandidates eventId state.1,
      ∃ delivery ∈ state.2, candidate ∈ delivery.candidates := by
    intro candidate mem
    obtain ⟨own, found⟩ := mem_eventCandidates.mp mem
    have same := follow candidate.stage candidate.skillId
    have place : candidate.key = (eventId, candidate.stage, candidate.skillId) := by
      rw [← own]
      rfl
    rw [← place, found] at same
    obtain ⟨delivery, carrier, brought⟩ := Option.bind_eq_some_iff.mp same.symm
    exact ⟨delivery, carrier, List.mem_of_find?_eq_some brought⟩
  intro candidate mem other otherMem stage positioned position
  obtain ⟨delivery, carrier, listed⟩ := supplied candidate mem
  obtain ⟨same, carrierToo, otherListed⟩ := supplied other otherMem
  cases Option.some.inj (carrier.symm.trans carrierToo)
  exact distinct delivery carrier candidate listed other otherListed stage positioned position

-- Runs

/-- What a run carries is the delivery of one of its steps, by induction on the last step. -/
theorem carrier_mem {start : Ledger} {steps : List DeliveryStep}
    (carrier : delivery ∈ ((recording format).final (start, none) steps).2)
    : ∃ step ∈ steps, step.delivery = delivery := by
  induction steps using List.reverseRecOn with
  | nil => cases carrier
  | append_singleton steps step ih =>
      rw [Machine.final_snoc] at carrier
      unfold recording at carrier
      dsimp only at carrier
      split at carrier
      · cases carrier
        exact ⟨step, by simp, rfl⟩
      · obtain ⟨earlier, mem, same⟩ := ih carrier
        exact ⟨earlier, by simp [mem], same⟩

/-- The deliveries of one event. In every state the event has the decision of the delivery that
carries it; and its candidates are those of that delivery in every state, with distinct positions,
exactly if every committed delivery agrees with the candidates it finds.
-/
theorem candidates_follow_iff {start : Ledger} {eventId : String}
    (absent : start.rankingEvents.find? eventId = none)
    (bare : eventCandidates eventId start = []) {steps : List DeliveryStep}
    (own : ∀ step ∈ steps, step.delivery.event.eventId = eventId)
    (distinct : ∀ step ∈ steps, DistinctPositions step.delivery.candidates)
    : (∀ first, first <+: steps
        → DecisionCarried eventId ((recording format).final (start, none) first))
      ∧ ((∀ first, first <+: steps
          → CandidatesFollow eventId ((recording format).final (start, none) first)
            ∧ DistinctPositions
                (eventCandidates eventId ((recording format).final (start, none) first).1))
        ↔ ∀ first step, first ++ [step] <+: steps
          → step.commits format ((recording format).final (start, none) first).1
          → step.delivery.agrees ((recording format).final (start, none) first).1) := by
  have part {first : List DeliveryStep} {step : DeliveryStep}
      (within : first ++ [step] <+: steps)
      : first <+: steps ∧ step.delivery.event.eventId = eventId :=
    ⟨(List.prefix_append first [step]).trans within,
      own step (within.subset (by simp))⟩
  refine ⟨?_, ?_, ?_⟩
  · intro first within
    induction first using List.reverseRecOn with
    | nil =>
        unfold DecisionCarried
        rw [Machine.final_nil, absent]
        exact .none
    | append_singleton first step ih =>
        obtain ⟨before, rfl⟩ := part within
        rw [Machine.final_snoc]
        exact decisionCarried_next step (ih before)
  · intro follow first step within commits
    obtain ⟨before, rfl⟩ := part within
    have after := (follow _ within).1
    rw [Machine.final_snoc] at after
    exact (candidatesFollow_next step (follow first before).1).mp after commits
  · intro agrees first within
    have follow : CandidatesFollow eventId ((recording format).final (start, none) first) := by
      induction first using List.reverseRecOn with
      | nil =>
          intro stage skillId
          change start.rankingCandidates.find? _ = none
          rw [← Option.not_isSome_iff_eq_none]
          intro present
          obtain ⟨candidate, found⟩ := Option.isSome_iff_exists.mp present
          have place := Table.key_of_find? found
          have mem := mem_eventCandidates.mpr ⟨congrArg Prod.fst place, by rw [place, found]⟩
          rw [bare] at mem
          cases mem
      | append_singleton first step ih =>
          obtain ⟨before, rfl⟩ := part within
          rw [Machine.final_snoc]
          exact (candidatesFollow_next step (ih before)).mpr (agrees first step within)
    refine ⟨follow, distinctPositions_of_follow follow ?_⟩
    intro delivery carrier
    obtain ⟨step, mem, rfl⟩ := carrier_mem carrier
    exact distinct step (within.subset mem)

def firstCandidate (skillId : String) : NewRankingCandidate where
  eventId := "first"
  stage := .rerank
  skillId := skillId
  skillVersion := "1"
  rawProbability := none
  normalizedProbability := none
  fitScore := none
  rankScore := none
  rankPosition := some 1
  excluded := false
  exclusionReason := none

def deliveryOf (state : ExposureState) (candidates : List NewRankingCandidate) : DeliveryStep where
  surroundings := { opening := none, commit := .done }
  expected := { incarnation := [7], schemaGeneration := 1, dataGeneration := 1 }
  delivery := {
    event := { preparedEvent "first" with exposureState := state }
    candidates := candidates
    snapshot := none
    attempts := []
  }

def finishedRun : List DeliveryStep :=
  [deliveryOf .generated [], deliveryOf .prepared [firstCandidate "rust"]]

theorem distinctPositions_single (candidate : NewRankingCandidate)
    : DistinctPositions [candidate] := by
  intro one first other second _ _ _
  rw [List.mem_singleton.mp first, List.mem_singleton.mp second]

/-- The candidates of a finished invocation follow its decision. -/
theorem finishedRun_follows
    : CandidatesFollow "first"
        ((recording noMembers).final (Ledger.initial [7], none) finishedRun) := by
  refine (((candidates_follow_iff rfl rfl ?_ ?_).2.mpr ?_) finishedRun (List.prefix_refl _)).1
  · simp [finishedRun, deliveryOf, preparedEvent]
  · intro step mem
    rcases List.mem_cons.mp mem with rfl | mem
    · intro candidate listed
      cases listed
    · cases List.mem_singleton.mp mem
      exact distinctPositions_single _
  · intro first step within _
    change _ <+: [deliveryOf .generated []] ++ [_] at within
    rcases List.prefix_concat_iff.mp within with same | before
    · obtain ⟨rfl, last⟩ := List.append_inj' same rfl
      cases List.cons.inj last |>.1
      decide +kernel
    · change _ <+: [] ++ [_] at before
      rcases List.prefix_concat_iff.mp before with same | none
      · obtain ⟨rfl, last⟩ := List.append_inj' same rfl
        cases List.cons.inj last |>.1
        decide +kernel
      · simp at none

/-- The same turn is delivered twice, with different rankings. -/
def repeatedRun : List DeliveryStep :=
  [deliveryOf .prepared [firstCandidate "rust"], deliveryOf .prepared [firstCandidate "lean"]]

/-- The second delivery does not change the decision, but two candidates are now the first. -/
theorem repeatedRun_mixes
    : (∀ step ∈ repeatedRun, step.delivery.event.eventId = "first"
        ∧ DistinctPositions step.delivery.candidates)
      ∧ ¬ CandidatesFollow "first"
          ((recording noMembers).final (Ledger.initial [7], none) repeatedRun)
      ∧ ¬ DistinctPositions (eventCandidates "first"
          ((recording noMembers).final (Ledger.initial [7], none) repeatedRun).1) := by
  refine ⟨?_, ?_, ?_⟩
  · intro step mem
    rcases List.mem_cons.mp mem with rfl | mem
    · exact ⟨rfl, distinctPositions_single _⟩
    · cases List.mem_singleton.mp mem
      exact ⟨rfl, distinctPositions_single _⟩
  · intro follow
    have lean := follow .rerank "lean"
    revert lean
    decide +kernel
  · intro distinct
    have same := distinct (firstCandidate "rust") (by decide +kernel) (firstCandidate "lean")
      (by decide +kernel) rfl rfl rfl
    revert same
    decide +kernel

end SkillRanker.Storage
