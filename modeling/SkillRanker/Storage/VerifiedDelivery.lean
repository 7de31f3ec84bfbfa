import SkillRanker.Storage.DeliveryEffects

/-! Verified deliveries: which event a delivery key stands for, and that an acknowledged event was
emitted before.
-/

namespace SkillRanker.Storage
open SkillRanker.Library

variable {format : MembersFormat} {ledger after : Ledger}
variable {call : ExposureCall}

-- Events under their identities

/-- The row that a delivery leaves, given the stored one. -/
def NewRankingEvent.written (event : NewRankingEvent) : Option NewRankingEvent → NewRankingEvent
  | none => event
  | some stored => if stored.unfinished then stored.updated event else stored

theorem find?_changed_event (events : Table String NewRankingEvent NewRankingEvent.eventId)
    (eventId sought : String) (change : NewRankingEvent → NewRankingEvent)
    (keeps : ∀ row, (change row).eventId = row.eventId)
    : (events.updateWhere (·.eventId = eventId) change keeps).find? sought
      = if eventId = sought then (events.find? sought).map change else events.find? sought := by
  rw [Table.find?_updateWhere]
  cases found : events.find? sought with
  | none => simp
  | some row =>
      have own := Table.key_of_find? found
      simp only [Option.map_some, own, decide_eq_true_eq, eq_comm (a := sought)]
      split <;> rfl

theorem find?_writtenEvents (event : NewRankingEvent)
    (events : Table String NewRankingEvent NewRankingEvent.eventId) (sought : String)
    : (writtenEvents event events).find? sought
      = if event.eventId = sought then some (event.written (events.find? sought))
        else events.find? sought := by
  unfold writtenEvents NewRankingEvent.written
  split
  · next absent =>
    rw [Table.find?_insert events absent]
    split
    · next own =>
      subst own
      rw [absent]
    · rfl
  · next stored present =>
    split
    · next unfinished =>
      refine (find?_changed_event events event.eventId sought (·.updated event)
        fun _ => rfl).trans ?_
      split
      · next own =>
        subst own
        simp [present, unfinished]
      · rfl
    · next finished =>
      split
      · next own =>
        subst own
        simp [present, finished]
      · rfl

def ExposureCall.eventId : ExposureCall → String
  | deliver delivery => delivery.event.eventId
  | emit eventId _ => eventId
  | acknowledge eventId _ => eventId

theorem find?_setExposure (eventId sought : String) (state : ExposureState)
    : (setExposure eventId state ledger).rankingEvents.find? sought
      = if eventId = sought then
          (ledger.rankingEvents.find? sought).map fun row => { row with exposureState := state }
        else ledger.rankingEvents.find? sought :=
  find?_changed_event _ eventId sought (fun row => { row with exposureState := state })
    fun _ => rfl

theorem find?_setAcknowledged (eventId key sought : String)
    : (setAcknowledged eventId key ledger).rankingEvents.find? sought
      = if eventId = sought then
          (ledger.rankingEvents.find? sought).map fun row =>
            { row with exposureState := .acknowledged, verifiedDeliveryKey := some key }
        else ledger.rankingEvents.find? sought :=
  find?_changed_event _ eventId sought
    (fun row => { row with exposureState := .acknowledged, verifiedDeliveryKey := some key })
    fun _ => rfl

theorem ExposureEffect.other_event (effect : ExposureEffect ledger call after) {sought : String}
    (other : call.eventId ≠ sought)
    : after.rankingEvents.find? sought = ledger.rankingEvents.find? sought := by
  cases effect with
  | @delivered delivery _ written =>
      have different : delivery.event.eventId ≠ sought := other
      rw [written.events, find?_writtenEvents, if_neg different]
  | @emitted eventId _ _ _ found early =>
      have different : eventId ≠ sought := other
      exact (find?_setExposure eventId sought .emitted).trans (if_neg different)
  | @acknowledged eventId key _ _ unused found =>
      have different : eventId ≠ sought := other
      exact (find?_setAcknowledged eventId key sought).trans (if_neg different)

-- Delivery keys

/-- The stored event has the delivery key. -/
def Holds (ledger : Ledger) (eventId key : String) : Prop :=
  ∃ row, ledger.rankingEvents.find? eventId = some row ∧ row.verifiedDeliveryKey = some key

def Reached (ledger : Ledger) (eventId : String) (state : ExposureState) : Prop :=
  ∃ row, ledger.rankingEvents.find? eventId = some row ∧ row.exposureState = state

def UniqueKeys (ledger : Ledger) : Prop :=
  ∀ eventId other key, Holds ledger eventId key → Holds ledger other key → eventId = other

/-- A call that acknowledges nothing but emitted events without a key, or keys that are held
already, and that delivers no event as acknowledged.
-/
def ExposureCall.careful (ledger : Ledger) : ExposureCall → Bool
  | deliver delivery =>
      delivery.event.exposureState ≠ .acknowledged
        || (ledger.rankingEvents.find? delivery.event.eventId).any (!·.unfinished)
  | emit _ _ => true
  | acknowledge eventId key =>
      ledger.rankingEvents.rows.any (·.verifiedDeliveryKey = some key)
        || (ledger.rankingEvents.find? eventId).all fun stored =>
          stored.exposureState = .emitted && stored.verifiedDeliveryKey = none

def carefulRun (format : MembersFormat) : Ledger → List ExposureStep → Bool
  | _, [] => true
  | ledger, step :: rest =>
      (!step.lands ledger || step.call.careful ledger)
        && carefulRun format ((exposureMachine format).next ledger step).1 rest

variable {first later : List ExposureStep}

theorem carefulRun_append (careful : carefulRun format ledger (first ++ later))
    : carefulRun format ledger first
      ∧ carefulRun format ((exposureMachine format).final ledger first) later := by
  induction first generalizing ledger with
  | nil => exact ⟨rfl, careful⟩
  | cons step rest ih =>
      obtain ⟨now, remaining⟩ := Bool.and_eq_true_iff.mp careful
      obtain ⟨before, next⟩ := ih remaining
      exact ⟨Bool.and_eq_true_iff.mpr ⟨now, before⟩, next⟩

-- One call

theorem NewRankingEvent.written_key (event stored : NewRankingEvent)
    : (event.written (some stored)).verifiedDeliveryKey = stored.verifiedDeliveryKey := by
  unfold NewRankingEvent.written
  dsimp only
  split <;> rfl

variable {key : String}

section

variable (effect : ExposureEffect ledger call after)
include effect

/-- A key that is held after a call was held before it, or is new and of the event of the call. -/
theorem ExposureEffect.holds_before {eventId : String} (held : Holds after eventId key)
    : Holds ledger eventId key
      ∨ (eventId = call.eventId ∧ ∀ other, ¬ Holds ledger other key) := by
  obtain ⟨row, found, hasKey⟩ := held
  by_cases own : call.eventId = eventId
  case neg =>
    rw [effect.other_event own] at found
    exact Or.inl ⟨row, found, hasKey⟩
  subst own
  cases effect with
  | @delivered delivery _ written =>
      rw [written.events, find?_writtenEvents] at found
      cases Option.some.inj ((if_pos rfl).symm.trans found)
      cases stored : ledger.rankingEvents.find? delivery.event.eventId with
      | none =>
          have fresh := written.fresh stored
          refine Or.inr ⟨rfl, ?_⟩
          rintro other ⟨present, listed, same⟩
          rcases fresh present (Table.mem_of_find? listed) with none | different
          · rw [none] at same
            cases same
          · have equal := hasKey.symm
            simp only [ExposureCall.eventId, stored] at equal
            exact different (same.trans equal)
      | some before =>
          refine Or.inl ⟨before, stored, ?_⟩
          rw [← delivery.event.written_key before]
          simpa [ExposureCall.eventId, stored] using hasKey
  | @emitted eventId _ stored _ present early =>
      have moved := (find?_setExposure eventId eventId .emitted).symm.trans found
      rw [if_pos rfl, present] at moved
      cases moved
      exact Or.inl ⟨stored, present, hasKey⟩
  | @acknowledged eventId given stored _ unused present =>
      have moved := (find?_setAcknowledged eventId given eventId).symm.trans found
      rw [if_pos rfl, present] at moved
      cases moved
      refine Or.inr ⟨rfl, ?_⟩
      rintro other ⟨row, listed, same⟩
      exact unused row (Table.mem_of_find? listed) (same.trans hasKey.symm)

/-- A careful call forgets no key. -/
theorem ExposureEffect.holds_after (careful : call.careful ledger) {eventId : String}
    (held : Holds ledger eventId key)
    : Holds after eventId key := by
  obtain ⟨row, found, hasKey⟩ := held
  by_cases own : call.eventId = eventId
  case neg =>
    rw [← effect.other_event own] at found
    exact ⟨row, found, hasKey⟩
  subst own
  cases effect with
  | @delivered delivery _ written =>
      refine ⟨delivery.event.written (some row), ?_, ?_⟩
      · have stored : ledger.rankingEvents.find? delivery.event.eventId = some row := found
        rw [written.events, find?_writtenEvents]
        exact (if_pos rfl).trans (by rw [ExposureCall.eventId, stored])
      · rw [NewRankingEvent.written_key, hasKey]
  | @emitted eventId _ stored _ present early =>
      refine ⟨{ row with exposureState := .emitted }, ?_, hasKey⟩
      have stored : ledger.rankingEvents.find? eventId = some row := found
      exact (find?_setExposure eventId eventId .emitted).trans (by rw [if_pos rfl, stored]; rfl)
  | @acknowledged eventId given stored _ unused present =>
      have kept : ledger.rankingEvents.find? eventId = some row := found
      rcases Bool.or_eq_true_iff.mp careful with used | emitted
      · obtain ⟨other, mem, same⟩ := List.any_eq_true.mp used
        exact absurd (of_decide_eq_true same) (unused other mem)
      · rw [kept] at emitted
        simp [hasKey] at emitted

/-- After a careful call an acknowledged event was acknowledged or emitted before. -/
theorem ExposureEffect.emitted_before (careful : call.careful ledger) {eventId : String}
    (reached : Reached after eventId .acknowledged)
    : Reached ledger eventId .acknowledged ∨ Reached ledger eventId .emitted := by
  obtain ⟨row, found, acknowledged⟩ := reached
  by_cases own : call.eventId = eventId
  case neg =>
    rw [effect.other_event own] at found
    exact Or.inl ⟨row, found, acknowledged⟩
  subst own
  cases effect with
  | @delivered delivery _ written =>
      rw [written.events, find?_writtenEvents] at found
      cases Option.some.inj ((if_pos rfl).symm.trans found)
      change (delivery.event.written (ledger.rankingEvents.find? delivery.event.eventId)).exposureState
        = _ at acknowledged
      cases stored : ledger.rankingEvents.find? delivery.event.eventId with
      | none =>
          rw [stored] at acknowledged
          rcases Bool.or_eq_true_iff.mp careful with early | finished
          · exact absurd acknowledged (of_decide_eq_true early)
          · rw [stored] at finished
            cases finished
      | some before =>
          rw [stored] at acknowledged
          cases unfinished : before.unfinished with
          | true =>
              simp only [NewRankingEvent.written, unfinished, if_true] at acknowledged
              rcases Bool.or_eq_true_iff.mp careful with early | finished
              · exact absurd acknowledged (of_decide_eq_true early)
              · rw [stored] at finished
                simp [unfinished] at finished
          | false =>
              simp only [NewRankingEvent.written, unfinished, Bool.false_eq_true, if_false]
                at acknowledged
              exact Or.inl ⟨before, stored, acknowledged⟩
  | @emitted eventId _ stored _ present early =>
      have moved := (find?_setExposure eventId eventId .emitted).symm.trans found
      rw [if_pos rfl, present] at moved
      cases moved
      cases acknowledged
  | @acknowledged eventId given stored _ unused present =>
      rcases Bool.or_eq_true_iff.mp careful with used | emitted
      · obtain ⟨other, mem, same⟩ := List.any_eq_true.mp used
        exact absurd (of_decide_eq_true same) (unused other mem)
      · rw [present] at emitted
        have state := of_decide_eq_true (Bool.and_eq_true_iff.mp emitted).1
        exact Or.inr ⟨stored, present, state⟩

end

-- Runs

variable {steps : List ExposureStep}

/-- A careful run forgets no key and keeps the keys unique, by induction on its steps. -/
theorem carefulRun_keys (careful : carefulRun format ledger steps) (unique : UniqueKeys ledger)
    : UniqueKeys ((exposureMachine format).final ledger steps)
      ∧ ∀ eventId key, Holds ledger eventId key
        → Holds ((exposureMachine format).final ledger steps) eventId key := by
  induction steps generalizing ledger with
  | nil => exact ⟨unique, fun _ _ held => held⟩
  | cons step rest ih =>
      obtain ⟨now, remaining⟩ := Bool.and_eq_true_iff.mp careful
      rw [Machine.final_cons]
      rcases exposure_step format ledger step with same | ⟨lands, effect⟩
      · rw [same] at remaining ⊢
        exact ih remaining unique
      · have calm : step.call.careful ledger := by simpa [lands] using now
        have kept : ∀ eventId key, Holds ledger eventId key
            → Holds ((exposureMachine format).next ledger step).1 eventId key :=
          fun _ _ held => effect.holds_after calm held
        have still : UniqueKeys ((exposureMachine format).next ledger step).1 := by
          intro eventId other key first second
          rcases effect.holds_before first with held | ⟨own, none⟩
          · rcases effect.holds_before second with heldOther | ⟨_, none⟩
            · exact unique eventId other key held heldOther
            · exact absurd held (none eventId)
          · rcases effect.holds_before second with heldOther | ⟨ownOther, _⟩
            · exact absurd heldOther (none other)
            · exact own.trans ownOther.symm
        obtain ⟨last, forever⟩ := ih remaining still
        exact ⟨last, fun eventId key held => forever eventId key (kept eventId key held)⟩

/-- In a careful run an acknowledged event was acknowledged at the start or emitted on the way, by
induction on the last step.
-/
theorem carefulRun_emitted (careful : carefulRun format ledger steps) {eventId : String}
    (reached : Reached ((exposureMachine format).final ledger steps) eventId .acknowledged)
    : Reached ledger eventId .acknowledged
      ∨ ∃ first, first <+: steps
        ∧ Reached ((exposureMachine format).final ledger first) eventId .emitted := by
  induction steps using List.reverseRecOn with
  | nil => exact Or.inl reached
  | append_singleton steps step ih =>
      obtain ⟨before, last⟩ := carefulRun_append careful
      have now := (Bool.and_eq_true_iff.mp last).1
      have earlier (still : Reached ((exposureMachine format).final ledger steps) eventId
          .acknowledged)
          : Reached ledger eventId .acknowledged
            ∨ ∃ first, first <+: steps ++ [step]
              ∧ Reached ((exposureMachine format).final ledger first) eventId .emitted := by
        rcases ih before still with start | ⟨first, within, emitted⟩
        · exact Or.inl start
        · exact Or.inr ⟨first, within.trans (List.prefix_append steps [step]), emitted⟩
      rw [Machine.final_snoc] at reached
      rcases exposure_step format ((exposureMachine format).final ledger steps) step with
        same | ⟨lands, effect⟩
      · rw [same] at reached
        exact earlier reached
      · have calm : step.call.careful ((exposureMachine format).final ledger steps) := by
          simpa [lands] using now
        rcases effect.emitted_before calm reached with still | emitted
        · exact earlier still
        · exact Or.inr ⟨steps, List.prefix_append steps [step], emitted⟩

/-- A key held at two moments of a careful run is held by one event. -/
theorem carefulRun_one_event (careful : carefulRun format ledger later) (unique : UniqueKeys ledger)
    (within : first <+: later) {eventId other : String}
    (held : Holds ((exposureMachine format).final ledger first) eventId key)
    (heldLater : Holds ((exposureMachine format).final ledger later) other key)
    : eventId = other := by
  obtain ⟨between, rfl⟩ := within
  obtain ⟨before, after⟩ := carefulRun_append careful
  obtain ⟨uniqueThen, _⟩ := carefulRun_keys before unique
  obtain ⟨uniqueLater, kept⟩ := carefulRun_keys after uniqueThen
  rw [Machine.final_append] at heldLater
  exact uniqueLater eventId other key (kept eventId key held) heldLater

/-- In a careful run from a new ledger a key is only ever held by one event, and an event is only
acknowledged after it was emitted.
-/
theorem verified_delivery (incarnation : List UInt8) {steps : List ExposureStep}
    (careful : carefulRun format (Ledger.initial incarnation) steps)
    : (∀ first other, first <+: steps → other <+: steps
        → ∀ eventId otherId key,
            Holds ((exposureMachine format).final (Ledger.initial incarnation) first) eventId key
            → Holds ((exposureMachine format).final (Ledger.initial incarnation) other) otherId key
            → eventId = otherId)
      ∧ ∀ first, first <+: steps
        → ∀ eventId,
            Reached ((exposureMachine format).final (Ledger.initial incarnation) first) eventId
              .acknowledged
            → ∃ earlier, earlier <+: first
              ∧ Reached ((exposureMachine format).final (Ledger.initial incarnation) earlier)
                  eventId .emitted := by
  have unique : UniqueKeys (Ledger.initial incarnation) := by
    rintro _ _ _ ⟨row, found, _⟩
    cases found
  have careful_of {part : List ExposureStep} (within : part <+: steps)
      : carefulRun format (Ledger.initial incarnation) part := by
    obtain ⟨rest, rfl⟩ := within
    exact (carefulRun_append careful).1
  refine ⟨?_, ?_⟩
  · intro first other firstWithin otherWithin eventId otherId key held heldOther
    rcases List.prefix_or_prefix_of_prefix firstWithin otherWithin with before | after
    · exact carefulRun_one_event (careful_of otherWithin) unique before held heldOther
    · exact (carefulRun_one_event (careful_of firstWithin) unique after heldOther held).symm
  · intro first within eventId reached
    rcases carefulRun_emitted (careful_of within) reached with ⟨row, found, _⟩ | emitted
    · cases found
    · exact emitted

def preparedEvent (eventId : String) : NewRankingEvent where
  eventId := eventId
  verifiedDeliveryKey := none
  workspaceRoot := "/work"
  sessionId := "session"
  agentBranch := ""
  modeChannel := "hook"
  policyVersion := "v1"
  schemaVersion := 1
  decision := .ranked
  reason := "ranked"
  exposureState := .prepared
  elapsedMs := 40
  createdAtUnixMs := 1000
  inputTokens := none
  outputTokens := none
  snapshotId := none

/-- A call of a writer with the stamp of that generation, which nothing disturbs. -/
def quietStep (dataGeneration : Nat) (call : ExposureCall) : ExposureStep where
  surroundings := { opening := none, commit := .done }
  expected := { incarnation := [7], schemaGeneration := 1, dataGeneration }
  call := call

def delivered (eventId : String) : ExposureCall :=
  .deliver { event := preparedEvent eventId, candidates := [], snapshot := none, attempts := [] }

def noMembers : MembersFormat where
  decode := fun _ => none
  encode := fun _ => ""

def acknowledgedOnce : List ExposureStep :=
  [quietStep 1 (delivered "first"), quietStep 1 (.emit "first" 12),
    quietStep 2 (.acknowledge "first" "key-1"), quietStep 3 (.acknowledge "first" "key-1")]

/-- The acknowledged event was emitted before. -/
theorem acknowledgedOnce_emitted
    : Reached ((exposureMachine noMembers).final (Ledger.initial [7]) acknowledgedOnce) "first"
        .acknowledged
      ∧ ∃ earlier, earlier <+: acknowledgedOnce
        ∧ Reached ((exposureMachine noMembers).final (Ledger.initial [7]) earlier) "first"
            .emitted := by
  have careful : carefulRun noMembers (Ledger.initial [7]) acknowledgedOnce := by decide +kernel
  have last : Reached ((exposureMachine noMembers).final (Ledger.initial [7]) acknowledgedOnce)
      "first" .acknowledged :=
    ⟨_, rfl, rfl⟩
  exact ⟨last, (verified_delivery [7] careful).2 _ (List.prefix_refl _) _ last⟩

/-- Two emitted events: the first is acknowledged with two keys, the second with the first key. -/
def acknowledgedTwice : List ExposureStep :=
  [quietStep 1 (delivered "first"), quietStep 1 (delivered "second"),
    quietStep 1 (.emit "first" 12), quietStep 2 (.emit "second" 12),
    quietStep 3 (.acknowledge "first" "key-1"), quietStep 4 (.acknowledge "first" "key-2"),
    quietStep 5 (.acknowledge "second" "key-1")]

/-- The second key makes the first event forget its key, and the second event takes it. -/
theorem forgotten_key_reused
    : ∃ first, first <+: acknowledgedTwice
      ∧ Holds ((exposureMachine noMembers).final (Ledger.initial [7]) first) "first" "key-1"
      ∧ Holds ((exposureMachine noMembers).final (Ledger.initial [7]) acknowledgedTwice) "second"
          "key-1" := by
  refine ⟨acknowledgedTwice.take 5, List.take_prefix _ _, ?_, ?_⟩
  · exact ⟨_, rfl, rfl⟩
  · exact ⟨_, rfl, rfl⟩

end SkillRanker.Storage
