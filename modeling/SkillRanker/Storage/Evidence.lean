import SkillRanker.Storage.DeliveryEffects
import SkillRanker.Storage.Observations

/-! The evidence of observations over runs of batches: what replays and overlaps can change. -/

namespace SkillRanker.Storage
open SkillRanker.Library

variable {order : LatestFirst} {attribution : ObservationAttribution} {ledger after : Ledger}

-- Rows of source events

/-- The row of a source event. -/
def sourceRow (ledger : Ledger) (sourceEventKey : String) : Option NewObservation :=
  ledger.observations.rows.find? (·.sourceEventKey = sourceEventKey)

/-- No source event has two rows. -/
def UniqueSources (ledger : Ledger) : Prop :=
  ∀ row ∈ ledger.observations.rows, ∀ other ∈ ledger.observations.rows,
    row.sourceEventKey = other.sourceEventKey → row = other

/-- What a write leaves of the row of its source event. -/
def NewObservation.merged (row : NewObservation) : Option NewObservation → NewObservation
  | none => row
  | some stored => if stored.upgradedBy row then stored.upgraded row else stored

structure ObservationWritten (order : LatestFirst) (attribution : ObservationAttribution)
    (observation : NewObservation) (ledger after : Ledger)
    : Prop where
  checks : (attributed order attribution ledger observation).checks
  others : ∃ observations, after = { ledger with observations := observations }
  rows : ∀ key, sourceRow after key
    = if observation.sourceEventKey = key then
        some ((attributed order attribution ledger observation).merged (sourceRow ledger key))
      else sourceRow ledger key
  unique : UniqueSources ledger → UniqueSources after
  settled : (∃ stored, sourceRow ledger observation.sourceEventKey = some stored
      ∧ stored.upgradedBy observation = false)
    → after = ledger

/-- The row of a source event after a change of the rows of one. -/
theorem sourceRow_update (sourceEventKey key : String) (change : NewObservation → NewObservation)
    (keeps : ∀ row, (change row).observationId = row.observationId)
    (keepsSource : ∀ row, (change row).sourceEventKey = row.sourceEventKey)
    : sourceRow { ledger with
        observations := ledger.observations.updateWhere (·.sourceEventKey = sourceEventKey) change
          keeps } key
      = if sourceEventKey = key then (sourceRow ledger key).map change
        else sourceRow ledger key := by
  change (ledger.observations.rows.map _).find? _ = _
  have same : ((fun row : NewObservation => decide (row.sourceEventKey = key))
        ∘ fun row => if decide (row.sourceEventKey = sourceEventKey) then change row else row)
      = fun row => decide (row.sourceEventKey = key) := by
    funext row
    by_cases own : row.sourceEventKey = sourceEventKey <;> simp [own, keepsSource]
  rw [List.find?_map, same]
  unfold sourceRow
  cases found : ledger.observations.rows.find? (·.sourceEventKey = key) with
  | none => simp
  | some row =>
      have own : row.sourceEventKey = key := by simpa using List.find?_some found
      simp only [Option.map_some, own, decide_eq_true_eq, eq_comm (a := key)]
      split <;> rfl

variable {row : NewObservation}

/-- The row of a source event after an insertion of the first row of one. -/
theorem sourceRow_insert (fresh : ledger.observations.find? row.observationId = none) (key : String)
    : sourceRow { ledger with observations := ledger.observations.insert row } key
      = (sourceRow ledger key).or (if row.sourceEventKey = key then some row else none) := by
  change (ledger.observations.insert row).rows.find? _ = _
  rw [Table.insert, dif_pos fresh]
  change (ledger.observations.rows ++ [row]).find? _ = _
  rw [List.find?_append]
  congr 1
  by_cases own : row.sourceEventKey = key
  · rw [if_pos own, List.find?_cons_of_pos (by simpa using own)]
  · rw [if_neg own, List.find?_cons_of_neg (by simpa using own), List.find?_nil]

variable {observation stored : NewObservation}

/-- An observation with the same evidence upgrades no row that it does not upgrade. -/
theorem upgradedBy_attributed
    : stored.upgradedBy (attributed order attribution ledger observation)
      = stored.upgradedBy observation := rfl

/-- The write of an observation, if it succeeds, merges it into the row of its source event. -/
theorem writeObservation_written
    (done : writeObservation order attribution ledger observation = .ok after)
    : ObservationWritten order attribution observation ledger after := by
  unfold writeObservation at done
  obtain ⟨_, passed, done⟩ := bind_eq_ok.mp done
  have checks := ensure_eq_ok.mp passed
  have source
      : ledger.observations.rows.find?
          (·.sourceEventKey = (attributed order attribution ledger observation).sourceEventKey)
        = sourceRow ledger observation.sourceEventKey := rfl
  rw [source] at done
  cases found : sourceRow ledger observation.sourceEventKey with
  | some stored =>
      rw [found] at done
      dsimp only at done
      have own {key : String} (same : observation.sourceEventKey = key)
          : sourceRow ledger key = some stored := same ▸ found
      split at done
      · next upgrades =>
        cases pure_eq_ok.mp done
        refine ⟨checks, ⟨_, rfl⟩, ?_, ?_, ?_⟩
        · intro key
          refine (sourceRow_update observation.sourceEventKey key
            (·.upgraded (attributed order attribution ledger observation)) (fun _ => rfl)
            fun _ => rfl).trans ?_
          split
          · next same =>
            rw [own same, NewObservation.merged, Option.map_some]
            exact congrArg some (if_pos upgrades).symm
          · rfl
        · intro unique row mem other otherMem same
          obtain ⟨before, listed, rfl⟩ := List.mem_map.mp mem
          obtain ⟨beforeOther, listedOther, rfl⟩ := List.mem_map.mp otherMem
          have keys : before.sourceEventKey = beforeOther.sourceEventKey := by
            split at same <;> split at same <;> exact same
          rw [unique before listed beforeOther listedOther keys]
        · rintro ⟨present, again, settled⟩
          cases Option.some.inj (found.symm.trans again)
          rw [upgradedBy_attributed, settled] at upgrades
          cases upgrades
      · next keeps =>
        cases pure_eq_ok.mp done
        refine ⟨checks, ⟨_, rfl⟩, ?_, id, fun _ => rfl⟩
        intro key
        split
        · next same =>
          rw [own same, NewObservation.merged]
          exact congrArg some (if_neg keeps).symm
        · rfl
  | none =>
      rw [found] at done
      obtain ⟨_, fresh, done⟩ := bind_eq_ok.mp done
      obtain ⟨_, _, done⟩ := bind_eq_ok.mp done
      cases pure_eq_ok.mp done
      have unused := ensure_eq_ok.mp fresh
      refine ⟨checks, ⟨_, rfl⟩, ?_, ?_, ?_⟩
      · intro key
        refine (sourceRow_insert unused key).trans ?_
        change (sourceRow ledger key).or (if observation.sourceEventKey = key then _ else _) = _
        split
        · next same =>
          rw [← same, found]
          rfl
        · rw [Option.or_none]
      · intro unique row mem other otherMem same
        have absent (present : NewObservation) (listed : present ∈ ledger.observations.rows)
            : present.sourceEventKey ≠ observation.sourceEventKey := by
          simpa using List.find?_eq_none.mp found present listed
        rcases ledger.observations.mem_insert.mp mem with listed | ⟨rfl, _⟩
        · rcases ledger.observations.mem_insert.mp otherMem with listedOther | ⟨rfl, _⟩
          · exact unique row listed other listedOther same
          · exact absurd same (absent row listed)
        · rcases ledger.observations.mem_insert.mp otherMem with listedOther | ⟨rfl, _⟩
          · exact absurd same.symm (absent other listedOther)
          · rfl
      · rintro ⟨present, again, _⟩
        cases found.symm.trans again

-- Kept rows

/-- A row has stayed as it was, or the attempt it recorded has turned out a load. Its identity and
its attribution are the same.
-/
inductive EvidenceKept (row : NewObservation) : NewObservation → Prop
  | same : EvidenceKept row row
  | loaded (observation : NewObservation) (attempted : row.evidenceState = .attempted)
      (loaded : observation.evidenceState = .loaded)
    : EvidenceKept row (row.upgraded observation)

variable {later : NewObservation}

/-- A load is never changed again, so at most one of two changes is one. -/
theorem EvidenceKept.trans {between : NewObservation} (first : EvidenceKept row between)
    (second : EvidenceKept between later)
    : EvidenceKept row later := by
  cases second with
  | same => exact first
  | loaded observation attempted loaded =>
      cases first with
      | same => exact .loaded observation attempted loaded
      | loaded other _ already =>
          rw [NewObservation.upgraded, already] at attempted
          cases attempted

theorem states_of_upgradedBy (upgrades : stored.upgradedBy observation)
    : stored.evidenceState = .attempted ∧ observation.evidenceState = .loaded := by
  simp only [NewObservation.upgradedBy, Bool.and_eq_true, decide_eq_true_eq] at upgrades
  exact ⟨upgrades.1.1.1.1.1.1.1, upgrades.1.1.1.1.1.1.2⟩

theorem evidenceKept_merged (stored row : NewObservation)
    : EvidenceKept stored (row.merged (some stored)) := by
  unfold NewObservation.merged
  dsimp only
  split
  · next upgrades =>
    obtain ⟨attempted, loaded⟩ := states_of_upgradedBy upgrades
    exact .loaded row attempted loaded
  · exact .same

def RowsKept (ledger after : Ledger) : Prop :=
  ∀ key row, sourceRow ledger key = some row
    → ∃ later, sourceRow after key = some later ∧ EvidenceKept row later

theorem RowsKept.of_eq (same : after.observations = ledger.observations)
    : RowsKept ledger after := by
  intro key row found
  exact ⟨row, by rw [sourceRow, same]; exact found, .same⟩

variable {between : Ledger}

theorem RowsKept.trans (first : RowsKept ledger between) (second : RowsKept between after)
    : RowsKept ledger after := by
  intro key row found
  obtain ⟨middle, present, kept⟩ := first key row found
  obtain ⟨later, last, keptLater⟩ := second key middle present
  exact ⟨later, last, kept.trans keptLater⟩

theorem ObservationWritten.kept
    (written : ObservationWritten order attribution observation ledger after)
    : RowsKept ledger after := by
  intro key row found
  have here := written.rows key
  split at here
  · rw [found] at here
    exact ⟨_, here, evidenceKept_merged row _⟩
  · exact ⟨row, here.trans found, .same⟩

-- Settled observations

/-- The row of the observation is there, and the observation says nothing new about it. -/
def SettledBy (ledger : Ledger) (observation : NewObservation) : Prop :=
  ∃ stored, sourceRow ledger observation.sourceEventKey = some stored
    ∧ stored.upgradedBy observation = false

/-- A row that an observation does not upgrade is never upgraded by it later. -/
theorem EvidenceKept.upgradedBy_eq_false (kept : EvidenceKept row later)
    (settled : row.upgradedBy observation = false)
    : later.upgradedBy observation = false := by
  cases kept with
  | same => exact settled
  | loaded other _ loaded =>
      rw [Bool.eq_false_iff]
      intro upgrades
      have attempted := (states_of_upgradedBy upgrades).1
      rw [NewObservation.upgraded, loaded] at attempted
      cases attempted

theorem SettledBy.kept (settled : SettledBy ledger observation) (kept : RowsKept ledger after)
    : SettledBy after observation := by
  obtain ⟨stored, found, nothing⟩ := settled
  obtain ⟨later, present, stays⟩ := kept _ stored found
  exact ⟨later, present, stays.upgradedBy_eq_false nothing⟩

theorem ObservationWritten.settles
    (written : ObservationWritten order attribution observation ledger after)
    : SettledBy after observation := by
  have here := written.rows observation.sourceEventKey
  rw [if_pos rfl] at here
  refine ⟨_, here, ?_⟩
  rw [Bool.eq_false_iff]
  intro upgrades
  obtain ⟨attempted, loaded⟩ := states_of_upgradedBy upgrades
  cases found : sourceRow ledger observation.sourceEventKey with
  | none =>
      rw [found] at attempted
      cases attempted.symm.trans loaded
  | some stored =>
      rw [found] at attempted upgrades
      unfold NewObservation.merged at attempted upgrades
      dsimp only at attempted upgrades
      split at attempted
      · cases attempted.symm.trans loaded
      · next keeps =>
        rw [if_neg keeps] at upgrades
        exact keeps upgrades

-- Origins

structure RowOf (order : LatestFirst) (attribution : ObservationAttribution) (ledger : Ledger)
    (observation row : NewObservation)
    : Prop where
  observationId : row.observationId = observation.observationId
  sourceEventKey : row.sourceEventKey = observation.sourceEventKey
  workspaceRoot : row.workspaceRoot = observation.workspaceRoot
  sessionId : row.sessionId = observation.sessionId
  agentBranch : row.agentBranch = observation.agentBranch
  skillId : row.skillId = observation.skillId
  attribution
    : row.attributedEventId = attributedEvent order attribution ledger observation
  inserted : fitsColumn observation.observedAtUnixMs

theorem RowOf.kept (origin : RowOf order attribution ledger observation row)
    (kept : EvidenceKept row later)
    : RowOf order attribution ledger observation later := by
  cases kept with
  | same => exact origin
  | loaded other _ _ =>
      exact ⟨origin.observationId, origin.sourceEventKey, origin.workspaceRoot, origin.sessionId,
        origin.agentBranch, origin.skillId, origin.attribution, origin.inserted⟩

/-- A ledger with the same events and candidates as another, whatever it has observed. -/
structure SameEmissions (ledger after : Ledger) : Prop where
  events : after.rankingEvents = ledger.rankingEvents
  candidates : after.rankingCandidates = ledger.rankingCandidates

theorem SameEmissions.refl (ledger : Ledger) : SameEmissions ledger ledger := ⟨rfl, rfl⟩

theorem SameEmissions.trans (first : SameEmissions ledger between)
    (second : SameEmissions between after)
    : SameEmissions ledger after :=
  ⟨second.events.trans first.events, second.candidates.trans first.candidates⟩

theorem attributedEvent_eq (same : SameEmissions ledger after) (observation : NewObservation)
    : attributedEvent order attribution after observation
      = attributedEvent order attribution ledger observation := by
  unfold attributedEvent inferredEvent emissionsBefore published
  rw [same.events, same.candidates]

/-- Every row of a ledger was there before, or is of one of the observations. -/
def Originated (order : LatestFirst) (attribution : ObservationAttribution)
    (observations : List NewObservation) (ledger after : Ledger)
    : Prop :=
  ∀ key row, sourceRow after key = some row
    → (∃ stored, sourceRow ledger key = some stored)
      ∨ ∃ observation ∈ observations, RowOf order attribution ledger observation row

theorem ObservationWritten.originated
    (written : ObservationWritten order attribution observation ledger after)
    : Originated order attribution [observation] ledger after := by
  intro key row found
  cases before : sourceRow ledger key with
  | some stored => exact Or.inl ⟨stored, rfl⟩
  | none =>
      have here := written.rows key
      split at here
      · rw [before, found] at here
        cases here
        have checks := written.checks
        simp only [NewObservation.checks, Bool.and_eq_true] at checks
        exact Or.inr ⟨observation, List.mem_singleton_self _, rfl, rfl, rfl, rfl, rfl, rfl, rfl,
          checks.2⟩
      · rw [found, before] at here
        cases here

-- Batches

structure ObservationsWritten (order : LatestFirst) (attribution : ObservationAttribution)
    (observations : List NewObservation) (ledger after : Ledger)
    : Prop where
  emissions : SameEmissions ledger after
  kept : RowsKept ledger after
  unique : UniqueSources ledger → UniqueSources after
  settles : ∀ observation ∈ observations, SettledBy after observation
  settled : (∀ observation ∈ observations, SettledBy ledger observation)
    → after.observations = ledger.observations
  originated : Originated order attribution observations ledger after

variable {observations : List NewObservation}

theorem observations_written
    (done : observations.foldlM (writeObservation order attribution) ledger = .ok after)
    : ObservationsWritten order attribution observations ledger after := by
  induction observations generalizing ledger with
  | nil =>
      cases pure_eq_ok.mp done
      refine ⟨.refl _, .of_eq rfl, id, ?_, fun _ => rfl, ?_⟩
      · intro _ mem
        cases mem
      · intro key row found
        exact Or.inl ⟨row, found⟩
  | cons observation rest ih =>
      rw [List.foldlM_cons] at done
      obtain ⟨between, first, done⟩ := bind_eq_ok.mp done
      have written := writeObservation_written first
      have others := ih done
      have same : SameEmissions ledger between := by
        obtain ⟨_, rfl⟩ := written.others
        exact ⟨rfl, rfl⟩
      refine ⟨same.trans others.emissions, written.kept.trans others.kept,
        others.unique ∘ written.unique, ?_, ?_, ?_⟩
      · intro listed mem
        rcases List.mem_cons.mp mem with rfl | mem
        · exact written.settles.kept others.kept
        · exact others.settles listed mem
      · intro settled
        have unchanged := written.settled (settled observation List.mem_cons_self)
        subst unchanged
        exact others.settled fun listed mem => settled listed (List.mem_cons_of_mem _ mem)
      · intro key row found
        rcases others.originated key row found with ⟨stored, present⟩ | ⟨listed, mem, origin⟩
        · rcases written.originated key stored present with there | ⟨_, one, origin⟩
          · exact Or.inl there
          · cases List.mem_singleton.mp one
            obtain ⟨later, last, kept⟩ := others.kept key stored present
            cases Option.some.inj (found.symm.trans last)
            exact Or.inr ⟨observation, List.mem_cons_self, origin.kept kept⟩
        · refine Or.inr ⟨listed, List.mem_cons_of_mem _ mem, ?_⟩
          exact { origin with attribution := origin.attribution.trans (attributedEvent_eq same _) }

/-- What is written of a batch besides its observations changes none of them. -/
theorem ObservationsWritten.of_eq
    (written : ObservationsWritten order attribution observations ledger between)
    (emissions : SameEmissions between after) (same : after.observations = between.observations)
    : ObservationsWritten order attribution observations ledger after := by
  have kept : RowsKept between after := .of_eq same
  refine ⟨written.emissions.trans emissions, written.kept.trans kept, ?_,
    fun observation mem => (written.settles observation mem).kept kept,
    fun settled => same.trans (written.settled settled), ?_⟩
  · intro unique
    have uniqueThen := written.unique unique
    unfold UniqueSources
    rw [same]
    exact uniqueThen
  · intro key row found
    rw [sourceRow, same] at found
    exact written.originated key row found

theorem writeCursor_eq {cursor : SessionCursor} (done : writeCursor cursor ledger = .ok after)
    : ∃ cursors, after = { ledger with sessionCursors := cursors } := by
  unfold writeCursor at done
  obtain ⟨_, _, done⟩ := bind_eq_ok.mp done
  split at done
  all_goals
    cases pure_eq_ok.mp done
    exact ⟨_, rfl⟩

theorem batch_effect {batch : ObservationBatch} {expected : LedgerStamp} {ending : Ending Unit}
    (done : batch.body order expected ledger = .ok ending)
    : ∃ after, ending = .commit after ()
      ∧ ObservationsWritten order batch.attribution batch.observations ledger after := by
  unfold ObservationBatch.body at done
  obtain ⟨_, _, done⟩ := bind_eq_ok.mp done
  obtain ⟨observed, first, done⟩ := bind_eq_ok.mp done
  obtain ⟨moved, second, done⟩ := bind_eq_ok.mp done
  obtain ⟨last, third, done⟩ := bind_eq_ok.mp done
  cases pure_eq_ok.mp done
  obtain ⟨cursors, rfl⟩ := writeCursor_eq second
  cases advanceGeneration_eq third
  exact ⟨_, rfl, (observations_written first).of_eq ⟨rfl, rfl⟩ rfl⟩

/-- A step writes its batch, or it changes nothing and fails. -/
theorem observing_step (order : LatestFirst) (ledger : Ledger) (step : ObservationStep)
    : ObservationsWritten order step.batch.attribution step.batch.observations ledger
        ((observing order).next ledger step).1
      ∨ (((observing order).next ledger step).1 = ledger
        ∧ ((observing order).next ledger step).2 ≠ .ok ()) := by
  obtain ⟨surroundings, expected, batch⟩ := step
  have written : ∀ after value, Committed surroundings expected (pure ())
      (batch.body order expected) ledger after value
      → ObservationsWritten order batch.attribution batch.observations ledger after := by
    intro after value committed
    obtain ⟨_, same, effect⟩ := batch_effect committed.body
    cases same
    exact effect
  have taken : (observing order).next ledger ⟨surroundings, expected, batch⟩
      = mutate surroundings id id expected (pure ()) (batch.body order expected) ledger := rfl
  rw [taken]
  rcases mutate_cases surroundings id id expected (pure ()) (batch.body order expected) ledger with
    same | ⟨after, value, moved, committed⟩
  · by_cases answered : (mutate surroundings id id expected (pure ())
        (batch.body order expected) ledger).2 = .ok ()
    · rcases (mutate_ok answered).2 with ⟨_, _, discarded⟩ | ⟨after, moved, committed⟩
      · obtain ⟨_, absurd, _⟩ := batch_effect discarded
        cases absurd
      · rw [moved]
        exact Or.inl (written after () committed)
    · exact Or.inr ⟨same, answered⟩
  · rw [moved]
    exact Or.inl (written after value committed)

-- The latest emission

def EmittedFor (observation : NewObservation) (event : NewRankingEvent) : Prop :=
  event.workspaceRoot = observation.workspaceRoot ∧ event.sessionId = observation.sessionId
    ∧ event.agentBranch = observation.agentBranch
    ∧ (event.exposureState = .emitted ∨ event.exposureState = .acknowledged)

/-- The event is the latest emission to the session of the observation up to a time, it is at most
half an hour before it, and it published the skill.
-/
structure LatestEmission (ledger : Ledger) (observation : NewObservation) (time : Nat)
    (event : NewRankingEvent)
    : Prop where
  stored : event ∈ ledger.rankingEvents.rows
  emitted : EmittedFor observation event
  before : event.createdAtUnixMs ≤ time
  recent : time ≤ event.createdAtUnixMs + attributionWindowMs
  latest : ∀ other ∈ ledger.rankingEvents.rows, EmittedFor observation other
    → other.createdAtUnixMs ≤ time → other.createdAtUnixMs ≤ event.createdAtUnixMs
  published : published ledger event observation.skillId

/-- An emission of the window is one of the session, in the half hour before the time. -/
theorem mem_emissionsBefore {time : Nat} {event : NewRankingEvent} (word : time ≤ u64Max)
    : event ∈ emissionsBefore ledger observation time
      ↔ event ∈ ledger.rankingEvents.rows ∧ EmittedFor observation event
        ∧ time ≤ i64Max ∧ event.createdAtUnixMs ≤ time
        ∧ time ≤ event.createdAtUnixMs + attributionWindowMs := by
  have window : (event.createdAtUnixMs : Int) ≤ asI64 time
        ∧ asI64 (time - attributionWindowMs) ≤ event.createdAtUnixMs
      ↔ time ≤ i64Max ∧ event.createdAtUnixMs ≤ time
        ∧ time ≤ event.createdAtUnixMs + attributionWindowMs := by
    by_cases fits : time ≤ i64Max
    · rw [asI64_of_le fits, asI64_of_le (Nat.le_trans (Nat.sub_le _ _) fits)]
      omega
    · have negative := asI64_neg (Nat.lt_of_not_le fits) word
      omega
  unfold emissionsBefore EmittedFor
  simp only [List.mem_filter, Bool.and_eq_true, Bool.or_eq_true, decide_eq_true_eq]
  refine ⟨?_, ?_⟩
  · rintro ⟨stored, ⟨⟨⟨⟨workspace, session⟩, branch⟩, exposure⟩, early⟩, recent⟩
    exact ⟨stored, ⟨workspace, session, branch, exposure⟩, window.mp ⟨early, recent⟩⟩
  · rintro ⟨stored, ⟨workspace, session, branch, exposure⟩, within⟩
    obtain ⟨early, recent⟩ := window.mpr within
    exact ⟨stored, ⟨⟨⟨⟨workspace, session⟩, branch⟩, exposure⟩, early⟩, recent⟩

theorem latestEmission_of_inferred {time : Nat} {eventId : String} (word : time ≤ u64Max)
    (inferred : inferredEvent order ledger observation time = some eventId)
    : ∃ event, event.eventId = eventId ∧ LatestEmission ledger observation time event := by
  unfold inferredEvent at inferred
  obtain ⟨event, picked, inferred⟩ := Option.bind_eq_some_iff.mp inferred
  split at inferred
  · next publishes =>
    obtain ⟨mem, latest⟩ := order.latest _ event picked
    obtain ⟨stored, emitted, fits, before, recent⟩ := (mem_emissionsBefore word).mp mem
    refine ⟨event, Option.some.inj inferred, stored, emitted, before, recent, ?_, publishes⟩
    intro other storedOther emittedOther beforeOther
    by_cases old : time ≤ other.createdAtUnixMs + attributionWindowMs
    · exact latest other ((mem_emissionsBefore word).mpr
        ⟨storedOther, emittedOther, fits, beforeOther, old⟩)
    · omega
  · cases inferred

/-- What an observation is attributed to, if nobody has named an event for it, is the latest
emission before its time.
-/
theorem latestEmission_of_attributed {eventId : String}
    (fits : fitsColumn observation.observedAtUnixMs)
    (unnamed : observation.attributedEventId = none)
    (attributed : attributedEvent order attribution ledger observation = some eventId)
    : ∃ time event, attribution.attributionTime observation = some time
      ∧ event.eventId = eventId ∧ LatestEmission ledger observation time event := by
  unfold attributedEvent at attributed
  rw [unnamed] at attributed
  cases timed : attribution.attributionTime observation with
  | none =>
      rw [timed] at attributed
      cases attributed
  | some time =>
      rw [timed] at attributed
      have word : time ≤ u64Max := by
        cases attribution with
        | infer =>
            cases timed
            exact Nat.le_trans (of_decide_eq_true fits) (by decide)
        | unknown => cases timed
        | nativeTimed times words => exact words _ _ timed
      obtain ⟨event, same, latest⟩ := latestEmission_of_inferred word attributed
      exact ⟨time, event, rfl, same, latest⟩

-- Runs

/-- What a run of batches leaves. -/
structure Observed (order : LatestFirst) (steps : List ObservationStep) (ledger after : Ledger)
    : Prop where
  emissions : SameEmissions ledger after
  kept : RowsKept ledger after
  unique : UniqueSources ledger → UniqueSources after
  originated : ∀ key row, sourceRow after key = some row
    → (∃ stored, sourceRow ledger key = some stored)
      ∨ ∃ step ∈ steps, ∃ observation ∈ step.batch.observations,
          RowOf order step.batch.attribution ledger observation row

/-- A run of batches, by induction on its last step. -/
theorem run_observed (order : LatestFirst) (ledger : Ledger) (steps : List ObservationStep)
    : Observed order steps ledger ((observing order).final ledger steps) := by
  induction steps using List.reverseRecOn with
  | nil => exact ⟨.refl _, .of_eq rfl, id, fun _ row found => Or.inl ⟨row, found⟩⟩
  | append_singleton steps step ih =>
      rw [Machine.final_snoc]
      rcases observing_step order ((observing order).final ledger steps) step with
        written | ⟨same, _⟩
      · refine ⟨ih.emissions.trans written.emissions, ih.kept.trans written.kept,
          written.unique ∘ ih.unique, ?_⟩
        intro key row found
        rcases written.originated key row found with
          ⟨stored, present⟩ | ⟨observation, mem, origin⟩
        · rcases ih.originated key stored present with
            there | ⟨earlier, taken, observation, mem, origin⟩
          · exact Or.inl there
          · obtain ⟨later, last, kept⟩ := written.kept key stored present
            cases Option.some.inj (found.symm.trans last)
            exact Or.inr ⟨earlier, List.mem_append_left _ taken, observation, mem,
              origin.kept kept⟩
        · refine Or.inr ⟨step, List.mem_append_right _ (List.mem_singleton_self _), observation,
            mem, ?_⟩
          exact { origin with
            attribution := origin.attribution.trans (attributedEvent_eq ih.emissions _) }
      · rw [same]
        refine ⟨ih.emissions, ih.kept, ih.unique, ?_⟩
        intro key row found
        rcases ih.originated key row found with there | ⟨earlier, taken, others⟩
        · exact Or.inl there
        · exact Or.inr ⟨earlier, List.mem_append_left _ taken, others⟩

/-- A batch that was recorded changes no row when it is recorded again, whenever that is. -/
theorem replay_changes_nothing {step again : ObservationStep}
    (recorded : ((observing order).next ledger step).2 = .ok ())
    (same : again.batch.observations = step.batch.observations) (between : List ObservationStep)
    : ((observing order).next
          ((observing order).final ((observing order).next ledger step).1 between)
          again).1.observations
      = ((observing order).final ((observing order).next ledger step).1 between).observations := by
  rcases observing_step order ledger step with written | ⟨_, failed⟩
  case inr => exact absurd recorded failed
  have settled : ∀ observation ∈ again.batch.observations,
      SettledBy ((observing order).final ((observing order).next ledger step).1 between)
        observation := by
    intro observation mem
    rw [same] at mem
    exact (written.settles observation mem).kept (run_observed order _ between).kept
  rcases observing_step order
    ((observing order).final ((observing order).next ledger step).1 between) again with
      rewritten | ⟨unchanged, _⟩
  · exact rewritten.settled settled
  · rw [unchanged]

/-- The evidence over any run of batches. A source event has one row, which keeps its identity and
its attribution and at most turns from an attempt into a load; a batch that was recorded changes
nothing when it comes again; and what a row of the run was attributed to without a name for it is
the latest emission before its time.
-/
theorem evidence_monotone (order : LatestFirst) {start : Ledger} (unique : UniqueSources start)
    (steps later : List ObservationStep)
    : UniqueSources ((observing order).final start steps)
      ∧ RowsKept ((observing order).final start steps)
          ((observing order).final start (steps ++ later))
      ∧ (∀ step, ((observing order).next ((observing order).final start steps) step).2 = .ok ()
        → (∀ observation ∈ step.batch.observations,
            (sourceRow ((observing order).final start (steps ++ [step]))
              observation.sourceEventKey).isSome)
          ∧ ∀ again, again.batch.observations = step.batch.observations
            → ((observing order).final start (steps ++ [step] ++ later ++ [again])).observations
              = ((observing order).final start (steps ++ [step] ++ later)).observations)
      ∧ (∀ key row, sourceRow ((observing order).final start steps) key = some row
        → sourceRow start key = none
        → ∃ step ∈ steps, ∃ observation ∈ step.batch.observations,
            RowOf order step.batch.attribution start observation row
            ∧ (observation.attributedEventId = none
              → ∀ eventId, row.attributedEventId = some eventId
              → ∃ time event,
                  step.batch.attribution.attributionTime observation = some time
                  ∧ event.eventId = eventId ∧ LatestEmission start observation time event)) := by
  have observed := run_observed order start steps
  refine ⟨observed.unique unique, ?_, ?_, ?_⟩
  · rw [Machine.final_append]
    exact (run_observed order _ later).kept
  · intro step recorded
    refine ⟨?_, ?_⟩
    · intro observation mem
      rw [Machine.final_snoc]
      rcases observing_step order ((observing order).final start steps) step with
        written | ⟨_, failed⟩
      · obtain ⟨stored, found, _⟩ := written.settles observation mem
        rw [found]
        rfl
      · exact absurd recorded failed
    · intro again same
      rw [Machine.final_snoc, Machine.final_append, Machine.final_snoc]
      exact replay_changes_nothing recorded same later
  · intro key row found fresh
    rcases observed.originated key row found with ⟨stored, present⟩
      | ⟨step, taken, observation, mem, origin⟩
    · rw [fresh] at present
      cases present
    · refine ⟨step, taken, observation, mem, origin, ?_⟩
      intro unnamed eventId attributed
      exact latestEmission_of_attributed origin.inserted unnamed
        (origin.attribution.symm.trans attributed)

def firstLatest : LatestFirst where
  pick := List.argmax (·.createdAtUnixMs)
  latest := fun _ _ picked =>
    ⟨List.argmax_mem picked, fun _ mem => List.le_of_mem_argmax mem picked⟩
  present := fun _ none => List.argmax_eq_none.mp none

def observationOf (dataGeneration : Nat) (state : EvidenceState) : ObservationStep where
  surroundings := { opening := none, commit := .done }
  expected := { incarnation := [7], schemaGeneration := 1, dataGeneration }
  batch := {
    observations := [{
      observationId := "observation"
      sourceEventKey := "source"
      workspaceRoot := "/work"
      sessionId := "session"
      agentBranch := ""
      attributedEventId := none
      skillId := "rust"
      evidenceState := state
      observedAtUnixMs := 2000 }]
    cursor := {
      workspaceRoot := "/work"
      sessionId := "session"
      agentBranch := ""
      cursorKind := .observation
      transcriptGeneration := 1
      lastCompleteEventId := "e1"
      lastOffsetBytes := 10
      updatedAtUnixMs := 2000 }
    expectedCursorGeneration := none
    attribution := .infer }

/-- An attempted load that turns out one keeps its row. -/
theorem attempt_becomes_load
    : ∃ row later,
        sourceRow ((observing firstLatest).final (Ledger.initial [7])
          [observationOf 1 .attempted]) "source" = some row
        ∧ row.evidenceState = .attempted
        ∧ sourceRow ((observing firstLatest).final (Ledger.initial [7])
            ([observationOf 1 .attempted] ++ [observationOf 2 .loaded])) "source" = some later
        ∧ later.evidenceState = .loaded
        ∧ EvidenceKept row later := by
  have unique : UniqueSources (Ledger.initial [7]) := by
    intro row mem
    cases mem
  have first : sourceRow ((observing firstLatest).final (Ledger.initial [7])
      [observationOf 1 .attempted]) "source"
        = some ((observationOf 1 .attempted).batch.observations.head (by decide)) := by
    rfl
  obtain ⟨later, found, kept⟩ :=
    (evidence_monotone firstLatest unique [observationOf 1 .attempted]
      [observationOf 2 .loaded]).2.1 "source" _ first
  refine ⟨_, later, first, rfl, found, ?_, kept⟩
  have last : (sourceRow ((observing firstLatest).final (Ledger.initial [7])
      ([observationOf 1 .attempted] ++ [observationOf 2 .loaded])) "source").map (·.evidenceState)
        = some .loaded := by
    rfl
  rw [found] at last
  exact Option.some.inj last

end SkillRanker.Storage
