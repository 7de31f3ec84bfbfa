import SkillRanker.Context.SoundBranches
import SkillRanker.Recommendation.Eligibility

/-! Which loads suppress a skill: those that the active branch still has in its current epoch.
-/

namespace SkillRanker.Recommendation

open SkillRanker.Context SkillRanker.Library SkillRanker.Roster

variable {events : List NormalizedEvent} {branch : ActiveBranch}

-- Records

/-- A record proves the current content of a skill on a branch. -/
structure Proves (branch : ActiveBranch) (skill : AdvisorySkill) (record : LoadedSkillRecord)
    : Prop where
  skillId : record.skillId = skill.binding.id
  onBranch : ∃ eventId ∈ branch.eventIdSet, record.eventId = some eventId
  epoch : record.epoch = branch.currentEpoch
  sourceContent : record.sourceContent = some skill.record.sourceContent

theorem proves_of_suppressed {skill : AdvisorySkill} {loaded : LoadedState}
    (suppressed : provenLoaded skill loaded = true)
    : ∃ branch,
        loaded.branch = some branch ∧ ∃ record ∈ loaded.records, Proves branch skill record := by
  unfold provenLoaded at suppressed
  dsimp only at suppressed
  split at suppressed
  · cases suppressed
  cases resolved : loaded.branch with
  | none =>
      rw [resolved] at suppressed
      cases suppressed
  | some branch =>
      rw [resolved, evaluateLoadedSkillEligibility] at suppressed
      rw [if_neg (not_not.mpr rfl)] at suppressed
      split at suppressed
      next proven =>
        obtain ⟨record, mem, proves⟩ := List.any_eq_true.mp proven
        simp only [LoadedSkillRecord.proves, Bool.and_eq_true, decide_eq_true_eq,
          Option.any_eq_true] at proves
        obtain ⟨⟨⟨⟨⟨⟨same, eventId, found, onBranch⟩, epoch⟩, _⟩, _⟩, _, source⟩, _⟩ := proves
        exact ⟨branch, rfl, record, mem, same, ⟨eventId, onBranch, found⟩, epoch, source.symm⟩
      next => cases suppressed

-- Epochs

theorem epochName_injective {first second : Nat} (one : first < 2 ^ 64) (two : second < 2 ^ 64)
    (same : epochName first = epochName second)
    : first = second := by
  have texts := congrArg Identifier.text same
  rw [epochName_text one, epochName_text two] at texts
  have numbers : toString first = toString second := by simpa using texts
  have digits : Nat.toDigits 10 first = Nat.toDigits 10 second := by
    simpa only [Nat.toString_eq_repr, Nat.toList_repr] using congrArg String.toList numbers
  have values := congrArg (fun digits => Nat.ofDigitChars 10 digits 0) digits
  simpa using values

/-- One event of `event_epochs`. -/
def epochStep (found : Nat × (EventId → Option ContextEpoch)) (event : NormalizedEvent)
    : Nat × (EventId → Option ContextEpoch) :=
  let index := if event.kind = .compaction then found.1 + 1 else found.1
  match event.eventId with
  | some eventId => (index, Function.update found.2 eventId (some (epochName index)))
  | none => (index, found.2)

def epochsOf (events : List NormalizedEvent) : Nat × (EventId → Option ContextEpoch) :=
  events.foldl epochStep (0, fun _ => none)

theorem eventEpochs_eq (branch : ActiveBranch)
    : eventEpochs branch = (epochsOf branch.events).2 := rfl

variable (events)

theorem epochsOf_snoc (event : NormalizedEvent)
    : epochsOf (events ++ [event]) = epochStep (epochsOf events) event := by
  simp [epochsOf]

/-- The compactions are counted, by induction on the events from the last. -/
theorem epochsOf_count
    : (epochsOf events).1 = events.countP (·.kind = .compaction) := by
  induction events using List.reverseRecOn with
  | nil => rfl
  | append_singleton events event ih =>
      rw [epochsOf_snoc, List.countP_append, ← ih, epochStep]
      by_cases compaction : event.kind = .compaction <;> cases event.eventId <;>
        simp [compaction]

variable {events}

/-- The epoch of an identifier is the one of its last event, by induction on the events from
the last.
-/
theorem epochsOf_some {eventId : EventId} {epoch : ContextEpoch}
    (found : (epochsOf events).2 eventId = some epoch)
    : ∃ before event after,
        events = before ++ event :: after
        ∧ event.eventId = some eventId
        ∧ epoch = epochName ((before ++ [event]).countP (·.kind = .compaction)) := by
  induction events using List.reverseRecOn with
  | nil => cases found
  | append_singleton events event ih =>
      by_cases own : event.eventId = some eventId
      · refine ⟨events, event, [], rfl, own, ?_⟩
        have named : (epochsOf (events ++ [event])).2 eventId
            = some (epochName (epochsOf (events ++ [event])).1) := by
          rw [epochsOf_snoc, epochStep, own]
          exact Function.update_self _ _ _
        rw [named, epochsOf_count] at found
        exact (Option.some_inj.mp found).symm
      · have earlier : (epochsOf events).2 eventId = some epoch := by
          rw [epochsOf_snoc, epochStep] at found
          cases named : event.eventId with
          | none =>
              rw [named] at found
              exact found
          | some other =>
              rw [named] at found own
              have apart : eventId ≠ other := fun same => own (same ▸ rfl)
              exact (Function.update_of_ne apart _ _).symm.trans found
        obtain ⟨before, load, after, rfl, same, epochs⟩ := ih earlier
        exact ⟨before, load, after ++ [event], by simp, same, epochs⟩

def ActiveEpoch (branch : ActiveBranch) : Prop :=
  branch.currentEpoch = epochName (branch.events.countP (·.kind = .compaction))

theorem eventEpochs_current {eventId : EventId} (slice : branch.events.length ≤ usizeMax)
    (active : ActiveEpoch branch) (current : eventEpochs branch eventId = some branch.currentEpoch)
    : ∃ before load after,
        branch.events = before ++ load :: after
        ∧ load.eventId = some eventId
        ∧ ∀ later ∈ after, later.kind ≠ .compaction := by
  rw [eventEpochs_eq] at current
  obtain ⟨before, load, after, split, named, epoch⟩ := epochsOf_some current
  refine ⟨before, load, after, split, named, ?_⟩
  have whole : branch.events.countP (·.kind = .compaction)
      = (before ++ [load]).countP (·.kind = .compaction)
        + after.countP (·.kind = .compaction) := by
    rw [split, ← List.countP_append, List.append_assoc, List.singleton_append]
  have word : branch.events.countP (·.kind = .compaction) < 2 ^ 64 := by
    have most := List.countP_le_length (p := (·.kind = .compaction)) (l := branch.events)
    unfold usizeMax u64Max at slice
    omega
  have same := epochName_injective word (by omega) (active.symm.trans epoch)
  have none : after.countP (·.kind = .compaction) = 0 := by omega
  simpa using List.countP_eq_zero.mp none

-- Loads of the branch

/-- A load is a proof of a skill that no compaction of the branch follows. -/
structure Standing (branch : ActiveBranch) (record : LoadedSkillRecord) : Prop where
  load
    : ∃ before load after,
        branch.events = before ++ load :: after
        ∧ load.eventId ≠ none
        ∧ load.eventId = record.eventId
        ∧ ∀ later ∈ after, later.kind ≠ .compaction

theorem epoch_of_extracted {summaries : Summaries}
    {resolveTool : String → Option String → Option SkillMatch} {currentEpoch : ContextEpoch}
    {record : LoadedSkillRecord}
    (mem
      : record
        ∈ extractLoadedSkillRecords summaries resolveTool (some branch) currentEpoch events)
    : ∃ eventId,
        record.eventId = some eventId ∧ eventEpochs branch eventId = some record.epoch := by
  obtain ⟨call, _, _, extracted⟩ := succeeded_of_extracted _ _ _ _ mem
  unfold loadedSkillRecord at extracted
  split at extracted
  case isFalse => cases extracted
  split at extracted
  case h_1 => cases extracted
  split at extracted
  case isTrue => cases extracted
  dsimp only at extracted
  split at extracted
  case h_1 => cases extracted
  next epoch found =>
    cases extracted
    cases named : (call.invocationEventId <|> call.resultEventId) with
    | none =>
        rw [named] at found
        cases found
    | some eventId =>
        rw [named] at found
        exact ⟨eventId, rfl, found⟩

/-- A resolved branch is no longer than its input, and its current epoch is its last one. -/
theorem resolved_epoch {fuel : Nat} {target : BranchResolutionTarget}
    {responses : List (EventId × String)}
    (resolved : Context.resolve fuel events target responses = some (.resolved branch))
    : branch.events.length ≤ events.length ∧ ActiveEpoch branch := by
  have sound := resolve_sound resolved
  exact ⟨(List.subperm_of_subset sound.distinct.of_map sound.input).length_le,
    by rw [ActiveEpoch, sound.epoch.1, sound.compactions]⟩

/-- Load suppression: a skill is suppressed only by a record of it on the active branch, in the
current epoch, with the known hash of its current content. On a resolved branch, the load of
that record is one that no compaction follows.
-/
theorem suppressed_by_standing_load (skill : AdvisorySkill)
    : (∀ loaded,
        provenLoaded skill loaded = true
        → ∃ branch,
            loaded.branch = some branch
            ∧ ∃ record ∈ loaded.records, Proves branch skill record)
      ∧ ∀ fuel events target responses branch,
          events.length ≤ usizeMax
          → Context.resolve fuel events target responses = some (.resolved branch)
          → ∀ summaries resolveTool currentEpoch observed,
              let records :=
                extractLoadedSkillRecords summaries resolveTool (some branch) currentEpoch
                  observed
              provenLoaded skill { branch := some branch, records := records } = true
              → ∃ record ∈ records, Proves branch skill record ∧ Standing branch record := by
  refine ⟨fun loaded => proves_of_suppressed, ?_⟩
  intro fuel events target responses branch slice resolved summaries resolveTool currentEpoch
    observed records suppressed
  obtain ⟨_, same, record, mem, proves⟩ := proves_of_suppressed suppressed
  cases same
  obtain ⟨eventId, named, epoch⟩ := epoch_of_extracted mem
  obtain ⟨short, active⟩ := resolved_epoch resolved
  rw [proves.epoch] at epoch
  obtain ⟨before, load, after, split, own, last⟩ :=
    eventEpochs_current (Nat.le_trans short slice) active epoch
  refine ⟨record, mem, proves, before, load, after, split, ?_, own.trans named.symm, last⟩
  rw [own]
  exact Option.some_ne_none _

/-- A reference with a known source. -/
def sampleReference : AdvisorySkill where
  record :=
    {
      id := "skill"
      source := "user"
      sourcePriority := 0
      invocationName := { text := "skill", valid := by decide +kernel }
      target := []
      sourceContent := "hash"
      renderedContent := none
      visibility := .verified "1"
      restrictions := .free
      usageKind := .reference
      forkedContext := false
      dynamicContent := false
      aliases := []
    }
  binding :=
    {
      id := "skill"
      source := "user"
      invocation := { text := "skill", valid := by decide +kernel }
      visibility := .verified "1"
      restrictions := .free
      priority := none
    }

def compactedLoad : List NormalizedEvent :=
  [
    { linkedEvent messageEvent callEvent .system .compaction none with parentId := none },
    linkedEvent callEvent messageEvent .tool .toolResult
      (some
        {
          callId := none
          name := "Skill"
          status := .succeeded
          arguments := none
          result := none
        })
  ]

/-- The reference stays suppressed on the branch of its load, in the epoch after a compaction. -/
theorem suppressed_by_standing_load_compacted
    : let matched : SkillMatch :=
        {
          skillId := "skill"
          usageKind := .reference
          sourceContent := some "hash"
          renderedContent := none
          hasDynamicArguments := false
          turnScoped := false
        }
      let summaries : Summaries :=
        { summarizeToolArguments := id, summarizeToolResult := fun result => (result, []) }
      ∃ record ∈ extractLoadedSkillRecords summaries (fun _ _ => some matched)
            (some (wholeBranch compactedLoad 1 false)) (epochName 1) compactedLoad,
        Proves (wholeBranch compactedLoad 1 false) sampleReference record
        ∧ Standing (wholeBranch compactedLoad 1 false) record :=
  (suppressed_by_standing_load sampleReference).2 3 compactedLoad anyTarget [] _ (by decide)
    (by decide +kernel) _ _ (epochName 1) compactedLoad (by decide +kernel)

end SkillRanker.Recommendation
