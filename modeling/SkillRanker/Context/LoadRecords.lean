import SkillRanker.Context.ToolCalls
import SkillRanker.Roster.Entries

/-! When a skill is proven present in the current context, and by which records. -/

namespace SkillRanker.Context

open SkillRanker.Roster

inductive SkillUsageKind
  | reference
  | workflow
  | unknown
deriving DecidableEq, Repr

structure LoadedSkillRecord where
  skillId : SkillId
  eventId : Option EventId
  turnId : Option TurnId
  usageKind : SkillUsageKind
  epoch : ContextEpoch
  sourceContent : Option ContentHash
  renderedContent : Option ContentHash
  hasDynamicArguments : Bool
  turnScoped : Bool
deriving DecidableEq

inductive SkillSuppressionVerdict
  | suppressed (skillId : SkillId) (reason : String)
  | eligible (skillId : SkillId) (reason : String)
deriving DecidableEq

def SkillSuppressionVerdict.isSuppressed : SkillSuppressionVerdict → Bool
  | .suppressed _ _ => true
  | .eligible _ _ => false

def LoadedSkillRecord.proves (record : LoadedSkillRecord) (branch : ActiveBranch)
    (candidateSkillId : SkillId) (candidateSourceHash candidateRenderedHash : Option ContentHash)
    : Bool :=
  decide (record.skillId = candidateSkillId)
  && record.eventId.any (fun eventId => eventId ∈ branch.eventIdSet)
  && decide (record.epoch = branch.currentEpoch)
  && !record.hasDynamicArguments
  && !record.turnScoped
  && decide (candidateSourceHash ≠ none ∧ candidateSourceHash = record.sourceContent)
  && !(candidateRenderedHash.any fun candidate =>
    record.renderedContent.any fun recorded => candidate ≠ recorded)

def evaluateLoadedSkillEligibility (candidateSkillId : SkillId)
    (candidateUsageKind : SkillUsageKind)
    (candidateSourceHash candidateRenderedHash : Option ContentHash)
    (activeBranch : Option ActiveBranch) (loadedRecords : List LoadedSkillRecord)
    : SkillSuppressionVerdict :=
  match activeBranch with
  | none =>
      .eligible candidateSkillId
        "active branch is unresolved; loaded-state suppression withheld"
  | some branch =>
      if candidateUsageKind ≠ .reference then
        .eligible candidateSkillId
          "workflows and unknown usage kinds remain eligible for re-invocation"
      else if loadedRecords.any
          (·.proves branch candidateSkillId candidateSourceHash candidateRenderedHash) then
        .suppressed candidateSkillId
          "reusable reference is proven available in current epoch with matching version"
      else
        .eligible candidateSkillId
          "no matching reusable reference proven available in current epoch"

-- The records of loaded skills that the tool calls of a branch give

structure SkillMatch where
  skillId : SkillId
  usageKind : SkillUsageKind
  sourceContent : Option ContentHash
  renderedContent : Option ContentHash
  hasDynamicArguments : Bool
  turnScoped : Bool
deriving DecidableEq

def NormalizedEvent.qualifiedId (event : NormalizedEvent) : Option (Scope × EventId) :=
  event.eventId.map fun eventId => (event.scope, eventId)

/-- `active_tool_events`: the events of the branch, or all of them without a branch. -/
def activeToolEvents (events : List NormalizedEvent) (activeBranch : Option ActiveBranch)
    : List NormalizedEvent :=
  match activeBranch with
  | none => events
  | some branch =>
      let identities := branch.events.filterMap (·.qualifiedId)
      events.filter fun event => event.qualifiedId.any (· ∈ identities)

/-- `event_epochs`: a compaction starts a new epoch, and a later event of an identifier takes the
place of an earlier one.
-/
def eventEpochs (branch : ActiveBranch) : EventId → Option ContextEpoch :=
  let step (found : Nat × (EventId → Option ContextEpoch)) (event : NormalizedEvent) :=
    let index := if event.kind = .compaction then found.1 + 1 else found.1
    match event.eventId with
    | some eventId => (index, Function.update found.2 eventId (some (epochName index)))
    | none => (index, found.2)
  (branch.events.foldl step (0, fun _ => none)).2

def AssociatedToolCall.isOn (call : AssociatedToolCall) (activeBranch : Option ActiveBranch)
    : Bool :=
  match activeBranch with
  | none => true
  | some active =>
      let onBranch (eventId : Option EventId) : Bool := eventId.any (· ∈ active.eventIdSet)
      !(call.branchId.isSome && active.branchId ≠ call.branchId)
        && (onBranch call.invocationEventId || onBranch call.resultEventId)

def loadEpoch (activeBranch : Option ActiveBranch) (currentEpoch : ContextEpoch)
    (eventId : Option EventId)
    : Option ContextEpoch :=
  match activeBranch, eventId with
  | some branch, some eventId => eventEpochs branch eventId
  | some _, none => none
  | none, _ => some currentEpoch

variable (summaries : Summaries) (resolveTool : String → Option String → Option SkillMatch)
  (activeBranch : Option ActiveBranch) (currentEpoch : ContextEpoch)

def loadedSkillRecord (call : AssociatedToolCall) : Option LoadedSkillRecord :=
  if call.isOn activeBranch then
    match resolveTool call.toolName call.rawArguments with
    | none => none
    | some matched =>
        if call.status ≠ .succeeded ∨ call.errorLines ≠ [] then none
        else
          let eventId := call.invocationEventId <|> call.resultEventId
          match loadEpoch activeBranch currentEpoch eventId with
          | none => none
          | some epoch =>
              some {
                skillId := matched.skillId
                eventId := eventId
                turnId := call.turnId
                usageKind := matched.usageKind
                epoch := epoch
                sourceContent := matched.sourceContent
                renderedContent := matched.renderedContent
                hasDynamicArguments := matched.hasDynamicArguments
                turnScoped := matched.turnScoped }
  else none

def extractLoadedSkillRecords (events : List NormalizedEvent) : List LoadedSkillRecord :=
  (associateToolEvents summaries (activeToolEvents events activeBranch)).filterMap
    (loadedSkillRecord resolveTool activeBranch currentEpoch)

/-- A call that did not succeed gives no record. -/
theorem loadedSkillRecord_eq_none {call : AssociatedToolCall} (failed : call.status ≠ .succeeded)
    : loadedSkillRecord resolveTool activeBranch currentEpoch call = none := by
  unfold loadedSkillRecord
  split
  · split
    · rfl
    · rw [if_pos (.inl failed)]
  · rfl

theorem succeeded_of_extracted {events : List NormalizedEvent} {record : LoadedSkillRecord}
    (mem
      : record ∈ extractLoadedSkillRecords summaries resolveTool activeBranch currentEpoch events)
    : ∃ call ∈ associateToolEvents summaries (activeToolEvents events activeBranch),
        call.status = .succeeded
          ∧ loadedSkillRecord resolveTool activeBranch currentEpoch call = some record := by
  obtain ⟨call, listed, extracted⟩ := List.mem_filterMap.mp mem
  refine ⟨call, listed, ?_, extracted⟩
  by_contra failed
  rw [loadedSkillRecord_eq_none _ _ _ failed] at extracted
  cases extracted

end SkillRanker.Context
