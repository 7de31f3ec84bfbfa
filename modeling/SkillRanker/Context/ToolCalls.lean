import Mathlib.Logic.Function.Basic
import SkillRanker.Context.Events

/-! The association of tool invocations with their results: what a key of a call may stand for, and
one pass over the events.
-/

namespace SkillRanker.Context

-- Calls

structure AssociatedToolCall where
  callId : Option ToolCallId
  invocationEventId : Option EventId
  resultEventId : Option EventId
  turnId : Option TurnId
  agentId : Option AgentId
  branchId : Option BranchId
  toolName : String
  status : ToolStatus
  rawArguments : Option String
  rawResult : Option String
  argumentsSummary : Option String
  resultSummary : Option String
  errorLines : List String
deriving DecidableEq

/-- How arguments and results are summarized at some excerpt size: an excerpt of each, and the error
lines of a result.
-/
structure Summaries where
  summarizeToolArguments : String → String
  summarizeToolResult : String → String × List String

def Summaries.ofResult (summaries : Summaries) (tool : ToolEvent) : Option String × List String :=
  match tool.result with
  | some result =>
      let (summary, errors) := summaries.summarizeToolResult result
      (some summary, errors)
  | none => (none, [])

/-- The namespace of the identifiers of an event: its agent and its branch. -/
abbrev Scope := Option AgentId × Option BranchId

instance lawfulBEqScopedId : LawfulBEq (Scope × EventId) := inferInstance

def NormalizedEvent.scope (event : NormalizedEvent) : Scope := (event.agentId, event.branchId)

-- Keys

inductive PendingCall
  | waiting (index : Nat)
  | completed (index : Nat)
  | ambiguous
deriving DecidableEq, Repr

variable {Key : Type} [DecidableEq Key]

/-- Calls by their keys. -/
abbrev Pending (Key : Type) := Key → Option PendingCall

/-- The outcome of the call at an index is not known. -/
def setUnknown (index : Nat) (calls : List AssociatedToolCall) : List AssociatedToolCall :=
  calls.modify index fun call => { call with status := .unknown }

def register (pending : Pending Key) (key : Key) (index : Nat) (calls : List AssociatedToolCall)
    (sequential completed : Bool)
    : Pending Key × List AssociatedToolCall :=
  let next := if completed then .completed index else .waiting index
  match pending key with
  | none => (Function.update pending key (some next), calls)
  | some (.completed previous) =>
      if sequential then (Function.update pending key (some next), calls)
      else
        (Function.update pending key (some .ambiguous), setUnknown index (setUnknown previous calls))
  | some (.waiting previous) =>
      (Function.update pending key (some .ambiguous), setUnknown index (setUnknown previous calls))
  | some .ambiguous => (pending, setUnknown index calls)

def takePending (pending : Pending Key) (key : Key) (calls : List AssociatedToolCall)
    : (Option Nat × Bool) × Pending Key × List AssociatedToolCall :=
  match pending key with
  | none => ((none, false), pending, calls)
  | some (.waiting index) =>
      ((some index, false), Function.update pending key (some (.completed index)), calls)
  | some (.completed index) =>
      ((none, true), Function.update pending key (some .ambiguous), setUnknown index calls)
  | some .ambiguous => ((none, true), pending, calls)

-- Association

structure AssociationState where
  associated : List AssociatedToolCall
  pendingByCallId : Pending (Scope × ToolCallId)
  pendingByName : Pending (Scope × Option TurnId × String)
  seenEventIds : List (Scope × EventId)

def AssociationState.start : AssociationState where
  associated := []
  pendingByCallId _ := none
  pendingByName _ := none
  seenEventIds := []

def ToolEvent.carriesOutcome (tool : ToolEvent) : Bool :=
  tool.result.isSome && (tool.status = .succeeded || tool.status = .failed)

variable (summaries : Summaries)

def openedCall (event : NormalizedEvent) (tool : ToolEvent) (invocation result : Bool)
    (status : ToolStatus)
    : AssociatedToolCall :=
  let (resultSummary, errorLines) := summaries.ofResult tool
  {
    callId := tool.callId
    invocationEventId := if invocation then event.eventId else none
    resultEventId := if result then event.eventId else none
    turnId := event.turnId
    agentId := event.agentId
    branchId := event.branchId
    toolName := tool.name
    status := status
    rawArguments := tool.arguments
    rawResult := tool.result
    argumentsSummary :=
      if invocation then tool.arguments.map summaries.summarizeToolArguments else none
    resultSummary := resultSummary
    errorLines := errorLines
  }

def AssociatedToolCall.withResult (call : AssociatedToolCall) (event : NormalizedEvent)
    (tool : ToolEvent)
    : AssociatedToolCall :=
  let (resultSummary, errorLines) := summaries.ofResult tool
  { call with
    resultEventId := event.eventId
    status := tool.status
    rawResult := tool.result
    resultSummary := resultSummary
    errorLines := errorLines
    turnId := call.turnId <|> event.turnId }

/-- A tool event that is delivered for the first time. -/
def AssociationState.associate (state : AssociationState) (event : NormalizedEvent)
    (tool : ToolEvent)
    : AssociationState :=
  let scope := event.scope
  match event.kind with
  | .toolInvocation =>
      let index := state.associated.length
      let associated :=
        state.associated ++ [openedCall summaries event tool true false tool.status]
      match tool.callId with
      | some callId =>
          let (pendingByCallId, associated) :=
            register state.pendingByCallId (scope, callId) index associated false
              tool.carriesOutcome
          { state with associated, pendingByCallId }
      | none =>
          let (pendingByName, associated) :=
            register state.pendingByName (scope, event.turnId, tool.name) index associated true
              tool.carriesOutcome
          { state with associated, pendingByName }
  | .toolResult =>
      let ((matched, ambiguous), state) :=
        match tool.callId with
        | some callId =>
            let (found, pendingByCallId, associated) :=
              takePending state.pendingByCallId (scope, callId) state.associated
            (found, { state with associated, pendingByCallId })
        | none =>
            let (found, pendingByName, associated) :=
              takePending state.pendingByName (scope, event.turnId, tool.name) state.associated
            (found, { state with associated, pendingByName })
      match matched with
      | some index =>
          { state with
            associated := state.associated.modify index (·.withResult summaries event tool) }
      | none =>
          let status := if ambiguous then .unknown else tool.status
          { state with
            associated := state.associated ++ [openedCall summaries event tool false true status] }
  | _ =>
      { state with
        associated := state.associated ++ [openedCall summaries event tool true true tool.status] }

def AssociationState.compact (state : AssociationState) (scope : Scope) : AssociationState :=
  { state with
    pendingByCallId := fun key => if key.1 = scope then none else state.pendingByCallId key
    pendingByName := fun key => if key.1 = scope then none else state.pendingByName key }

def AssociationState.step (state : AssociationState) (event : NormalizedEvent)
    : AssociationState :=
  let scope := event.scope
  match event.eventId with
  | some eventId =>
      if (scope, eventId) ∈ state.seenEventIds then state
      else
        let state := { state with seenEventIds := (scope, eventId) :: state.seenEventIds }
        advance state
  | none => advance state
where
  advance (state : AssociationState) : AssociationState :=
    if event.kind = .compaction then state.compact event.scope
    else
      match event.tool with
      | some tool => state.associate summaries event tool
      | none => state

def associateToolEvents (events : List NormalizedEvent) : List AssociatedToolCall :=
  (events.foldl (AssociationState.step summaries) AssociationState.start).associated

end SkillRanker.Context
