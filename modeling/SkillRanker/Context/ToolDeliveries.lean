import SkillRanker.Library.Entries
import SkillRanker.Context.ToolCalls

/-! What an association attributes: the deliveries of tool events with their epochs, and the calls as
the deliveries they are made of. The association of the events is a view of these calls.
-/

namespace SkillRanker.Context
open SkillRanker.Library

-- Deliveries

/-- An identified event of the scope came before. -/
def isRepeated (before : List NormalizedEvent) (event : NormalizedEvent) : Bool :=
  event.eventId.isSome
    && before.any fun other => other.scope = event.scope && other.eventId = event.eventId

/-- How often a scope was compacted by some events, newest first, redeliveries apart. -/
def compactionsOf (scope : Scope) : List NormalizedEvent → Nat
  | [] => 0
  | event :: before =>
      compactionsOf scope before
        + if event.kind = .compaction ∧ event.scope = scope ∧ isRepeated before event = false then 1
          else 0

/-- A tool event that is delivered for the first time, with its place among the events and the number
of compactions that its scope has seen.
-/
structure Delivery where
  position : Nat
  epoch : Nat
  event : NormalizedEvent
  tool : ToolEvent
deriving DecidableEq

def deliveriesOf : List NormalizedEvent → List Delivery
  | [] => []
  | event :: before =>
      if isRepeated before event ∨ event.kind = .compaction then deliveriesOf before
      else
        match event.tool with
        | some tool =>
            deliveriesOf before ++ [{
              position := before.length
              epoch := compactionsOf event.scope before
              event := event
              tool := tool }]
        | none => deliveriesOf before

def deliveries (events : List NormalizedEvent) : List Delivery := deliveriesOf events.reverse

/-- What a delivery is matched by: its call, or its turn and tool where it names no call, within its
scope and epoch.
-/
inductive CallKey
  | byCallId (scope : Scope) (epoch : Nat) (callId : ToolCallId)
  | byName (scope : Scope) (epoch : Nat) (turnId : Option TurnId) (toolName : String)
deriving DecidableEq

def CallKey.scope : CallKey → Scope
  | byCallId scope _ _ => scope
  | byName scope _ _ _ => scope

def CallKey.epoch : CallKey → Nat
  | byCallId _ epoch _ => epoch
  | byName _ epoch _ _ => epoch

def CallKey.isSequential : CallKey → Bool
  | byCallId _ _ _ => false
  | byName _ _ _ _ => true

def Delivery.key (delivery : Delivery) : CallKey :=
  match delivery.tool.callId with
  | some callId => .byCallId delivery.event.scope delivery.epoch callId
  | none =>
      .byName delivery.event.scope delivery.epoch delivery.event.turnId delivery.tool.name

theorem Delivery.key_scope (delivery : Delivery) : delivery.key.scope = delivery.event.scope := by
  unfold key
  split <;> rfl

theorem Delivery.key_epoch (delivery : Delivery) : delivery.key.epoch = delivery.epoch := by
  unfold key
  split <;> rfl

-- Attribution

structure ToolCall where
  opening : Delivery
  joined : Option Delivery
  status : ToolStatus
deriving DecidableEq

def ToolCall.position (call : ToolCall) : Nat := call.opening.position

/-- The calls so far, and what each key stands for: the position of its call takes the place of an
index.
-/
structure Attribution where
  calls : List ToolCall
  pending : CallKey → Option PendingCall

def Attribution.start : Attribution where
  calls := []
  pending _ := none

def Delivery.reported (delivery : Delivery) : ToolCall where
  opening := delivery
  joined := none
  status := delivery.tool.status

def ToolCall.unknown (call : ToolCall) : ToolCall := { call with status := .unknown }

def ToolCall.join (result : Delivery) (call : ToolCall) : ToolCall :=
  { call with
    joined := some result
    status := result.tool.status }

/-- What an invocation leaves under its key if the key is free. -/
def Delivery.pendingCall (delivery : Delivery) : PendingCall :=
  if delivery.tool.carriesOutcome then .completed delivery.position
  else .waiting delivery.position

/-- The calls with those at two positions unknown. -/
def collide (previous next : Nat) (calls : List ToolCall) : List ToolCall :=
  changeAt ToolCall.position next ToolCall.unknown
    (changeAt ToolCall.position previous ToolCall.unknown calls)

/-- An invocation opens a call, unless it collides with another one of its key. -/
def Attribution.invoke (state : Attribution) (delivery : Delivery) : Attribution :=
  let calls := state.calls ++ [delivery.reported]
  let key := delivery.key
  match state.pending key with
  | none =>
      { calls, pending := Function.update state.pending key (some delivery.pendingCall) }
  | some (.completed previous) =>
      if key.isSequential then
        { calls, pending := Function.update state.pending key (some delivery.pendingCall) }
      else
        { calls := collide previous delivery.position calls
          pending := Function.update state.pending key (some .ambiguous) }
  | some (.waiting previous) =>
      { calls := collide previous delivery.position calls
        pending := Function.update state.pending key (some .ambiguous) }
  | some .ambiguous =>
      { state with calls := changeAt ToolCall.position delivery.position ToolCall.unknown calls }

/-- A result joins the call that waits for it. -/
def Attribution.answer (state : Attribution) (delivery : Delivery) : Attribution :=
  let key := delivery.key
  match state.pending key with
  | none => { state with calls := state.calls ++ [delivery.reported] }
  | some (.waiting position) =>
      { calls := changeAt ToolCall.position position (ToolCall.join delivery) state.calls
        pending := Function.update state.pending key (some (.completed position)) }
  | some (.completed position) =>
      { calls :=
          changeAt ToolCall.position position ToolCall.unknown state.calls
            ++ [delivery.reported.unknown]
        pending := Function.update state.pending key (some .ambiguous) }
  | some .ambiguous => { state with calls := state.calls ++ [delivery.reported.unknown] }

def Attribution.step (state : Attribution) (delivery : Delivery) : Attribution :=
  match delivery.event.kind with
  | .toolInvocation => state.invoke delivery
  | .toolResult => state.answer delivery
  | _ => { state with calls := state.calls ++ [delivery.reported] }

def attributeAll (given : List Delivery) : Attribution := given.foldl .step .start

-- The view of a call

variable (summaries : Summaries)

def ToolCall.view (call : ToolCall) : AssociatedToolCall :=
  let opened := openedCall summaries call.opening.event call.opening.tool
    (call.opening.event.kind ≠ .toolResult) (call.opening.event.kind ≠ .toolInvocation)
    call.status
  match call.joined with
  | none => opened
  | some result =>
      { opened.withResult summaries result.event result.tool with status := call.status }

theorem ToolCall.view_unknown (call : ToolCall)
    : call.unknown.view summaries = { call.view summaries with status := .unknown } := by
  unfold view unknown
  cases call.joined <;> rfl

theorem ToolCall.view_join {call : ToolCall} (alone : call.joined = none) (result : Delivery)
    : (call.join result).view summaries
      = (call.view summaries).withResult summaries result.event result.tool := by
  unfold view join
  rw [alone]
  rfl

end SkillRanker.Context
