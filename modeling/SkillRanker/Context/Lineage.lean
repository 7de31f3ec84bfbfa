import Mathlib.Data.Prod.Lex
import Mathlib.Data.String.Basic
import Mathlib.Order.WithBot
import SkillRanker.Context.Events
import SkillRanker.Library.Entries
import SkillRanker.Library.Loops

/-! Scope-aware event identity, and the selection of a branch by parent links. -/

namespace SkillRanker.Context

open SkillRanker.Library

-- Identities

structure EventKey where
  agentId : Option AgentId
  branchId : Option BranchId
  eventId : EventId

namespace EventKey

/-- Where a key stands in the order of all keys. -/
def place (key : EventKey) : WithBot String ×ₗ (WithBot String ×ₗ String) :=
  toLex
    (key.agentId.map Identifier.text, toLex (key.branchId.map Identifier.text, key.eventId.text))

theorem text_injective : Function.Injective Identifier.text := by
  rintro ⟨first, _⟩ ⟨other, _⟩ same
  cases same
  rfl

theorem place_injective : Function.Injective place := by
  rintro ⟨agent, branch, event⟩ ⟨agent', branch', event'⟩ same
  have parts := Prod.mk.inj (toLex.injective same)
  have inner := Prod.mk.inj (toLex.injective parts.2)
  have sameAgent := Option.map_injective text_injective parts.1
  have sameBranch := Option.map_injective text_injective inner.1
  have sameEvent := text_injective inner.2
  subst sameAgent sameBranch sameEvent
  rfl

instance : LinearOrder EventKey := LinearOrder.lift' place place_injective

instance lawfulBEq : LawfulBEq EventKey := inferInstance

end EventKey

def key (event : NormalizedEvent) : Option EventKey :=
  event.eventId.map fun eventId =>
    { agentId := event.agentId, branchId := event.branchId, eventId := eventId }

def matchesTarget (event : NormalizedEvent) (target : BranchResolutionTarget) : Bool :=
  target.targetAgentId.all (fun agent => decide (event.agentId = some agent))
  && target.targetBranchId.all (fun branch => decide (event.branchId = some branch))

/-- A system message with no tool payload. -/
def carriesNoConversation (event : NormalizedEvent) : Bool :=
  decide (event.role = .system ∧ event.kind = .message) && event.tool.isNone

def callId (event : NormalizedEvent) : Option ToolCallId := event.tool.bind ToolEvent.callId

def answersOwnCall (result : NormalizedEvent) (call : Option NormalizedEvent) : Bool :=
  call.any fun call =>
    decide
      (result.kind = .toolResult ∧ call.kind = .toolInvocation ∧ callId result ≠ none
        ∧ callId result = callId call)

-- The index of the events

/-- The first definition of each identity, in the order of the keys, the identities with another
definition, the responses that events are fragments of, and the compactions that descend from
themselves.
-/
@[ext]
structure Index where
  events : List (EventKey × NormalizedEvent)
  conflicts : List EventKey
  responses : List (EventId × String)
  severed : List EventKey
  ordered : Ordered events
  keyed : ∀ entry ∈ events, key entry.2 = some entry.1

namespace Index

def empty (responses : List (EventId × String)) : Index where
  events := []
  conflicts := []
  responses := responses
  severed := []
  ordered := List.Pairwise.nil
  keyed := fun _ mem => absurd mem List.not_mem_nil

/-- Takes in the event with a key: the first definition is kept, an identical redelivery is no
other definition.
-/
def add (index : Index) (event : NormalizedEvent) : Index :=
  match identity : key event with
  | none => index
  | some eventKey =>
      match index.events.lookup eventKey with
      | none =>
          { index with
            events := insertEntry eventKey event index.events
            ordered := index.ordered.insertEntry eventKey event
            keyed := by
              intro entry mem
              rcases of_mem_insertEntry mem with rfl | earlier
              · exact identity
              · exact index.keyed entry earlier
          }
      | some first =>
          if first ≠ event then { index with conflicts := eventKey :: index.conflicts }
          else index

variable (index : Index)

def byAgent (agentId : Option AgentId) (eventId : EventId) : List EventKey :=
  (index.events.map Prod.fst).filter fun eventKey =>
    eventKey.agentId = agentId ∧ eventKey.eventId = eventId

def parent (event : NormalizedEvent)
    : Except UnresolvedBranchReason (Option NormalizedEvent) :=
  match event.parentId with
  | none => .ok none
  | some parentId =>
      if (key event).any (fun eventKey => eventKey ∈ index.severed) then .ok none
      else
        match index.events.lookup
            { agentId := event.agentId, branchId := event.branchId, eventId := parentId } with
        | some found => .ok (some found)
        | none =>
            match index.byAgent event.agentId parentId with
            | [] => .ok none
            | [candidate] => .ok (index.events.lookup candidate)
            | _ => .error (.ambiguousEventIdentity parentId)

/-- The parents of an event lead back to a key within as many links. -/
def leadsTo (boundary : EventKey) : Nat → NormalizedEvent → Bool
  | 0, _ => false
  | links + 1, current =>
      match index.parent current with
      | .ok (some parent) => decide (key parent = some boundary) || leadsTo boundary links parent
      | _ => false

def new (events : List NormalizedEvent) (responses : List (EventId × String)) : Index :=
  let index := events.foldl add (empty responses)
  { index with
    severed :=
      (index.events.filter fun entry =>
        entry.2.kind = .compaction ∧ index.leadsTo entry.1 index.events.length entry.2 = true).map
        Prod.fst
  }

def parentOf (child : EventKey) : Option EventKey := do
  let event ← index.events.lookup child
  match index.parent event with
  | .ok (some parent) => key parent
  | _ => none

/-- The identities whose parent links lead to one. -/
def kids (parent : EventKey) : List EventKey :=
  (index.events.map Prod.fst).filter fun child => index.parentOf child = some parent

-- Batches of parallel calls

/-- What the subtree below a tool call of one provider response holds. -/
inductive Batch
  | answered (subtree : List EventKey)
  | beyond
  | incomplete
deriving DecidableEq

/-- The walk through a subtree: what was found, the calls and the answers among what was visited,
and the place of the next visit.
-/
structure BatchWalk where
  subtree : List EventKey
  calls : List ToolCallId
  answers : List ToolCallId
  next : Nat

namespace BatchWalk

/-- Every call is answered, and every answer is to one of the calls or to the own call. -/
def complete (walk : BatchWalk) (ownCall : Option ToolCallId) : Bool :=
  walk.calls.all (fun call => call ∈ walk.answers)
  && walk.answers.all (fun answer => decide (answer ∈ walk.calls ∨ ownCall = some answer))

/-- Goes on to the identities below the visited one. -/
def descend (walk : BatchWalk) (kids : List EventKey) : BatchWalk :=
  { walk with
    subtree := walk.subtree ++ kids
    next := walk.next + 1
  }

end BatchWalk

def fragmentOf (response : String) (eventKey : EventKey) : Bool :=
  index.responses.lookup eventKey.eventId = some response

/-- One visit of the walk through a subtree. -/
def batchPass (response : String) (ownCall : Option ToolCallId) (walk : BatchWalk)
    : Pass BatchWalk Batch :=
  match walk.subtree[walk.next]? with
  | none =>
      if walk.complete ownCall then .done (.answered walk.subtree) else .done .incomplete
  | some eventKey =>
      match index.events.lookup eventKey with
      | none => .done .incomplete
      | some event =>
          if event.role = .assistant ∧ event.kind = .toolInvocation
              ∧ index.fragmentOf response eventKey = true then
            match callId event with
            | none => .done .incomplete
            | some call =>
                .again
                  ({ walk with calls := call :: walk.calls }.descend (index.kids eventKey))
          else if event.role = .assistant ∧ event.kind = .message
              ∧ index.fragmentOf response eventKey = true then
            .again (walk.descend (index.kids eventKey))
          else if event.kind = .toolResult then
            match callId event with
            | none => .done .incomplete
            | some call =>
                .again
                  ({ walk with answers := walk.answers ++ [call] }.descend (index.kids eventKey))
          else if carriesNoConversation event then .again (walk.descend (index.kids eventKey))
          else .done .beyond

/-- The walk before its first visit. -/
def batchStart (head : EventKey) : BatchWalk :=
  {
    subtree := [head]
    calls := []
    answers := []
    next := 0
  }

/-- Classifies the subtree at a head below a tool call of a response. -/
def batch (fuel : Nat) (head : EventKey) (response : String) (ownCall : Option ToolCallId)
    : Option Batch :=
  loop (index.batchPass response ownCall) fuel (batchStart head)

def goesOn (forkEvent : NormalizedEvent) (response : String) (batches : List (EventKey × Batch))
    : Bool :=
  batches.any fun (child, batch) =>
    decide (batch = .beyond)
    && (index.events.lookup child).any fun event =>
      index.fragmentOf response child || answersOwnCall event (some forkEvent)

def answeredSubtree : EventKey × Batch → Option (EventKey × List EventKey)
  | (child, .answered subtree) => some (child, subtree)
  | (_, .beyond) => none
  | (_, .incomplete) => none

/-- The heads of answered batches below a fork, with their subtrees, where the response goes on
elsewhere.
-/
def answeredSideBatches (fuel : Nat) (fork : EventKey)
    : Option (List (EventKey × List EventKey)) :=
  match index.events.lookup fork, index.responses.lookup fork.eventId with
  | some forkEvent, some response =>
      let children := index.kids fork
      if forkEvent.kind ≠ .toolInvocation ∨ children.length < 2 then some []
      else do
        let batches ← children.mapM fun child => do
          let batch ← index.batch fuel child response (callId forkEvent)
          return (child, batch)
        if index.goesOn forkEvent response batches then
          return batches.filterMap answeredSubtree
        else
          return []
  | _, _ => some []

def sideBatches (fuel : Nat) : Option (List (EventKey × List EventKey)) := do
  let batches ← ((index.events.map Prod.fst).filter fun fork => index.kids fork ≠ []).mapM
    (index.answeredSideBatches fuel)
  return batches.flatten

end Index

end SkillRanker.Context
