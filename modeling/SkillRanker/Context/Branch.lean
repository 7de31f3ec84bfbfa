import SkillRanker.Context.Lineage

/-! The leaf that a conversation continues from, and the branch that leads to it. -/

namespace SkillRanker.Context

open SkillRanker.Library

namespace Index

variable (index : Index)

-- Leaves that a conversation continues from

structure Pruning where
  children : EventKey → Nat
  pruned : List EventKey

namespace Pruning

def isLeaf (state : Pruning) (eventKey : EventKey) : Prop := state.children eventKey = 0

instance (state : Pruning) (eventKey : EventKey) : Decidable (state.isLeaf eventKey) :=
  inferInstanceAs (Decidable (_ = _))

/-- Takes an identity in without a change of its parent. -/
def drop (state : Pruning) (eventKey : EventKey) : Pruning :=
  { state with pruned := eventKey :: state.pruned }

end Pruning

def prune (eventKey : EventKey) (state : Pruning) : Pruning × Option EventKey :=
  match index.parentOf eventKey with
  | none => (state.drop eventKey, none)
  | some parent =>
      let left := state.children parent - 1
      (
        {
          children := Function.update state.children parent left
          pruned := eventKey :: state.pruned
        },
        if left = 0 then some parent else none
      )

def isNotice (eventKey : EventKey) : Bool :=
  (index.events.lookup eventKey).any carriesNoConversation

def noticePass : Pruning × List EventKey → Pass (Pruning × List EventKey) Pruning
  | (state, []) => .done state
  | (state, candidate :: pending) =>
      if candidate ∈ state.pruned ∨ ¬state.isLeaf candidate ∨ index.isNotice candidate = false then
        .again (state, pending)
      else
        match index.prune candidate state with
        | (state, none) => .again (state, pending)
        | (state, some parent) => .again (state, parent :: pending)

/-- The pruning before its first step. -/
def unpruned : Pruning :=
  {
    children := fun eventKey => (index.kids eventKey).length
    pruned := []
  }

/-- Prunes dead ends of notices, until no parent is left to prune. -/
def pruneNotices (fuel : Nat) : Option Pruning :=
  let pending := (index.events.map Prod.fst).filter fun eventKey => index.kids eventKey = []
  loop index.noticePass fuel (index.unpruned, pending.reverse)

def besideOwnCall (eventKey : EventKey) : Bool :=
  (index.parentOf eventKey).any fun parent =>
    (index.events.lookup eventKey).any fun event =>
      answersOwnCall event (index.events.lookup parent)

def sideResults (state : Pruning) : List EventKey :=
  (index.events.map Prod.fst).filter fun eventKey =>
    eventKey ∉ state.pruned ∧ state.isLeaf eventKey ∧ index.besideOwnCall eventKey = true

/-- Prunes a side result whose call goes on through another child. -/
def pruneSideResult (results : List EventKey) (state : Pruning) (result : EventKey) : Pruning :=
  match index.parentOf result with
  | none => state
  | some call =>
      let candidates := results.countP fun other => index.parentOf other = some call
      if candidates < state.children call then (index.prune result state).1 else state

/-- The identity is of a tool result whose call is missing. -/
def isOrphan (event : NormalizedEvent) : Bool :=
  decide (event.kind = .toolResult) && event.parentId.isSome
  && decide (index.parent event = .ok none)

def pruneOrphan (state : Pruning) (entry : EventKey × NormalizedEvent) : Pruning :=
  if entry.1 ∉ state.pruned ∧ state.isLeaf entry.1 ∧ index.isOrphan entry.2 = true then
    state.drop entry.1
  else state

def pruneBatch (state : Pruning) (batch : EventKey × List EventKey) : Pruning :=
  let state := if batch.1 ∈ state.pruned then state else (index.prune batch.1 state).1
  { state with pruned := batch.2 ++ state.pruned }

/-- The leaves in scope that no rule has pruned. -/
def remaining (target : BranchResolutionTarget) (state : Pruning) : List NormalizedEvent :=
  (index.events.filter fun entry =>
    matchesTarget entry.2 target = true ∧ entry.1 ∉ state.pruned ∧ state.isLeaf entry.1).map
    Prod.snd

def substantiveLeaves (fuel : Nat) (target : BranchResolutionTarget)
    : Option (List NormalizedEvent) := do
  let state ← index.pruneNotices fuel
  let results := index.sideResults state
  let state := results.foldl (index.pruneSideResult results) state
  let state := index.events.foldl index.pruneOrphan state
  if index.responses = [] then
    return index.remaining target state
  else
    let batches ← index.sideBatches fuel
    return index.remaining target (batches.foldl index.pruneBatch state)

-- The continuation of an unlinked compaction

/-- A compaction that claims a parent which cannot be found. -/
def unlinked (event : NormalizedEvent) : Bool :=
  decide (event.kind = .compaction) && event.parentId.isSome
  && decide (index.parent event = .ok none)

def descends (boundary : EventKey) : Nat → NormalizedEvent → Bool
  | 0, _ => false
  | links + 1, current =>
      decide (key current = some boundary)
      || match index.parent current with
        | .ok (some parent) => descends boundary links parent
        | _ => false

def afterUnlinkedCompaction (events leaves : List NormalizedEvent) : Option NormalizedEvent := do
  let (compaction, position) ← events.zipIdx.reverse.find? fun entry => index.unlinked entry.1
  let boundary ← key compaction
  match leaves.filter (index.descends boundary (events.length + 1)) with
  | [leaf] =>
      if leaves.all fun other =>
          decide (key other = key leaf)
          || (events.take position).any fun event => key event = key other then
        some leaf
      else none
  | _ => none

def forks (leaves : List NormalizedEvent) : UnresolvedBranchReason :=
  .ambiguousSiblingForks (leaves.filterMap (·.eventId))

-- The branch to a leaf

/-- The walk from a leaf to its root, with the root-most events first. -/
structure Trace where
  lineage : List NormalizedEvent
  visited : List EventKey
  current : NormalizedEvent

def checkVisit (visited : List EventKey) (eventKey : EventKey)
    : Except UnresolvedBranchReason Unit := do
  ensure (eventKey ∉ index.conflicts) (.conflictingEventDefinitions eventKey.eventId)
  ensure (eventKey ∉ visited) (.cycleDetected eventKey.eventId)
  ensure (eventKey.eventId ∉ visited.map (·.eventId)) (.ambiguousEventIdentity eventKey.eventId)

def visit (visited : List EventKey) (event : NormalizedEvent)
    : Except UnresolvedBranchReason (List EventKey) :=
  match key event with
  | none => .ok visited
  | some eventKey => do
      index.checkVisit visited eventKey
      return eventKey :: visited

def checkBranch (target : BranchResolutionTarget) (event : NormalizedEvent)
    : Except UnresolvedBranchReason Unit :=
  match target.targetBranchId, event.branchId with
  | some expected, some observed =>
      ensure (expected = observed) (.conflictingBranchIdentities expected observed)
  | _, _ => .ok ()

/-- One event of the walk to the root: the lineage with it, and how the walk goes on. -/
def step (target : BranchResolutionTarget) (trace : Trace)
    : Except UnresolvedBranchReason (List EventKey × Option NormalizedEvent) := do
  let visited ← index.visit trace.visited trace.current
  checkBranch target trace.current
  let parent ← index.parent trace.current
  return (visited, parent)

abbrev Lineage := List NormalizedEvent × Bool

def tracePass (target : BranchResolutionTarget) (trace : Trace)
    : Pass Trace (Except UnresolvedBranchReason Lineage) :=
  match index.step target trace with
  | .error reason => .done (.error reason)
  | .ok (_, none) => .done (.ok (trace.current :: trace.lineage, trace.current.parentId.isSome))
  | .ok (visited, some parent) =>
      .again
        {
          lineage := trace.current :: trace.lineage
          visited := visited
          current := parent
        }

def activeBranch (target : BranchResolutionTarget) (leaf : NormalizedEvent) (lineage : Lineage)
    : ActiveBranch :=
  let compactionCount := lineage.1.countP (·.kind = .compaction)
  {
    branchId := target.targetBranchId <|> lineage.1.reverse.findSome? (·.branchId)
    leafEventId := leaf.eventId
    events := lineage.1
    currentEpoch := epochName compactionCount
    compactionCount := compactionCount
    taskBoundaryCount := lineage.1.countP (·.kind = .taskBoundary)
    ancestorChainTruncated := lineage.2
  }

def trace (fuel : Nat) (leaf : NormalizedEvent) (target : BranchResolutionTarget)
    : Option (Except UnresolvedBranchReason ActiveBranch) := do
  let result ← loop (index.tracePass target) fuel { lineage := [], visited := [], current := leaf }
  return result.map (activeBranch target leaf)

-- Selection

def inScope (target : BranchResolutionTarget) : List (EventKey × NormalizedEvent) :=
  index.events.filter fun entry => matchesTarget entry.2 target

/-- The events in scope that no parent link leads to, or the first conflict in scope. -/
def leaves (target : BranchResolutionTarget)
    : Except UnresolvedBranchReason (List NormalizedEvent) :=
  match (index.inScope target).find? fun entry => entry.1 ∈ index.conflicts with
  | some entry => .error (.conflictingEventDefinitions entry.1.eventId)
  | none =>
      .ok (((index.inScope target).filter fun entry => index.kids entry.1 = []).map Prod.snd)

def loneEvent (events : List NormalizedEvent) (target : BranchResolutionTarget)
    : Option NormalizedEvent :=
  match events with
  | [event] => if event.eventId = none ∧ matchesTarget event target = true then some event else none
  | _ => none

/-- The outcome where no event in scope is a leaf. -/
def selectNone (fuel : Nat) (events : List NormalizedEvent) (target : BranchResolutionTarget)
    : ExceptT UnresolvedBranchReason Option NormalizedEvent :=
  match loneEvent events target with
  | some event => pure event
  | none =>
      match index.inScope target with
      | [] => throw .noMatchingEvents
      | (_, event) :: _ => do
          let _ ← ExceptT.mk (index.trace fuel event target)
          throw .noMatchingEvents

def selectFork (fuel : Nat) (events : List NormalizedEvent) (target : BranchResolutionTarget)
    (leaves : List NormalizedEvent)
    : ExceptT UnresolvedBranchReason Option NormalizedEvent := do
  let substantive ← ExceptT.lift (index.substantiveLeaves fuel target)
  match substantive with
  | [leaf] => return leaf
  | [] => throw (forks leaves)
  | _ =>
      match index.afterUnlinkedCompaction events substantive with
      | some leaf => return leaf
      | none => throw (forks substantive)

def selectTarget (target : BranchResolutionTarget) (eventId : EventId)
    : Except UnresolvedBranchReason NormalizedEvent :=
  match (index.inScope target).filter fun entry => entry.2.eventId = some eventId with
  | [] => .error (.targetEventNotFound eventId)
  | [entry] => .ok entry.2
  | _ => .error (.ambiguousEventIdentity eventId)

def select (fuel : Nat) (events : List NormalizedEvent) (target : BranchResolutionTarget)
    : ExceptT UnresolvedBranchReason Option NormalizedEvent :=
  match target.targetEventId with
  | some eventId => ExceptT.mk (some (index.selectTarget target eventId))
  | none => do
      let leaves ← ExceptT.mk (some (index.leaves target))
      match leaves with
      | [leaf] => return leaf
      | [] => index.selectNone fuel events target
      | _ => index.selectFork fuel events target leaves

end Index

/-- The resolution of the active branch, or none where the fuel does not suffice. -/
def resolve (fuel : Nat) (events : List NormalizedEvent) (target : BranchResolutionTarget)
    (responses : List (EventId × String))
    : Option BranchResolution :=
  if events = [] then some (.unresolved .emptyHistory)
  else do
    let index := Index.new events responses
    let result ←
      (do
        let leaf ← index.select fuel events target
        ExceptT.mk (index.trace fuel leaf target)
        : ExceptT UnresolvedBranchReason Option ActiveBranch).run
    match result with
    | .ok branch => return .resolved branch
    | .error reason => return .unresolved reason

end SkillRanker.Context
