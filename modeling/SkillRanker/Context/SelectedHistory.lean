import SkillRanker.Context.SoundBranches
import SkillRanker.Library.Panics

/-! The history of the active request: the earlier events that may be rendered. -/

namespace SkillRanker.Context

open SkillRanker.Library

structure CurrentRequest where
  eventId : Option EventId
  text : String
  essentialAttachmentMissing : Bool
deriving DecidableEq

structure NormalizedContext where
  harness : HarnessId
  agentId : Option AgentId
  branchId : Option BranchId
  currentRequest : CurrentRequest
  events : List NormalizedEvent
deriving DecidableEq

namespace NormalizedContext

variable (context : NormalizedContext)

def inScope (event : NormalizedEvent) : Bool :=
  event.agentId = context.agentId && event.branchId = context.branchId

def namesCurrent (event : NormalizedEvent) : Bool :=
  event.eventId.isSome && event.eventId = context.currentRequest.eventId

def ownEvents : List NormalizedEvent := context.events.filter context.inScope

def hasCurrent : Bool := context.ownEvents.any context.namesCurrent

def isCurrent (event : NormalizedEvent) : Bool :=
  context.namesCurrent event && context.inScope event

def others : List NormalizedEvent := context.events.filter fun event => !context.isCurrent event

end NormalizedContext

def ambiguousHistory : String := "active request history cannot be resolved unambiguously"

def conflictingHistory : String := "active request history contains conflicting event definitions"

def wrongRequest : String := "current request event does not match its declared scope or role"

/-- Where a flat history stands: the first event of each identifier, whether the current request
was met, and what was selected.
-/
structure FlatHistory where
  seen : List (EventId × NormalizedEvent)
  pastCurrent : Bool
  selected : List NormalizedEvent

namespace FlatHistory

def empty : FlatHistory where
  seen := []
  pastCurrent := false
  selected := []

/-- Takes an event in unless the current request was met before. -/
def push (history : FlatHistory) (event : NormalizedEvent) : FlatHistory :=
  if history.pastCurrent then history
  else { history with selected := history.selected ++ [event] }

def take (context : NormalizedContext) (history : FlatHistory) (event : NormalizedEvent)
    : Except String FlatHistory :=
  match event.eventId with
  | none => .ok (history.push event)
  | some eventId =>
      match history.seen.lookup eventId with
      | some previous => do
          ensure (previous = event) conflictingHistory
          return history
      | none =>
          .ok
            (FlatHistory.push
              { history with
                seen := (eventId, event) :: history.seen
                pastCurrent := history.pastCurrent || context.namesCurrent event
              }
              event)

end FlatHistory

namespace NormalizedContext

variable (context : NormalizedContext)

def checkRequest : Except String Unit := do
  ensure (context.hasCurrent = true ∨ ¬ context.events.any context.namesCurrent = true) wrongRequest
  ensure
    (∀ event ∈ context.ownEvents, context.namesCurrent event = true →
      event.role = .user ∧ event.kind = .message)
    wrongRequest

def target : BranchResolutionTarget where
  targetEventId := if context.hasCurrent then context.currentRequest.eventId else none
  targetBranchId := context.branchId
  targetAgentId := context.agentId

def sameAgent : List NormalizedEvent :=
  context.events.filter fun event => event.agentId = context.agentId

/-- The events in scope have no parent links. -/
def isFlat : Bool := !context.ownEvents.any fun event => event.parentId.isSome

def ofBranch (branch : ActiveBranch) : List NormalizedEvent × Bool :=
  (
    if context.hasCurrent then
      branch.events.filter fun event => event.eventId ≠ context.currentRequest.eventId
    else branch.events,
    branch.ancestorChainTruncated || context.ownEvents.any fun event => event.eventId.isNone
  )

/-- `select`: the earlier events of the request, and whether their parent chain is incomplete. -/
def select (fuel : Nat) : Panicking String (List NormalizedEvent × Bool) := do
  returned context.checkRequest
  if context.isFlat then
    let history ← returned (context.ownEvents.foldlM (FlatHistory.take context) .empty)
    return (history.selected, false)
  else
    let resolution ← present (resolve fuel context.sameAgent context.target [])
    match resolution with
    | .resolved branch => return context.ofBranch branch
    | .unresolved _ => throw ambiguousHistory

end NormalizedContext

-- What a selected history has: earlier events, each once, without the current request

variable {context : NormalizedContext}

-- Flat histories

variable {history : FlatHistory}

theorem FlatHistory.take_selected {next : FlatHistory} {event : NormalizedEvent}
    (taken : FlatHistory.take context history event = .ok next)
    : next.selected = history.selected
      ∨ next.selected = history.selected ++ [event] ∧ context.namesCurrent event = false := by
  unfold FlatHistory.take at taken
  split at taken
  next unnamed =>
      cases taken
      unfold FlatHistory.push
      split
      · exact .inl rfl
      · refine .inr ⟨rfl, ?_⟩
        rw [NormalizedContext.namesCurrent, unnamed]
        rfl
  · split at taken
    · obtain ⟨_, _, same⟩ := bind_eq_ok.mp taken
      cases same
      exact .inl rfl
    · cases taken
      unfold FlatHistory.push
      dsimp only
      split
      · exact .inl rfl
      next before =>
          rw [Bool.or_eq_true, not_or, Bool.not_eq_true, Bool.not_eq_true] at before
          exact .inr ⟨rfl, before.2⟩

/-- What is selected of a flat history keeps the order of the events, by induction on them. -/
theorem FlatHistory.selected_sublist {last : FlatHistory} {events : List NormalizedEvent}
    (ran : events.foldlM (FlatHistory.take context) history = .ok last)
    : ∃ added,
        last.selected = history.selected ++ added
        ∧ added.Sublist (events.filter fun event => !context.namesCurrent event) := by
  induction events generalizing history with
  | nil =>
      cases ran
      exact ⟨[], (List.append_nil _).symm, List.Sublist.refl _⟩
  | cons event rest ih =>
      rw [List.foldlM_cons] at ran
      obtain ⟨next, taken, ran⟩ := bind_eq_ok.mp ran
      obtain ⟨added, is, sublist⟩ := ih ran
      rcases FlatHistory.take_selected taken with same | ⟨more, other⟩
      · rw [same] at is
        refine ⟨added, is, sublist.trans ?_⟩
        exact (List.sublist_cons_self event rest).filter _
      · rw [more, List.append_assoc] at is
        refine ⟨event :: added, is, ?_⟩
        rw [List.filter_cons_of_pos (by rw [other]; rfl)]
        exact sublist.cons_cons event

-- Selected histories

namespace NormalizedContext

variable {event : NormalizedEvent}

/-- Where the current request is not in scope, no event has its identifier. -/
theorem not_namesCurrent (checked : context.checkRequest = .ok ())
    (absent : context.hasCurrent = false) (mem : event ∈ context.events)
    : context.namesCurrent event = false := by
  obtain ⟨_, present, _⟩ := bind_eq_ok.mp checked
  rcases ensure_eq_ok.mp present with has | none
  · rw [absent] at has
    cases has
  · rw [List.any_eq_true, not_exists] at none
    exact Bool.eq_false_iff.mpr fun named => none event ⟨mem, named⟩

/-- The events of a branch that are kept do not name the current request. -/
theorem ofBranch_not_current (checked : context.checkRequest = .ok ()) {branch : ActiveBranch}
    (input : ∀ event ∈ branch.events, event ∈ context.events)
    (mem : event ∈ (context.ofBranch branch).1)
    : event ∈ branch.events ∧ context.namesCurrent event = false := by
  unfold ofBranch at mem
  dsimp only at mem
  split at mem
  · obtain ⟨mem, other⟩ := List.mem_filter.mp mem
    refine ⟨mem, ?_⟩
    unfold namesCurrent
    rw [Bool.and_eq_false_iff]
    exact .inr (decide_eq_false (of_decide_eq_true other))
  next absent =>
      exact ⟨mem, not_namesCurrent checked (Bool.eq_false_iff.mpr absent) (input event mem)⟩

/-- The events are in the order of the envelope, or in the order of a branch from its root. -/
def Chronological (context : NormalizedContext) (history : List NormalizedEvent) : Prop :=
  if context.isFlat then history.Sublist context.events
  else
    ∃ branch,
      SoundBranch context.sameAgent context.target [] branch ∧ history.Sublist branch.events

structure Selected (context : NormalizedContext) (history : List NormalizedEvent) : Prop where
  others : history.Subperm context.others
  earlier : ∀ event ∈ history, context.namesCurrent event = false
  order : Chronological context history

variable {history : List NormalizedEvent}

theorem of_filter_sublist (flat : context.isFlat = true)
    (sublist : history.Sublist (context.ownEvents.filter fun event => !context.namesCurrent event))
    : Selected context history where
  others := by
    refine (sublist.trans ?_).subperm
    unfold ownEvents others
    rw [List.filter_filter]
    refine List.monotone_filter_right _ fun event kept => ?_
    rw [Bool.and_eq_true, Bool.not_eq_true'] at kept
    rw [isCurrent, kept.1]
    rfl
  earlier := by
    intro event mem
    have kept := (List.mem_filter.mp (sublist.subset mem)).2
    rwa [Bool.not_eq_true'] at kept
  order := by
    unfold Chronological
    rw [if_pos flat]
    exact (sublist.trans List.filter_sublist).trans List.filter_sublist

/-- A history that is selected has events of the envelope, each once, and not the current one. -/
theorem select_spec {fuel : Nat} {incomplete : Bool}
    (selected : context.select fuel = returned (.ok (history, incomplete)))
    : Selected context history := by
  obtain ⟨_, checked, selected⟩ := bind_eq_returned.mp selected
  have checked := returned_inj.mp checked
  split at selected
  next flat =>
    obtain ⟨last, ran, same⟩ := bind_eq_returned.mp selected
    obtain ⟨added, is, sublist⟩ := FlatHistory.selected_sublist (returned_inj.mp ran)
    cases same
    rw [is]
    exact of_filter_sublist flat sublist
  next linked =>
    obtain ⟨resolution, resolved, selected⟩ := bind_eq_returned.mp selected
    have resolved := present_eq_returned.mp resolved
    cases resolution with
    | unresolved reason => cases selected
    | resolved branch =>
        have sound := resolve_sound resolved
        have input (event : NormalizedEvent) (mem : event ∈ branch.events)
            : event ∈ context.events :=
          (List.mem_filter.mp (sound.input event mem)).1
        have kept {event : NormalizedEvent} (mem : event ∈ (context.ofBranch branch).1) :=
          ofBranch_not_current checked input mem
        have same : context.ofBranch branch = (history, incomplete) :=
          Except.ok.inj (returned_inj.mp selected)
        obtain rfl : (context.ofBranch branch).1 = history := congrArg Prod.fst same
        refine ⟨List.subperm_of_subset ?_ fun event mem => ?_, fun event mem => (kept mem).2, ?_⟩
        · have distinct := sound.distinct.of_map
          unfold ofBranch
          dsimp only
          split
          · exact distinct.filter _
          · exact distinct
        · refine List.mem_filter.mpr ⟨input event (kept mem).1, ?_⟩
          rw [isCurrent, (kept mem).2]
          rfl
        · unfold Chronological
          rw [if_neg linked]
          refine ⟨branch, sound, ?_⟩
          unfold ofBranch
          dsimp only
          split
          · exact List.filter_sublist
          · exact List.Sublist.refl _

end NormalizedContext

end SkillRanker.Context
