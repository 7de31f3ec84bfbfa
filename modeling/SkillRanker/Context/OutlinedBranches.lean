import SkillRanker.Context.Disclosure

/-! Events without their texts and the bodies of their tools: what a selection may read of them. -/

namespace SkillRanker.Context

open SkillRanker.Library SkillRanker.Privacy

section

def ToolEvent.outline (tool : ToolEvent) : ToolEvent where
  callId := tool.callId
  name := ""
  status := .unknown
  arguments := none
  result := none

def NormalizedEvent.outline (event : NormalizedEvent) : NormalizedEvent :=
  { event with
    text := ""
    tool := event.tool.map ToolEvent.outline
  }

variable (event : NormalizedEvent)

@[simp]
theorem eventId_outline : event.outline.eventId = event.eventId := rfl

@[simp]
theorem key_outline : key event.outline = key event := rfl

@[simp]
theorem countsAsTool_outline
    : countsAsTool event.outline = countsAsTool event := rfl

@[simp]
theorem countsAsMessage_outline
    : countsAsMessage event.outline = countsAsMessage event := rfl

@[simp]
theorem namesCurrent_outline (context : NormalizedContext) (event : NormalizedEvent)
    : context.namesCurrent event.outline = context.namesCurrent event := rfl

@[simp]
theorem inScope_outline (context : NormalizedContext) (event : NormalizedEvent)
    : context.inScope event.outline = context.inScope event := rfl

theorem countP_of_outlines {counts : NormalizedEvent → Bool}
    (reads : ∀ event, counts event.outline = counts event) {events others : List NormalizedEvent}
    (same : events.map NormalizedEvent.outline = others.map NormalizedEvent.outline)
    : events.countP counts = others.countP counts := by
  have count (events : List NormalizedEvent)
      : (events.map NormalizedEvent.outline).countP counts = events.countP counts := by
    rw [List.countP_map]
    exact List.countP_congr fun event _ => by rw [Function.comp_apply, reads]
  rw [← count events, same, count others]

theorem filter_of_outlines (keeps : NormalizedEvent → Bool)
    (reads : ∀ event, keeps event.outline = keeps event) {events others : List NormalizedEvent}
    (same : events.map NormalizedEvent.outline = others.map NormalizedEvent.outline)
    : (events.filter keeps).map NormalizedEvent.outline
      = (others.filter keeps).map NormalizedEvent.outline := by
  have filtered (events : List NormalizedEvent)
      : (events.filter keeps).map NormalizedEvent.outline
        = (events.map NormalizedEvent.outline).filter keeps := by
    rw [List.filter_map]
    congr 1
    exact List.filter_congr fun event _ => (reads event).symm
  rw [filtered events, same, filtered others]

-- Labels

variable {scanner : Scanner} {options : RenderContextOptions}
variable {labels : Labels}

theorem prepareLabel_outline {next : Labels} {event : NormalizedEvent}
    (prepared : prepareLabel scanner options labels event = returned (.ok next))
    : next.events.map NormalizedEvent.outline
      = labels.events.map NormalizedEvent.outline ++ [event.outline] := by
  unfold prepareLabel at prepared
  split at prepared
  · cases prepared
    rw [List.map_append]
    rfl
  next tool labelled =>
      obtain ⟨_, _, prepared⟩ := bind_eq_returned.mp prepared
      obtain ⟨label, _, prepared⟩ := bind_eq_returned.mp prepared
      obtain ⟨name, _, prepared⟩ := bind_eq_returned.mp prepared
      have has : event.tool = some tool := by
        unfold labelledTool at labelled
        split at labelled
        · exact labelled
        · cases labelled
      cases prepared
      rw [List.map_append]
      congr 1
      unfold NormalizedEvent.outline
      rw [has]
      rfl

/-- The preparation of labels leaves the outlines, by induction on the events. -/
theorem foldlM_prepareLabel_outline {last : Labels} {events : List NormalizedEvent}
    (prepared : events.foldlM (prepareLabel scanner options) labels = returned (.ok last))
    : last.events.map NormalizedEvent.outline
      = labels.events.map NormalizedEvent.outline ++ events.map NormalizedEvent.outline := by
  induction events generalizing labels with
  | nil =>
      cases prepared
      exact (List.append_nil _).symm
  | cons event rest ih =>
      rw [List.foldlM_cons] at prepared
      obtain ⟨next, first, prepared⟩ := bind_eq_returned.mp prepared
      rw [ih prepared, prepareLabel_outline first, List.append_assoc]
      rfl

theorem prepareLabels_outline {events : List NormalizedEvent}
    (prepared : prepareLabels scanner options events = returned (.ok labels))
    : labels.events.map NormalizedEvent.outline = events.map NormalizedEvent.outline := by
  unfold prepareLabels at prepared
  split at prepared
  · cases prepared
    rfl
  · exact foldlM_prepareLabel_outline prepared

end

-- The resolution of a branch reads outlines alone, as long as it succeeds

def outlined (entry : EventKey × NormalizedEvent) : EventKey × NormalizedEvent :=
  (entry.1, entry.2.outline)

theorem answersOwnCall_outline (result : NormalizedEvent) (call : Option NormalizedEvent)
    : answersOwnCall result.outline (call.map NormalizedEvent.outline)
      = answersOwnCall result call := by
  have same (event : NormalizedEvent) : callId event.outline = callId event := by
    unfold callId NormalizedEvent.outline
    cases event.tool <;> rfl
  cases call with
  | none => rfl
  | some call =>
      change decide (_ ∧ _ ∧ callId result.outline ≠ none ∧ callId result.outline = callId call.outline)
        = _
      rw [same result, same call]
      rfl

namespace Index

/-- An index of outlines. It may hold fewer conflicts, since events may differ in their bodies
alone.
-/
structure OutlineOf (index outline : Index) : Prop where
  events : outline.events = index.events.map outlined
  responses : outline.responses = index.responses
  severed : outline.severed = index.severed
  conflicts : ∀ eventKey ∈ outline.conflicts, eventKey ∈ index.conflicts

namespace OutlineOf

variable {index outline : Index} (of : OutlineOf index outline)

include of

theorem keys : outline.events.map Prod.fst = index.events.map Prod.fst := by
  rw [of.events, List.map_map]
  rfl

variable (eventKey : EventKey)

theorem lookup
    : outline.events.lookup eventKey
      = (index.events.lookup eventKey).map NormalizedEvent.outline := by
  rw [of.events]
  induction index.events with
  | nil => rfl
  | cons entry rest ih =>
      rw [List.map_cons, outlined, List.lookup_cons, List.lookup_cons, ih]
      split <;> rfl

theorem byAgent (agentId : Option AgentId) (eventId : EventId)
    : outline.byAgent agentId eventId = index.byAgent agentId eventId := by
  unfold Index.byAgent
  rw [of.keys]

variable (event : NormalizedEvent)

theorem parent
    : outline.parent event.outline
      = (index.parent event).map (Option.map NormalizedEvent.outline) := by
  unfold Index.parent
  rw [show event.outline.parentId = event.parentId from rfl, key_outline, of.severed,
    show event.outline.agentId = event.agentId from rfl,
    show event.outline.branchId = event.branchId from rfl]
  split
  · rfl
  · split
    · rfl
    · rw [of.lookup, of.byAgent]
      split
      next found same =>
          obtain ⟨event, is, rfl⟩ := Option.map_eq_some_iff.mp same
          rw [is]
          rfl
      next none =>
          rw [Option.map_eq_none_iff] at none
          rw [none]
          split
          · rfl
          next candidate =>
              rw [of.lookup]
              rfl
          · rfl

theorem leadsTo (boundary : EventKey) (links : Nat) (event : NormalizedEvent)
    : outline.leadsTo boundary links event.outline = index.leadsTo boundary links event := by
  induction links generalizing event with
  | zero => rfl
  | succ links ih =>
      rw [Index.leadsTo, Index.leadsTo, of.parent]
      cases index.parent event with
      | error reason => rfl
      | ok parent =>
          cases parent with
          | none => rfl
          | some parent =>
              change (_ || outline.leadsTo boundary links parent.outline) = _
              rw [ih parent]
              rfl

theorem parentOf (child : EventKey) : outline.parentOf child = index.parentOf child := by
  unfold Index.parentOf
  rw [of.lookup]
  cases index.events.lookup child with
  | none => rfl
  | some event =>
      simp only [Option.map_some, Option.bind_eq_bind, Option.bind_some]
      rw [of.parent]
      cases index.parent event with
      | error reason => rfl
      | ok parent => cases parent <;> rfl

theorem kids (parent : EventKey) : outline.kids parent = index.kids parent := by
  unfold Index.kids
  rw [of.keys]
  exact List.filter_congr fun child _ => by rw [of.parentOf]

theorem isNotice : outline.isNotice eventKey = index.isNotice eventKey := by
  unfold Index.isNotice
  rw [of.lookup]
  cases index.events.lookup eventKey with
  | none => rfl
  | some event =>
      change carriesNoConversation event.outline = carriesNoConversation event
      unfold carriesNoConversation NormalizedEvent.outline
      cases event.tool <;> rfl

theorem prune (state : Pruning)
    : outline.prune eventKey state = index.prune eventKey state := by
  unfold Index.prune
  rw [of.parentOf]

theorem pruneNotices (fuel : Nat) : outline.pruneNotices fuel = index.pruneNotices fuel := by
  have pass : outline.noticePass = index.noticePass := by
    funext ⟨state, pending⟩
    cases pending with
    | nil => rfl
    | cons candidate pending =>
        rw [Index.noticePass, Index.noticePass, of.isNotice, of.prune]
  have start : outline.unpruned = index.unpruned := by
    unfold Index.unpruned
    congr 1
    funext eventKey
    rw [of.kids]
  have pending : (fun eventKey => decide (outline.kids eventKey = []))
      = fun eventKey => decide (index.kids eventKey = []) := by
    funext eventKey
    rw [of.kids]
  unfold Index.pruneNotices
  rw [pass, start, of.keys, pending]

theorem besideOwnCall
    : outline.besideOwnCall eventKey = index.besideOwnCall eventKey := by
  unfold Index.besideOwnCall
  rw [of.parentOf]
  congr 1
  funext parent
  rw [of.lookup, of.lookup]
  cases index.events.lookup eventKey with
  | none => rfl
  | some event => exact answersOwnCall_outline event _

theorem sideResults (state : Pruning) : outline.sideResults state = index.sideResults state := by
  unfold Index.sideResults
  rw [of.keys]
  exact List.filter_congr fun eventKey _ => by rw [of.besideOwnCall]

theorem pruneSideResult (results : List EventKey)
    : outline.pruneSideResult results = index.pruneSideResult results := by
  funext state result
  unfold Index.pruneSideResult
  rw [of.parentOf]
  simp only [of.parentOf, of.prune]

theorem parent_eq_none
    : outline.parent event.outline = .ok none ↔ index.parent event = .ok none := by
  rw [of.parent]
  cases index.parent event with
  | error reason => simp [Except.map]
  | ok parent => cases parent <;> simp [Except.map]

theorem isOrphan
    : outline.isOrphan event.outline = index.isOrphan event := by
  unfold Index.isOrphan
  simp only [of.parent_eq_none]
  rfl

theorem pruneOrphans (state : Pruning)
    : outline.events.foldl outline.pruneOrphan state
      = index.events.foldl index.pruneOrphan state := by
  have step (state : Pruning) (entry : EventKey × NormalizedEvent)
      : outline.pruneOrphan state (outlined entry) = index.pruneOrphan state entry := by
    unfold Index.pruneOrphan
    rw [show (outlined entry).2 = entry.2.outline from rfl, of.isOrphan]
    rfl
  rw [of.events, List.foldl_map]
  congr 1
  funext state entry
  exact step state entry

theorem remaining (target : BranchResolutionTarget) (state : Pruning)
    : outline.remaining target state
      = (index.remaining target state).map NormalizedEvent.outline := by
  unfold Index.remaining
  rw [of.events, List.filter_map, List.map_map, List.map_map]
  rfl

/-- The leaves that a conversation without responses may continue from. -/
theorem substantiveLeaves (alone : index.responses = []) (fuel : Nat)
    (target : BranchResolutionTarget)
    : outline.substantiveLeaves fuel target
      = (index.substantiveLeaves fuel target).map (List.map NormalizedEvent.outline) := by
  unfold Index.substantiveLeaves
  rw [of.pruneNotices, of.responses, alone]
  cases index.pruneNotices fuel with
  | none => rfl
  | some state =>
      change some (outline.remaining target _) = some ((index.remaining target _).map _)
      rw [of.sideResults, of.pruneSideResult, of.pruneOrphans, of.remaining]

-- The leaf

theorem unlinked
    : outline.unlinked event.outline = index.unlinked event := by
  unfold Index.unlinked
  simp only [of.parent_eq_none]
  rfl

theorem descends (boundary : EventKey) (links : Nat) (event : NormalizedEvent)
    : outline.descends boundary links event.outline = index.descends boundary links event := by
  induction links generalizing event with
  | zero => rfl
  | succ links ih =>
      rw [Index.descends, Index.descends, of.parent]
      cases index.parent event with
      | error reason => rfl
      | ok parent =>
          cases parent with
          | none => rfl
          | some parent =>
              change (_ || outline.descends boundary links parent.outline) = _
              rw [ih parent]
              rfl

theorem afterUnlinkedCompaction (events leaves : List NormalizedEvent)
    : outline.afterUnlinkedCompaction (events.map NormalizedEvent.outline)
        (leaves.map NormalizedEvent.outline)
      = (index.afterUnlinkedCompaction events leaves).map NormalizedEvent.outline := by
  have compactions : (events.map NormalizedEvent.outline).zipIdx.reverse.find?
        (fun entry => outline.unlinked entry.1)
      = (events.zipIdx.reverse.find? fun entry => index.unlinked entry.1).map
          (Prod.map NormalizedEvent.outline id) := by
    rw [List.zipIdx_map, ← List.map_reverse, List.find?_map]
    congr 1
    congr 1
    funext entry
    exact of.unlinked entry.1
  unfold Index.afterUnlinkedCompaction
  rw [compactions]
  cases events.zipIdx.reverse.find? (fun entry => index.unlinked entry.1) with
  | none => rfl
  | some found =>
      obtain ⟨compaction, position⟩ := found
      simp only [Option.map_some, Option.bind_eq_bind, Option.bind_some, Prod.map, key_outline,
        List.length_map, List.filter_map]
      cases key compaction with
      | none => rfl
      | some boundary =>
          have descending : outline.descends boundary (events.length + 1) ∘ NormalizedEvent.outline
              = index.descends boundary (events.length + 1) :=
            funext fun event => of.descends boundary _ event
          simp only [Option.bind_some, descending]
          generalize leaves.filter (index.descends boundary (events.length + 1)) = continuing
          have earlier (other : NormalizedEvent)
              : ((events.map NormalizedEvent.outline).take position).any
                  (fun event => decide (key event = key other))
                = (events.take position).any fun event => decide (key event = key other) := by
            rw [← List.map_take, List.any_map]
            rfl
          match continuing with
          | [] => rfl
          | [leaf] =>
              simp only [List.map_cons, List.map_nil, List.all_map, earlier, key_outline,
                Function.comp_def, id_eq]
              rw [apply_ite (Option.map NormalizedEvent.outline)]
              rfl
          | _ :: _ :: _ => rfl

variable {target : BranchResolutionTarget}

theorem leaves {leaves : List NormalizedEvent} (found : index.leaves target = .ok leaves)
    : outline.leaves target = .ok (leaves.map NormalizedEvent.outline) := by
  have inScope : outline.inScope target = (index.inScope target).map outlined := by
    unfold Index.inScope
    rw [of.events, List.filter_map]
    rfl
  unfold Index.leaves at found ⊢
  split at found
  · cases found
  next free =>
      cases found
      have still : (outline.inScope target).find? (fun entry => decide (entry.1 ∈ outline.conflicts))
          = none := by
        rw [inScope, List.find?_eq_none]
        intro entry mem conflict
        obtain ⟨original, inOriginal, rfl⟩ := List.mem_map.mp mem
        have apart := List.find?_eq_none.mp free original inOriginal
        exact apart (decide_eq_true (of.conflicts _ (of_decide_eq_true conflict)))
      have childless : (fun entry => decide (outline.kids entry.1 = [])) ∘ outlined
          = fun entry => decide (index.kids entry.1 = []) := by
        funext entry
        change decide (outline.kids entry.1 = []) = _
        rw [of.kids]
      rw [still, inScope, List.filter_map, childless, List.map_map, List.map_map]
      rfl

variable {leaf : NormalizedEvent}

theorem selectTarget {eventId : EventId} (selected : index.selectTarget target eventId = .ok leaf)
    : outline.selectTarget target eventId = .ok leaf.outline := by
  have named : (outline.inScope target).filter (fun entry => decide (entry.2.eventId = some eventId))
      = ((index.inScope target).filter fun entry => decide (entry.2.eventId = some eventId)).map
          outlined := by
    unfold Index.inScope
    rw [of.events, List.filter_map, List.filter_map]
    rfl
  unfold Index.selectTarget at selected ⊢
  rw [named]
  revert selected
  generalize (index.inScope target).filter _ = candidates
  intro selected
  match candidates with
  | [] => cases selected
  | [entry] =>
      cases selected
      rfl
  | _ :: _ :: _ => cases selected

omit of in
theorem selectNone {fuel : Nat} {events : List NormalizedEvent}
    (selected : (index.selectNone fuel events target).run = some (.ok leaf))
    : (outline.selectNone fuel (events.map NormalizedEvent.outline) target).run
      = some (.ok leaf.outline) := by
  have lone : loneEvent (events.map NormalizedEvent.outline) target
      = (loneEvent events target).map NormalizedEvent.outline := by
    match events with
    | [] => rfl
    | [event] =>
        change (if event.outline.eventId = none ∧ matchesTarget event.outline target = true then
          some event.outline else none) = _
        unfold loneEvent
        rw [apply_ite (Option.map NormalizedEvent.outline)]
        rfl
    | _ :: _ :: _ => rfl
  unfold Index.selectNone at selected ⊢
  rw [lone]
  cases only : loneEvent events target with
  | some event =>
      rw [only] at selected
      cases selected
      rfl
  | none =>
      rw [only] at selected
      dsimp only at selected
      split at selected
      · cases selected
      · obtain ⟨_, _, thrown⟩ := run_bind_eq_some_ok.mp selected
        cases thrown

theorem selectFork (alone : index.responses = []) {fuel : Nat}
    {events leaves : List NormalizedEvent}
    (selected : (index.selectFork fuel events target leaves).run = some (.ok leaf))
    : (outline.selectFork fuel (events.map NormalizedEvent.outline) target
          (leaves.map NormalizedEvent.outline)).run
      = some (.ok leaf.outline) := by
  obtain ⟨substantive, found, selected⟩ := run_bind_eq_some_ok.mp selected
  have found := present_eq_returned.mp found
  refine run_bind_eq_some_ok.mpr ⟨substantive.map NormalizedEvent.outline, ?_, ?_⟩
  · refine present_eq_returned.mpr ?_
    rw [of.substantiveLeaves alone, found]
    rfl
  · match substantive with
    | [] => cases selected
    | [only] =>
        cases selected
        rfl
    | first :: second :: more =>
        have after := of.afterUnlinkedCompaction events (first :: second :: more)
        dsimp only [List.map_cons] at after selected ⊢
        rw [after]
        split at selected
        next continued =>
            cases selected
            rw [continued]
            rfl
        · cases selected

/-- A leaf is selected among outlines where its event is selected among events. -/
theorem select (alone : index.responses = []) {fuel : Nat} {events : List NormalizedEvent}
    (selected : (index.select fuel events target).run = some (.ok leaf))
    : (outline.select fuel (events.map NormalizedEvent.outline) target).run
      = some (.ok leaf.outline) := by
  unfold Index.select at selected ⊢
  cases asked : target.targetEventId with
  | some eventId =>
      rw [asked] at selected
      exact congrArg some (of.selectTarget (Option.some.inj selected))
  | none =>
      rw [asked] at selected
      obtain ⟨leaves, found, selected⟩ := run_bind_eq_some_ok.mp selected
      refine run_bind_eq_some_ok.mpr
        ⟨leaves.map NormalizedEvent.outline, congrArg some (of.leaves (Option.some.inj found)), ?_⟩
      match leaves with
      | [only] =>
          cases selected
          rfl
      | [] => exact selectNone selected
      | _ :: _ :: _ => exact of.selectFork alone selected

-- The walk to the root

def outlinedTrace (trace : Trace) : Trace where
  lineage := trace.lineage.map NormalizedEvent.outline
  visited := trace.visited
  current := trace.current.outline

theorem visit {visited after : List EventKey} {event : NormalizedEvent}
    (passed : index.visit visited event = .ok after)
    : outline.visit visited event.outline = .ok after := by
  unfold Index.visit at passed ⊢
  rw [key_outline]
  cases identity : key event with
  | none =>
      rw [identity] at passed
      exact passed
  | some eventKey =>
      rw [identity] at passed
      obtain ⟨_, checked, same⟩ := bind_eq_ok.mp passed
      obtain ⟨_, free, distinct⟩ := bind_eq_ok.mp checked
      refine bind_eq_ok.mpr ⟨(), bind_eq_ok.mpr ⟨(), ?_, distinct⟩, same⟩
      exact ensure_eq_ok.mpr fun conflict =>
        ensure_eq_ok.mp free (of.conflicts eventKey conflict)

theorem step {trace : Trace} {visited : List EventKey} {parent : Option NormalizedEvent}
    (passed : index.step target trace = .ok (visited, parent))
    : outline.step target (outlinedTrace trace)
      = .ok (visited, parent.map NormalizedEvent.outline) := by
  obtain ⟨after, visits, passed⟩ := bind_eq_ok.mp passed
  obtain ⟨_, inBranch, passed⟩ := bind_eq_ok.mp passed
  obtain ⟨found, links, passed⟩ := bind_eq_ok.mp passed
  obtain ⟨rfl, rfl⟩ := Prod.mk.inj (Except.ok.inj passed)
  refine bind_eq_ok.mpr ⟨after, of.visit visits, bind_eq_ok.mpr ⟨(), inBranch, ?_⟩⟩
  refine bind_eq_ok.mpr ⟨found.map NormalizedEvent.outline, ?_, rfl⟩
  change outline.parent trace.current.outline = _
  rw [of.parent, links]
  rfl

def outlinedBranch (branch : ActiveBranch) : ActiveBranch :=
  { branch with events := branch.events.map NormalizedEvent.outline }

def outlinedLineage (lineage : Lineage) : Lineage :=
  (lineage.1.map NormalizedEvent.outline, lineage.2)

theorem tracePass_again {trace next : Trace} (passed : index.tracePass target trace = .again next)
    : outline.tracePass target (outlinedTrace trace) = .again (outlinedTrace next) := by
  unfold Index.tracePass at passed ⊢
  split at passed
  · cases passed
  · cases passed
  next visited parent stepped =>
      rw [of.step stepped]
      cases passed
      rfl

theorem tracePass_done {trace : Trace} {lineage : Lineage}
    (passed : index.tracePass target trace = .done (.ok lineage))
    : outline.tracePass target (outlinedTrace trace) = .done (.ok (outlinedLineage lineage)) := by
  unfold Index.tracePass at passed ⊢
  split at passed
  · cases passed
  next visited stepped =>
      rw [of.step stepped]
      cases passed
      rfl
  · cases passed

omit of in
theorem activeBranch_outline (target : BranchResolutionTarget) (leaf : NormalizedEvent)
    (lineage : Lineage)
    : activeBranch target leaf.outline (outlinedLineage lineage)
      = outlinedBranch (activeBranch target leaf lineage) := by
  unfold activeBranch outlinedLineage outlinedBranch
  simp only [List.countP_map, ← List.map_reverse, List.findSome?_map, Function.comp_def]
  rfl

theorem trace {fuel : Nat} {branch : ActiveBranch}
    (traced : index.trace fuel leaf target = some (.ok branch))
    : outline.trace fuel leaf.outline target = some (.ok (outlinedBranch branch)) := by
  obtain ⟨result, looped, traced⟩ := Option.bind_eq_some_iff.mp traced
  have traced := Option.some.inj traced
  cases result with
  | error reason => cases traced
  | ok lineage =>
      cases traced
      have imitated : loop (outline.tracePass target) fuel
            (outlinedTrace { lineage := [], visited := [], current := leaf })
          = some (Except.map outlinedLineage (.ok lineage)) := by
        refine loop_imitated (fun result => result.isOk = true) (fun _ _ => of.tracePass_again) ?_ rfl
          looped
        intro state result passed good
        cases result with
        | error reason => cases good
        | ok lineage => exact of.tracePass_done passed
      unfold Index.trace
      refine Option.bind_eq_some_iff.mpr ⟨_, imitated, ?_⟩
      exact congrArg some (congrArg Except.ok (activeBranch_outline target leaf lineage))

end OutlineOf

-- The index of outlines

theorem insertEntry_outlined (eventKey : EventKey) (event : NormalizedEvent)
    (entries : List (EventKey × NormalizedEvent))
    : insertEntry eventKey event.outline (entries.map outlined)
      = (insertEntry eventKey event entries).map outlined := by
  induction entries with
  | nil => rfl
  | cons entry rest ih =>
      obtain ⟨other, kept⟩ := entry
      change insertEntry eventKey event.outline ((other, kept.outline) :: rest.map outlined) = _
      rw [insertEntry, insertEntry]
      split
      · rfl
      · split
        · rfl
        · rw [ih]
          rfl

theorem OutlineOf.add {index outline : Index} (of : OutlineOf index outline)
    (event : NormalizedEvent)
    : OutlineOf (index.add event) (outline.add event.outline) := by
  cases identity : key event with
  | none =>
      rw [add_of_no_key identity, add_of_no_key ((key_outline event).trans identity)]
      exact of
  | some eventKey =>
      have identityOutline : key event.outline = some eventKey := (key_outline event).trans identity
      have responses : (outline.add event.outline).responses = (index.add event).responses := by
        rw [add_responses, add_responses, of.responses]
      have severed : (outline.add event.outline).severed = (index.add event).severed := by
        rw [add_severed, add_severed, of.severed]
      have found := of.lookup eventKey
      rcases add_of_key index identity with ⟨absent, events, conflicts⟩ | ⟨first, is, events, conflicts⟩
      · rw [absent] at found
        rcases add_of_key outline identityOutline with ⟨_, outlines, others⟩ | ⟨_, present, _, _⟩
        · refine ⟨?_, responses, severed, ?_⟩
          · rw [outlines, events, of.events, insertEntry_outlined]
          · rw [others, conflicts]
            exact of.conflicts
        · rw [found] at present
          cases present
      · rw [is] at found
        rcases add_of_key outline identityOutline with ⟨absent, _, _⟩ | ⟨same, present, outlines, others⟩
        · rw [found] at absent
          cases absent
        · refine ⟨by rw [outlines, events, of.events], responses, severed, ?_⟩
          rw [found] at present
          obtain rfl := Option.some.inj present
          rw [others, conflicts]
          intro other mem
          by_cases same : first = event
          · subst same
            rw [if_neg (not_not.mpr rfl)] at mem ⊢
            exact of.conflicts other mem
          · rw [if_pos same]
            split at mem
            · rcases List.mem_cons.mp mem with rfl | earlier
              · exact List.mem_cons_self
              · exact List.mem_cons_of_mem _ (of.conflicts other earlier)
            · exact List.mem_cons_of_mem _ (of.conflicts other mem)

theorem new_outline (events : List NormalizedEvent) (responses : List (EventId × String))
    : OutlineOf (new events responses) (new (events.map NormalizedEvent.outline) responses) := by
  have gathered (start other : Index) (of : OutlineOf start other)
      : OutlineOf (events.foldl Index.add start)
          ((events.map NormalizedEvent.outline).foldl Index.add other) := by
    induction events generalizing start other with
    | nil => exact of
    | cons event rest ih => exact ih _ _ (of.add event)
  have of := gathered (empty responses) (empty responses) ⟨rfl, rfl, rfl, fun _ mem => mem⟩
  refine ⟨of.events, of.responses, ?_, of.conflicts⟩
  unfold new
  dsimp only
  rw [of.events, List.filter_map, List.map_map, List.length_map]
  congr 1
  refine List.filter_congr fun entry _ => ?_
  change decide (entry.2.kind = .compaction ∧ Index.leadsTo _ entry.1 _ entry.2.outline = true) = _
  rw [of.leadsTo]

end Index

/-- A branch that is resolved among events is resolved among their outlines. -/
theorem resolve_outline {fuel : Nat} {events : List NormalizedEvent}
    {target : BranchResolutionTarget} {branch : ActiveBranch}
    (resolved : resolve fuel events target [] = some (.resolved branch))
    : resolve fuel (events.map NormalizedEvent.outline) target []
      = some (.resolved (Index.OutlineOf.outlinedBranch branch)) := by
  obtain ⟨some, leaf, selected, traced⟩ := resolve_parts resolved
  have someOutlines : events.map NormalizedEvent.outline ≠ [] := by
    rwa [ne_eq, List.map_eq_nil_iff]
  rw [resolve_eq someOutlines]
  have of := Index.new_outline events []
  have alone : (Index.new events []).responses = [] := Index.gathered_responses events []
  exact Option.map_eq_some_iff.mpr
    ⟨_, run_bind_eq_some_ok.mpr ⟨leaf.outline, of.select alone selected, of.trace traced⟩, rfl⟩

end SkillRanker.Context
