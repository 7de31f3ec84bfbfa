import SkillRanker.Context.Resolution
import SkillRanker.Context.Severance

/-! What holds of every branch that is resolved. -/

namespace SkillRanker.Context

open SkillRanker.Library

variable {leaves : List NormalizedEvent} {leaf : NormalizedEvent}

/-- An event is the parent of another one: the definition of the agent's identifier in the child's
own branch, or the only identity of the agent with that identifier.
-/
structure ParentOf (events : List NormalizedEvent) (parent child : NormalizedEvent) : Prop where
  defined : parent ∈ events
  agentId : parent.agentId = child.agentId
  named : child.parentId ≠ none ∧ parent.eventId = child.parentId
  nearest
    : parent.branchId = child.branchId
      ∨ ∀ other ∈ events,
          other.agentId = child.agentId
          → other.eventId = child.parentId
          → key other = key parent

structure SoundBranch (events : List NormalizedEvent) (target : BranchResolutionTarget)
    (responses : List (EventId × String)) (branch : ActiveBranch)
    : Prop where
  input : ∀ event ∈ branch.events, event ∈ events
  chain : branch.events.IsChain (ParentOf events)
  agentId : ∀ first ∈ branch.events, ∀ second ∈ branch.events, first.agentId = second.agentId
  distinct : (branch.events.map (·.eventId)).Nodup
  definite
    : ∀ event ∈ branch.events,
        ∀ eventKey,
          key event = some eventKey → ¬Index.Redefined events eventKey
  leaf
    : ∃ leaf,
        branch.events.getLast? = some leaf
        ∧ branch.leafEventId = leaf.eventId
        ∧ matchesTarget leaf target = true
        ∧ ∀ eventId, target.targetEventId = some eventId → leaf.eventId = some eventId
  compactions : branch.compactionCount = branch.events.countP (·.kind = .compaction)
  epoch
    : branch.currentEpoch = epochName branch.compactionCount
      ∧ (branch.compactionCount < 2 ^ 64
          → branch.currentEpoch.text = "epoch-" ++ toString branch.compactionCount)
  truncated
    : ∃ root,
        branch.events.head? = some root
        ∧ (branch.ancestorChainTruncated = true
            ↔ root.parentId ≠ none
              ∧ (Index.Missing events root ∨ Index.Severed events responses root))

namespace Index

variable {index : Index} {target : BranchResolutionTarget} {events : List NormalizedEvent}
  {responses : List (EventId × String)}

-- The leaf

/-- A leaf that may be selected: in the scope that was asked for, and indexed unless it is the
only event.
-/
structure Selectable (index : Index) (events : List NormalizedEvent)
    (target : BranchResolutionTarget) (leaf : NormalizedEvent)
    : Prop where
  scope : matchesTarget leaf target = true
  asked : ∀ eventId, target.targetEventId = some eventId → leaf.eventId = some eventId
  indexed : Known index leaf ∨ events = [leaf] ∧ leaf.eventId = none

variable {entry : EventKey × NormalizedEvent}

theorem mem_inScope
    : entry ∈ index.inScope target ↔ entry ∈ index.events ∧ matchesTarget entry.2 target = true :=
  List.mem_filter

/-- A definition in scope may be selected where no event was asked for. -/
theorem selectable_of_mem (unnamed : target.targetEventId = none)
    (mem : entry ∈ index.inScope target)
    : Selectable index events target entry.2 where
  scope := (mem_inScope.mp mem).2
  asked := by
    intro eventId asked
    rw [unnamed] at asked
    cases asked
  indexed := .inl ⟨entry.1, (mem_inScope.mp mem).1⟩

theorem leaves_inScope (found : index.leaves target = .ok leaves) (mem : leaf ∈ leaves)
    : ∃ entry ∈ index.inScope target, entry.2 = leaf := by
  unfold Index.leaves at found
  split at found
  · cases found
  · cases found
    obtain ⟨entry, kept, same⟩ := List.mem_map.mp mem
    exact ⟨entry, (List.mem_filter.mp kept).1, same⟩

theorem remaining_inScope {state : Pruning} (mem : leaf ∈ index.remaining target state)
    : ∃ entry ∈ index.inScope target, entry.2 = leaf := by
  obtain ⟨entry, kept, same⟩ := List.mem_map.mp mem
  obtain ⟨inEvents, scope, _⟩ := List.mem_filter.mp kept |>.imp id of_decide_eq_true
  exact ⟨entry, mem_inScope.mpr ⟨inEvents, scope⟩, same⟩

variable {fuel : Nat}

theorem substantiveLeaves_inScope (found : index.substantiveLeaves fuel target = some leaves)
    (mem : leaf ∈ leaves)
    : ∃ entry ∈ index.inScope target, entry.2 = leaf := by
  unfold substantiveLeaves at found
  obtain ⟨state, _, found⟩ := Option.bind_eq_some_iff.mp found
  dsimp only at found
  split at found
  · cases found
    exact remaining_inScope mem
  · obtain ⟨batches, _, found⟩ := Option.bind_eq_some_iff.mp found
    cases found
    exact remaining_inScope mem

theorem afterUnlinkedCompaction_mem
    (found : index.afterUnlinkedCompaction events leaves = some leaf)
    : leaf ∈ leaves := by
  unfold afterUnlinkedCompaction at found
  obtain ⟨⟨compaction, position⟩, _, found⟩ := Option.bind_eq_some_iff.mp found
  obtain ⟨boundary, _, found⟩ := Option.bind_eq_some_iff.mp found
  split at found
  next only continuing =>
      split at found
      · cases found
        have kept : leaf ∈ leaves.filter (index.descends boundary (events.length + 1)) := by
          rw [continuing]
          exact List.mem_singleton_self leaf
        exact (List.mem_filter.mp kept).1
      · cases found
  · cases found

theorem select_selectable (selected : (index.select fuel events target).run = some (.ok leaf))
    : Selectable index events target leaf := by
  unfold select at selected
  split at selected
  next eventId asked =>
      have selected := Option.some.inj selected
      unfold selectTarget at selected
      split at selected
      · cases selected
      next entry only =>
          cases selected
          have kept : entry ∈ (index.inScope target).filter
              fun entry => entry.2.eventId = some eventId := by
            rw [only]
            exact List.mem_singleton_self entry
          obtain ⟨inScope, same⟩ := List.mem_filter.mp kept
          refine ⟨(mem_inScope.mp inScope).2, ?_, .inl ⟨entry.1, (mem_inScope.mp inScope).1⟩⟩
          intro other asked'
          cases asked.symm.trans asked'
          exact of_decide_eq_true same
      · cases selected
  next unnamed =>
      obtain ⟨leaves, found, selected⟩ := run_bind_eq_some_ok.mp selected
      have found := Option.some.inj found
      split at selected
      next only =>
          cases Option.some.inj selected
          obtain ⟨entry, mem, rfl⟩ := leaves_inScope found (List.mem_singleton_self _)
          exact selectable_of_mem unnamed mem
      next =>
          unfold selectNone at selected
          split at selected
          next event lone =>
              cases Option.some.inj selected
              unfold loneEvent at lone
              split at lone
              next event' =>
                  split at lone
                  next alone =>
                      cases lone
                      refine ⟨alone.2, ?_, .inr ⟨rfl, alone.1⟩⟩
                      intro other asked
                      rw [unnamed] at asked
                      cases asked
                  · cases lone
              · cases lone
          · split at selected
            · cases selected
            · obtain ⟨_, _, selected⟩ := run_bind_eq_some_ok.mp selected
              cases selected
      next several _ _ =>
          rw [selectFork_run] at selected
          obtain ⟨substantive, ran, selected⟩ := Option.map_eq_some_iff.mp selected
          have one : leaf ∈ substantive := by
            split at selected
            next only =>
                cases selected
                exact List.mem_singleton_self _
            · cases selected
            · split at selected
              next continued =>
                  cases selected
                  exact afterUnlinkedCompaction_mem continued
              · cases selected
          obtain ⟨entry, mem, rfl⟩ := substantiveLeaves_inScope ran one
          exact selectable_of_mem unnamed mem

-- The walk to the root

/-- The walk from a leaf: the events so far are linked up to it, and each was visited once and has
no other definition.
-/
structure Walk (index : Index) (leaf : NormalizedEvent) (trace : Trace) : Prop where
  chain
    : (trace.current :: trace.lineage).IsChain fun parent child =>
        index.LinksTo child parent
  last : (trace.current :: trace.lineage).getLast? = some leaf
  agentId : ∀ event ∈ trace.current :: trace.lineage, event.agentId = leaf.agentId
  known : ∀ event ∈ trace.current :: trace.lineage, event = leaf ∨ Known index event
  visited : trace.visited = trace.lineage.filterMap key
  free : ∀ eventKey ∈ trace.visited, eventKey ∉ index.conflicts
  apart : (trace.visited.map (·.eventId)).Nodup

theorem walk_start (index : Index) (leaf : NormalizedEvent)
    : Walk index leaf { lineage := [], visited := [], current := leaf } where
  chain := List.IsChain.singleton _
  last := rfl
  agentId := by
    intro event mem
    rw [List.mem_singleton.mp mem]
  known := fun _ mem => .inl (List.mem_singleton.mp mem)
  visited := rfl
  free := fun _ mem => absurd mem List.not_mem_nil
  apart := List.nodup_nil

theorem Walk.visit {trace : Trace} (walk : Walk index leaf trace) {visited : List EventKey}
    (visits : index.visit trace.visited trace.current = .ok visited)
    : visited = (trace.current :: trace.lineage).filterMap key
      ∧ (∀ eventKey ∈ visited, eventKey ∉ index.conflicts)
      ∧ (visited.map (·.eventId)).Nodup := by
  cases identity : key trace.current with
  | none =>
      unfold Index.visit at visits
      rw [identity] at visits
      cases visits
      exact ⟨by rw [List.filterMap_cons_none identity, walk.visited], walk.free, walk.apart⟩
  | some eventKey =>
      obtain ⟨rfl, free, _, apart⟩ := visit_spec identity visits
      refine ⟨by rw [List.filterMap_cons_some identity, walk.visited], ?_, ?_⟩
      · intro other mem
        rcases List.mem_cons.mp mem with rfl | earlier
        · exact free
        · exact walk.free other earlier
      · exact List.nodup_cons.mpr ⟨apart, walk.apart⟩

theorem Walk.again {trace next : Trace} (walk : Walk index leaf trace)
    (again : index.tracePass target trace = .again next)
    : Walk index leaf next := by
  unfold tracePass at again
  split at again
  · cases again
  · cases again
  next visited parent stepped =>
      cases again
      obtain ⟨visits, _, linked⟩ := step_spec stepped
      obtain ⟨parentKey, kin⟩ := parent_spec linked
      obtain ⟨same, free, apart⟩ := walk.visit visits
      refine ⟨?_, ?_, ?_, ?_, same, free, apart⟩
      · exact List.IsChain.cons_cons linked walk.chain
      · exact walk.last
      · intro event mem
        rcases List.mem_cons.mp mem with rfl | earlier
        · have sameAgent := (key_eq_some_iff.mp (index.keyed _ kin.found)).1
          exact (sameAgent.trans kin.agentId).trans
            (walk.agentId trace.current List.mem_cons_self)
        · exact walk.agentId event earlier
      · intro event mem
        rcases List.mem_cons.mp mem with rfl | earlier
        · exact .inr ⟨parentKey, kin.found⟩
        · exact walk.known event earlier

structure Finished (index : Index) (leaf : NormalizedEvent) (lineage : Lineage) : Prop where
  chain : lineage.1.IsChain fun parent child => index.LinksTo child parent
  last : lineage.1.getLast? = some leaf
  agentId : ∀ event ∈ lineage.1, event.agentId = leaf.agentId
  known : ∀ event ∈ lineage.1, event = leaf ∨ Known index event
  free : ∀ eventKey ∈ lineage.1.filterMap key, eventKey ∉ index.conflicts
  apart : ((lineage.1.filterMap key).map (·.eventId)).Nodup
  root
    : ∃ root,
        lineage.1.head? = some root
        ∧ index.parent root = .ok none
        ∧ lineage.2 = root.parentId.isSome

theorem trace_finished {branch : ActiveBranch}
    (traced : index.trace fuel leaf target = some (.ok branch))
    : ∃ lineage, Finished index leaf lineage ∧ branch = activeBranch target leaf lineage := by
  unfold trace at traced
  obtain ⟨result, looped, traced⟩ := Option.bind_eq_some_iff.mp traced
  obtain ⟨last, walk, done⟩ :=
    loop_invariant (fun _ _ walk again => Walk.again walk again) (walk_start index leaf) looped
  unfold tracePass at done
  split at done
  · cases done
    cases traced
  next visited stepped =>
      cases done
      cases traced
      obtain ⟨visits, _, rootless⟩ := step_spec stepped
      obtain ⟨rfl, free, apart⟩ := walk.visit visits
      exact ⟨_, ⟨walk.chain, walk.last, walk.agentId, walk.known, free, apart, last.current, rfl,
        rootless, rfl⟩, rfl⟩
  · cases done

-- In terms of the events

theorem mem_of_known {event : NormalizedEvent} (known : Known (new events responses) event)
    : event ∈ events := by
  obtain ⟨eventKey, found⟩ := known
  exact (new_indexes events responses).sound _ found

/-- A parent link of the index leads to a parent among the events. -/
theorem parentOf_of_linksTo {parent child : NormalizedEvent}
    (linked : (new events responses).LinksTo child parent)
    : ParentOf events parent child := by
  have indexes := new_indexes events responses
  obtain ⟨parentKey, kin⟩ := parent_spec linked
  obtain ⟨sameAgent, sameBranch, sameId⟩ :=
    key_eq_some_iff.mp ((new events responses).keyed _ kin.found)
  refine ⟨indexes.sound _ kin.found, sameAgent.trans kin.agentId, ⟨?_, ?_⟩, ?_⟩
  · rw [kin.eventId]
    exact Option.some_ne_none _
  · rw [kin.eventId]
    exact sameId
  · refine kin.nearest.imp sameBranch.trans ?_
    intro only other mem agentId eventId
    have named : key other = some ⟨child.agentId, other.branchId, parentKey.eventId⟩ :=
      key_eq_some_iff.mpr ⟨agentId, rfl, eventId.trans kin.eventId⟩
    have listed := mem_byAgent.mpr ⟨indexes.complete other mem _ named, rfl, rfl⟩
    rw [only] at listed
    rw [named, List.mem_singleton.mp listed]
    exact ((new events responses).keyed _ kin.found).symm

theorem mem_conflicts {eventKey : EventKey} (redefined : Redefined events eventKey)
    : eventKey ∈ (new events responses).conflicts := by
  obtain ⟨first, inFirst, second, inSecond, named, namedSecond, apart⟩ := redefined
  by_contra free
  have indexes := new_indexes events responses
  have one := lookup_eq_some_iff.mpr (indexes.agree first inFirst eventKey named free)
  have other := lookup_eq_some_iff.mpr (indexes.agree second inSecond eventKey namedSecond free)
  exact apart (Option.some.inj (one.symm.trans other))

/-- The identifiers of a lineage are apart, unless it is the only event. -/
theorem Finished.distinct {lineage : Lineage}
    (finished : Finished (new events responses) leaf lineage)
    (indexed : Known (new events responses) leaf ∨ events = [leaf] ∧ leaf.eventId = none)
    : (lineage.1.map (·.eventId)).Nodup := by
  have all (lineage : List NormalizedEvent)
      (known : ∀ event ∈ lineage, Known (new events responses) event)
      : lineage.map (·.eventId) = ((lineage.filterMap key).map EventKey.eventId).map some := by
    induction lineage with
    | nil => rfl
    | cons first rest ih =>
        obtain ⟨eventKey, found⟩ := known first List.mem_cons_self
        have named := (new events responses).keyed _ found
        rw [List.map_cons, List.filterMap_cons_some named,
          ih fun event mem => known event (List.mem_cons_of_mem _ mem),
          (key_eq_some_iff.mp named).2.2]
        rfl
  rcases indexed with known | ⟨rfl, unnamed⟩
  · rw [all lineage.1 fun event mem => (finished.known event mem).elim (fun same => same ▸ known) id]
    exact finished.apart.map (Option.some_injective _)
  · have unknown : ∀ event, ¬Known (new [leaf] responses) event := by
      intro event known
      have same := List.mem_singleton.mp (mem_of_known known)
      obtain ⟨eventKey, found⟩ := known
      have named := (key_eq_some_iff.mp ((new [leaf] responses).keyed _ found)).2.2
      rw [same, unnamed] at named
      cases named
    -- a second event would be the child of a definition
    have chain := finished.chain
    match lineage.1, chain with
    | [], _ => exact List.nodup_nil
    | [event], _ => exact List.nodup_singleton _
    | parent :: child :: rest, chain =>
        obtain ⟨parentKey, kin⟩ := parent_spec (List.isChain_cons_cons.mp chain).1
        exact absurd ⟨parentKey, kin.found⟩ (unknown parent)

/-- A root without a parent to be found names one exactly where it is missing or severed. -/
theorem root_truncated {root : NormalizedEvent}
    (known : Known (new events responses) root ∨ root.eventId = none)
    (rootless : (new events responses).parent root = .ok none)
    : root.parentId.isSome = true
      ↔ root.parentId ≠ none ∧ (Missing events root ∨ Severed events responses root) := by
  rw [Option.isSome_iff_ne_none]
  refine ⟨fun named => ⟨named, ?_⟩, And.left⟩
  obtain ⟨parentId, named⟩ := Option.ne_none_iff_exists'.mp named
  rcases (parent_eq_none named).mp rootless with severed | missing
  · rcases known with ⟨eventKey, found⟩ | unnamed
    · have identity : key root = some eventKey := (new events responses).keyed _ found
      rw [identity, Option.any_some, decide_eq_true_iff] at severed
      exact .inr ((mem_severed found).mp severed)
    · have identity : key root = none := by
        unfold key
        rw [unnamed]
        rfl
      rw [identity] at severed
      cases severed
  · exact .inl missing

end Index

/-- Every resolved branch is a chain of parent links from a root to the leaf that was asked for. -/
theorem resolve_sound {fuel : Nat} {events : List NormalizedEvent}
    {target : BranchResolutionTarget} {responses : List (EventId × String)}
    {branch : ActiveBranch}
    (resolved : resolve fuel events target responses = some (.resolved branch))
    : SoundBranch events target responses branch := by
  obtain ⟨some, leaf, selected, traced⟩ := resolve_parts resolved
  have selectable := Index.select_selectable selected
  obtain ⟨lineage, finished, rfl⟩ := Index.trace_finished traced
  have known (event : NormalizedEvent) (mem : event ∈ lineage.1)
      : Index.Known (Index.new events responses) event ∨ event.eventId = none := by
    rcases finished.known event mem with rfl | known
    · exact selectable.indexed.imp_right And.right
    · exact .inl known
  refine ⟨?_, ?_, ?_, finished.distinct selectable.indexed, ?_, ?_, rfl,
    ⟨rfl, epochName_text⟩, ?_⟩
  · intro event mem
    rcases finished.known event mem with rfl | known
    · rcases selectable.indexed with known | ⟨only, _⟩
      · exact Index.mem_of_known known
      · rw [only]
        exact List.mem_singleton_self event
    · exact Index.mem_of_known known
  · exact finished.chain.imp fun _ _ linked => Index.parentOf_of_linksTo linked
  · exact fun first inFirst second inSecond =>
      (finished.agentId first inFirst).trans (finished.agentId second inSecond).symm
  · intro event mem eventKey identity redefined
    exact finished.free eventKey (List.mem_filterMap.mpr ⟨event, mem, identity⟩)
      (Index.mem_conflicts redefined)
  · exact ⟨leaf, finished.last, rfl, selectable.scope, selectable.asked⟩
  · obtain ⟨root, first, rootless, truncated⟩ := finished.root
    refine ⟨root, first, ?_⟩
    change lineage.2 = true ↔ _
    rw [truncated]
    exact Index.root_truncated (known root (List.mem_of_head? first)) rootless

-- Two linked events

def messageAbove (above : EventKind) (parentId : Option EventId) : List NormalizedEvent :=
  [
    { linkedEvent messageEvent callEvent .system above none with parentId := parentId },
    linkedEvent callEvent messageEvent .assistant .message none
  ]

def wholeBranch (events : List NormalizedEvent) (compactions : Nat) (truncated : Bool)
    : ActiveBranch :=
  {
    branchId := none
    leafEventId := some callEvent
    events := events
    currentEpoch := epochName compactions
    compactionCount := compactions
    taskBoundaryCount := 0
    ancestorChainTruncated := truncated
  }

/-- The branch of a message and of the answer below it is sound. -/
theorem resolve_sound_pair
    : SoundBranch (messageAbove .message none) anyTarget []
        (wholeBranch (messageAbove .message none) 0 false) :=
  @resolve_sound 3 _ _ _ _ (by decide +kernel)

/-- The branch of a compaction that names an event after it is truncated, although the parent of
its root is among the events.
-/
theorem resolve_truncates_severed
    : ∃ root,
        resolve 3 (messageAbove .compaction (some callEvent)) anyTarget []
          = some
              (.resolved (wholeBranch (messageAbove .compaction (some callEvent)) 1 true))
        ∧ (messageAbove .compaction (some callEvent)).head? = some root
        ∧ ¬Index.Missing (messageAbove .compaction (some callEvent)) root := by
  refine ⟨_, by decide +kernel, rfl, ?_⟩
  intro missing
  exact missing (linkedEvent callEvent messageEvent .assistant .message none) (by decide +kernel)
    rfl rfl

end SkillRanker.Context
