import SkillRanker.Context.Forks

/-! When two leaves of a conversation leave its branch unresolved, in whatever order the events
are read.
-/

namespace SkillRanker.Context

open SkillRanker.Library

variable {others : List NormalizedEvent} {eventKey : EventKey}

namespace Index

variable {index : Index} {target : BranchResolutionTarget} {events : List NormalizedEvent}
  {responses : List (EventId × String)}

-- Events in another order

def Definite (events : List NormalizedEvent) : Prop := ∀ eventKey, ¬Redefined events eventKey

section

variable (definite : Definite events)
include definite

theorem Definite.perm (same : others.Perm events)
    : Definite others := by
  rintro eventKey ⟨first, inFirst, second, inSecond, apart⟩
  exact definite eventKey ⟨first, same.mem_iff.mp inFirst, second, same.mem_iff.mp inSecond, apart⟩

theorem gathered_conflicts
    : (gathered events responses).conflicts = [] := by
  apply List.eq_nil_iff_forall_not_mem.mpr
  intro eventKey mem
  exact definite eventKey ((gathered_indexes events responses).conflicting eventKey mem)

/-- The entries of definite events are the events with their keys. -/
theorem mem_gathered {entry : EventKey × NormalizedEvent}
    : entry ∈ (gathered events responses).events
      ↔ entry.2 ∈ events ∧ key entry.2 = some entry.1 := by
  have indexes := gathered_indexes events responses
  constructor
  · exact fun mem => ⟨indexes.sound entry mem, (gathered events responses).keyed entry mem⟩
  · rintro ⟨mem, identity⟩
    apply indexes.agree entry.2 mem entry.1 identity
    rw [gathered_conflicts definite]
    exact List.not_mem_nil

/-- Definite events have the same index in every order. -/
theorem new_perm (same : others.Perm events)
    : new others responses = new events responses := by
  have gatheredSame : gathered others responses = gathered events responses := by
    apply Index.ext
    · apply (gathered others responses).ordered.ext (gathered events responses).ordered
      intro entry
      rw [mem_gathered (definite.perm same), mem_gathered definite, same.mem_iff]
    · rw [gathered_conflicts (definite.perm same), gathered_conflicts definite]
    · rw [gathered_responses, gathered_responses]
    · rw [gathered_severed, gathered_severed]
  unfold new
  rw [← gathered, ← gathered, gatheredSame]

end

def Linked (index : Index) (events : List NormalizedEvent) : Prop :=
  ∀ event ∈ events, index.unlinked event = false

theorem Linked.afterUnlinkedCompaction (linked : Linked index events)
    (leaves : List NormalizedEvent)
    : index.afterUnlinkedCompaction events leaves = none := by
  have none : (events.zipIdx.reverse.find? fun entry => index.unlinked entry.1) = none := by
    rw [List.find?_eq_none]
    rintro ⟨event, position⟩ mem
    rw [linked event (List.fst_mem_of_mem_zipIdx (List.mem_reverse.mp mem))]
    exact Bool.false_ne_true
  unfold Index.afterUnlinkedCompaction
  rw [none]
  rfl

theorem loneEvent_perm (same : others.Perm events)
    : loneEvent others target = loneEvent events target := by
  match events, same with
  | [], same => rw [same.eq_nil]
  | [event], same => rw [List.perm_singleton.mp same]
  | first :: second :: rest, same =>
      match others, same with
      | [], same => rw [same.symm.eq_nil]
      | [event], same => cases List.singleton_perm.mp same
      | _ :: _ :: _, _ => rfl

/-- The selection does not depend on the order of linked events. -/
theorem select_perm (linked : Linked index events) (same : others.Perm events) (fuel : Nat)
    : index.select fuel others target = index.select fuel events target := by
  have linkedOthers : Linked index others := fun event mem => linked event (same.mem_iff.mp mem)
  unfold select selectNone selectFork
  simp only [loneEvent_perm same, linked.afterUnlinkedCompaction,
    linkedOthers.afterUnlinkedCompaction]

end Index

variable {events : List NormalizedEvent} {target : BranchResolutionTarget}
  {responses : List (EventId × String)}

/-- The resolution does not depend on the order of definite, linked events. -/
theorem resolve_perm (definite : Index.Definite events)
    (linked : Index.Linked (Index.new events responses) events) (same : others.Perm events)
    (fuel : Nat)
    : resolve fuel others target responses = resolve fuel events target responses := by
  by_cases none : events = []
  · subst none
    rw [same.eq_nil]
  · have some : others ≠ [] := by
      rintro rfl
      exact none same.symm.eq_nil
    rw [resolve_eq some, resolve_eq none, Index.new_perm definite same, selectBranch,
      Index.select_perm linked same]

-- Two leaves

/-- A leaf in scope of the conversation, among the events: a user message, or another event that is
no notice, no tool result beside its own call or without a call, and not in an answered side batch.
-/
structure ForkLeaf (events : List NormalizedEvent) (target : BranchResolutionTarget)
    (responses : List (EventId × String)) (eventKey : EventKey) (event : NormalizedEvent)
    : Prop where
  mem : event ∈ events
  identity : key event = some eventKey
  scope : matchesTarget event target = true
  leaf : (Index.new events responses).kids eventKey = []
  conversation : (Index.new events responses).Conversation eventKey event

/-- The events have two leaves of the conversation in scope, with identities of their own. -/
def Forked (events : List NormalizedEvent) (target : BranchResolutionTarget)
    (responses : List (EventId × String))
    : Prop :=
  ∃ firstKey first secondKey second,
    ForkLeaf events target responses firstKey first
    ∧ ForkLeaf events target responses secondKey second
    ∧ firstKey ≠ secondKey

namespace Index

variable {index : Index} {target : BranchResolutionTarget} {events : List NormalizedEvent}
  {responses : List (EventId × String)}
variable {second first : NormalizedEvent}

/-- The scope of an event is that of its identity. -/
theorem matchesTarget_congr (same : key first = key second) (identity : key first ≠ none)
    : matchesTarget first target = matchesTarget second target := by
  obtain ⟨eventKey, named⟩ := Option.ne_none_iff_exists'.mp identity
  obtain ⟨agent, branch, _⟩ := key_eq_some_iff.mp named
  obtain ⟨agent', branch', _⟩ := key_eq_some_iff.mp (same ▸ named)
  simp only [matchesTarget, agent, branch, agent', branch']

/-- A leaf among the events is a conflict in scope, or a leaf of the index. -/
theorem ForkLeaf.conflict_or {event : NormalizedEvent}
    (leaf : ForkLeaf events target responses eventKey event)
    : (∃ reason, (new events responses).leaves target = .error reason)
      ∨ ConversationLeaf (new events responses) target eventKey event := by
  have indexes := new_indexes events responses
  by_cases conflict : eventKey ∈ (new events responses).conflicts
  · obtain ⟨entry, inEvents, rfl⟩ :=
      List.mem_map.mp (indexes.complete event leaf.mem eventKey leaf.identity)
    have sameKey := leaf.identity.trans ((new events responses).keyed entry inEvents).symm
    have scope : matchesTarget entry.2 target = true := by
      rw [← matchesTarget_congr sameKey (by rw [leaf.identity]; exact Option.some_ne_none _)]
      exact leaf.scope
    left
    unfold leaves
    split
    · exact ⟨_, rfl⟩
    next none =>
        rw [List.find?_eq_none] at none
        exact absurd (decide_eq_true conflict) (none entry (List.mem_filter.mpr ⟨inEvents, scope⟩))
  · right
    have found := indexes.agree event leaf.mem eventKey leaf.identity conflict
    exact ⟨List.mem_filter.mpr ⟨found, leaf.scope⟩, leaf.leaf, leaf.conversation⟩

/-- Two different members make a list of two or more. -/
theorem exists_cons_cons {Item : Type} {items : List Item} {first second : Item}
    (inFirst : first ∈ items) (inSecond : second ∈ items) (apart : first ≠ second)
    : ∃ one other rest, items = one :: other :: rest := by
  match items with
  | [] => cases inFirst
  | [only] =>
      exact absurd ((List.mem_singleton.mp inFirst).trans (List.mem_singleton.mp inSecond).symm)
        apart
  | one :: other :: rest => exact ⟨one, other, rest, rfl⟩

theorem select_forked (unnamed : target.targetEventId = none) (linked : Linked index events)
    {firstKey secondKey : EventKey} (leaf : ConversationLeaf index target firstKey first)
    (other : ConversationLeaf index target secondKey second) (apart : firstKey ≠ secondKey)
    (fuel : Nat) (chosen : NormalizedEvent)
    : (index.select fuel events target).run ≠ some (.ok chosen) := by
  intro selected
  have differ : first ≠ second := by
    intro same
    have named : key first = some firstKey := index.keyed _ leaf.mem
    have namedOther : key second = some secondKey := index.keyed _ other.mem
    exact apart (Option.some.inj (named.symm.trans (same ▸ namedOther)))
  unfold select at selected
  rw [unnamed] at selected
  dsimp only at selected
  obtain ⟨found, leaves, selected⟩ := run_bind_eq_some_ok.mp selected
  have leaves := Option.some.inj leaves
  have inLeaves {eventKey : EventKey} {event : NormalizedEvent}
      (leaf : ConversationLeaf index target eventKey event)
      : event ∈ found := by
    unfold Index.leaves at leaves
    split at leaves
    · cases leaves
    · cases leaves
      exact List.mem_map.mpr
        ⟨(eventKey, event), List.mem_filter.mpr ⟨leaf.scope, decide_eq_true leaf.leaf⟩, rfl⟩
  obtain ⟨one, two, rest, rfl⟩ := exists_cons_cons (inLeaves leaf) (inLeaves other) differ
  dsimp only at selected
  rw [selectFork_run] at selected
  obtain ⟨substantive, ran, selected⟩ := Option.map_eq_some_iff.mp selected
  obtain ⟨one', two', rest', rfl⟩ :=
    exists_cons_cons (leaf.substantive ran) (other.substantive ran) differ
  dsimp only at selected
  rw [linked.afterUnlinkedCompaction] at selected
  cases selected

end Index

theorem resolve_forked (unnamed : target.targetEventId = none)
    (linked : Index.Linked (Index.new events responses) events)
    (forked : Forked events target responses) (fuel : Nat) (branch : ActiveBranch)
    : resolve fuel events target responses ≠ some (.resolved branch) := by
  obtain ⟨firstKey, first, secondKey, second, leaf, other, apart⟩ := forked
  intro resolved
  obtain ⟨_, chosen, selected, _⟩ := resolve_parts resolved
  have refused {eventKey : EventKey} {event : NormalizedEvent}
      (leaf : ForkLeaf events target responses eventKey event)
      : Index.ConversationLeaf (Index.new events responses) target eventKey event := by
    rcases Index.ForkLeaf.conflict_or leaf with ⟨reason, conflict⟩ | leaf
    · unfold Index.select at selected
      rw [unnamed] at selected
      dsimp only at selected
      obtain ⟨leaves, found, _⟩ := run_bind_eq_some_ok.mp selected
      rw [conflict] at found
      cases found
    · exact leaf
  exact Index.select_forked unnamed linked (refused leaf) (refused other) apart fuel chosen
    selected

/-- What the resolution owes to forks: two leaves of the conversation leave the branch unresolved,
answered side batches leave every user message that is a leaf, and the order of definite events
does not matter.
-/
structure KeepsForks (events : List NormalizedEvent) (target : BranchResolutionTarget)
    (responses : List (EventId × String))
    : Prop where
  unresolved
    : Forked events target responses
      → ∃ fuel reason, resolve fuel events target responses = some (.unresolved reason)
  kept
    : ∀ fuel batches state eventKey event,
        (Index.new events responses).sideBatches fuel = some batches
        → (eventKey, event) ∈ (Index.new events responses).events
        → event.role = .user ∧ event.kind = .message
        → event ∈ (Index.new events responses).remaining target state
        → event
          ∈ (Index.new events responses).remaining target
              (batches.foldl (Index.new events responses).pruneBatch state)
  unordered
    : Index.Definite events
      → ∀ others,
          others.Perm events
          → ∀ fuel,
              resolve fuel others target responses = resolve fuel events target responses

variable {batches : List (EventKey × List EventKey)} {state : Index.Pruning}

/-- An identity outside of the batches is pruned by none of them, and its children stay as few. -/
theorem Index.pruneBatches_outside {index : Index}
    (outside : ∀ batch ∈ batches, eventKey ≠ batch.1 ∧ eventKey ∉ batch.2)
    (kept : eventKey ∉ state.pruned) (childless : state.isLeaf eventKey)
    : eventKey ∉ (batches.foldl index.pruneBatch state).pruned
      ∧ (batches.foldl index.pruneBatch state).isLeaf eventKey := by
  induction batches generalizing state with
  | nil => exact ⟨kept, childless⟩
  | cons first rest ih =>
      obtain ⟨notHead, notBelow⟩ := outside first List.mem_cons_self
      refine ih (fun batch mem => outside batch (List.mem_cons_of_mem _ mem)) ?_ ?_
      · intro mem
        rcases List.mem_append.mp mem with below | earlier
        · exact notBelow below
        · split at earlier
          · exact kept earlier
          · rw [Index.prune_pruned] at earlier
            exact (List.mem_cons.mp earlier).elim notHead kept
      · unfold Index.pruneBatch Index.Pruning.isLeaf
        dsimp only
        split
        · exact childless
        · have bound := Index.prune_children_le index state first.1 eventKey
          unfold Index.Pruning.isLeaf at childless
          omega

/-- Answered side batches leave every user message that is a leaf. -/
theorem Index.user_remains {index : Index} {fuel : Nat} {event : NormalizedEvent}
    (ran : index.sideBatches fuel = some batches) (found : (eventKey, event) ∈ index.events)
    (user : event.role = .user) (message : event.kind = .message)
    (mem : event ∈ index.remaining target state)
    : event ∈ index.remaining target (batches.foldl index.pruneBatch state) := by
  obtain ⟨entry, kept, rfl⟩ := List.mem_map.mp mem
  obtain ⟨inEvents, scope, notPruned, childless⟩ := List.mem_filter.mp kept |>.imp id of_decide_eq_true
  have outside : ∀ batch ∈ batches, entry.1 ≠ batch.1 ∧ entry.1 ∉ batch.2 := by
    intro batch listed
    have notBelow := Index.user_not_mem_batch ran listed inEvents user message
    exact ⟨fun same => notBelow (same ▸ (Index.sideBatches_answered ran listed).1), notBelow⟩
  obtain ⟨notPruned, childless⟩ := Index.pruneBatches_outside outside notPruned childless
  exact List.mem_map.mpr
    ⟨entry, List.mem_filter.mpr ⟨inEvents, decide_eq_true ⟨scope, notPruned, childless⟩⟩, rfl⟩

def firstQuestion : EventId := { text := "q1", valid := by decide +kernel }
def secondQuestion : EventId := { text := "q2", valid := by decide +kernel }

/-- A user message that names no parent. -/
def question (eventId : EventId) : NormalizedEvent :=
  { linkedEvent eventId eventId .user .message none with parentId := none }

/-- Two user messages and nothing between them. -/
def questions : List NormalizedEvent := [question firstQuestion, question secondQuestion]

/-- The two messages beside a response that leads back to itself. -/
def forkedLoop : List NormalizedEvent := questions ++ loopingEvents

theorem forkedLoop_spins : Spins forkedLoop anyTarget loopingResponses where
  unnamed := rfl
  forked := ⟨questions ++ loopingEvents.drop 2, by decide +kernel, by decide⟩
  looping :=
    ⟨plainKey callEvent, plainKey messageEvent,
      looping_of_links (by decide +kernel) (by decide +kernel) (by decide +kernel)
        (by decide +kernel) (by decide +kernel) (by decide +kernel) (by decide +kernel)⟩

/-- A message that no event names as its parent is a leaf of the conversation. -/
theorem question_forkLeaf {eventId : EventId} (mem : question eventId ∈ forkedLoop)
    (leaf : (Index.new forkedLoop loopingResponses).kids (plainKey eventId) = [])
    : ForkLeaf forkedLoop anyTarget loopingResponses (plainKey eventId) (question eventId) where
  mem := mem
  identity := rfl
  scope := rfl
  leaf := leaf
  conversation := .inl ⟨rfl, rfl⟩

end SkillRanker.Context
