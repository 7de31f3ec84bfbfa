import SkillRanker.Context.Resolution
import SkillRanker.Context.Severance

/-! Forks are not merged: two leaves of the conversation are never resolved to one branch, and
the order of the events does not matter.
-/

namespace SkillRanker.Context

open SkillRanker.Library

variable {reason : EventKey → Prop} {state : Pruning} {eventKey : EventKey} {fuel : Nat}
  {batches : List (EventKey × List EventKey)} {batch : EventKey × List EventKey}
  {event : NormalizedEvent}

namespace Index

variable {index : Index} {target : BranchResolutionTarget} {events : List NormalizedEvent}
  {responses : List (EventId × String)}

-- What is pruned

/-- The identity is of an event that may be pruned on its own: a notice, a tool result beside its
own call, or one whose call is missing.
-/
def Prunable (index : Index) (eventKey : EventKey) : Prop :=
  ∃ event,
    (eventKey, event) ∈ index.events
    ∧ (carriesNoConversation event = true ∨ index.besideOwnCall eventKey = true
      ∨ index.isOrphan event = true)

/-- Everything pruned has a reason, and no identity has gained a child. -/
structure Pruned (index : Index) (reason : EventKey → Prop) (state : Pruning) : Prop where
  pruned : ∀ eventKey ∈ state.pruned, reason eventKey
  children : ∀ eventKey, state.children eventKey ≤ (index.kids eventKey).length

theorem unpruned_pruned (index : Index) (reason : EventKey → Prop)
    : Pruned index reason index.unpruned where
  pruned := fun _ mem => absurd mem List.not_mem_nil
  children := fun _ => Nat.le_refl _

theorem Pruned.imp {weaker : EventKey → Prop} (pruned : Pruned index reason state)
    (implies : ∀ eventKey, reason eventKey → weaker eventKey)
    : Pruned index weaker state where
  pruned := fun eventKey mem => implies eventKey (pruned.pruned eventKey mem)
  children := pruned.children

theorem Pruned.drop (pruned : Pruned index reason state) (known : reason eventKey)
    : Pruned index reason (state.drop eventKey) where
  pruned := by
    intro other mem
    rcases List.mem_cons.mp mem with rfl | earlier
    · exact known
    · exact pruned.pruned other earlier
  children := pruned.children

theorem prune_children_le (index : Index) (state : Pruning) (eventKey other : EventKey)
    : (index.prune eventKey state).1.children other ≤ state.children other := by
  unfold prune
  split
  · exact Nat.le_refl _
  next parent linked =>
      by_cases same : other = parent
      · subst same
        simp
      · simp [Function.update_of_ne same]

theorem Pruned.prune (pruned : Pruned index reason state) (known : reason eventKey)
    : Pruned index reason (index.prune eventKey state).1 where
  pruned := by
    rw [prune_pruned]
    exact (pruned.drop known).pruned
  children := fun other => Nat.le_trans (prune_children_le index state eventKey other)
    (pruned.children other)

theorem pruneNotices_pruned (ran : index.pruneNotices fuel = some state)
    : Pruned index index.Prunable state := by
  have kept : ∀ before after : Pruning × List EventKey,
      Pruned index index.Prunable before.1 → index.noticePass before = .again after
      → Pruned index index.Prunable after.1 := by
    rintro ⟨before, pending⟩ after pruned again
    cases pending with
    | nil => cases again
    | cons candidate pending =>
        unfold noticePass at again
        dsimp only at again
        split at again
        · cases again
          exact pruned
        next pruning =>
            have notice := Bool.not_eq_false _ ▸ (not_or.mp (not_or.mp pruning).2).2
            have known : index.Prunable candidate := by
              unfold isNotice at notice
              cases found : index.events.lookup candidate with
              | none =>
                  rw [found] at notice
                  cases notice
              | some event =>
                  rw [found] at notice
                  exact ⟨event, lookup_eq_some_iff.mp found, .inl notice⟩
            have next := pruned.prune known
            split at again
            next state' kept =>
                cases again
                rw [kept] at next
                exact next
            next state' parent kept =>
                cases again
                rw [kept] at next
                exact next
  obtain ⟨last, pruned, done⟩ := loop_invariant kept (unpruned_pruned index _) ran
  obtain ⟨final, pending⟩ := last
  cases pending with
  | nil =>
      cases done
      exact pruned
  | cons candidate pending =>
      unfold noticePass at done
      dsimp only at done
      split at done
      · cases done
      · split at done <;> cases done

variable {results : List EventKey}

theorem pruneSideResult_pruned {result : EventKey} (pruned : Pruned index index.Prunable state)
    (known : index.Prunable result)
    : Pruned index index.Prunable (index.pruneSideResult results state result) := by
  unfold pruneSideResult
  split
  · exact pruned
  · dsimp only
    split
    · exact pruned.prune known
    · exact pruned

theorem pruneSideResults_pruned (all : List EventKey) (pruned : Pruned index index.Prunable state)
    (known : ∀ result ∈ results, index.Prunable result)
    : Pruned index index.Prunable (results.foldl (index.pruneSideResult all) state) := by
  induction results generalizing state with
  | nil => exact pruned
  | cons first rest ih =>
      exact ih (pruneSideResult_pruned pruned (known first List.mem_cons_self))
        fun result mem => known result (List.mem_cons_of_mem _ mem)

theorem prunable_of_sideResult {result : EventKey} (mem : result ∈ index.sideResults state)
    : index.Prunable result := by
  obtain ⟨known, _, _, beside⟩ := List.mem_filter.mp mem |>.imp id of_decide_eq_true
  obtain ⟨entry, inEvents, rfl⟩ := List.mem_map.mp known
  exact ⟨entry.2, inEvents, .inr (.inl beside)⟩

theorem pruneOrphans_pruned {entries : List (EventKey × NormalizedEvent)}
    (pruned : Pruned index index.Prunable state) (known : ∀ entry ∈ entries, entry ∈ index.events)
    : Pruned index index.Prunable (entries.foldl index.pruneOrphan state) := by
  induction entries generalizing state with
  | nil => exact pruned
  | cons first rest ih =>
      refine ih ?_ fun entry mem => known entry (List.mem_cons_of_mem _ mem)
      unfold pruneOrphan
      split
      next orphan =>
          exact pruned.drop ⟨first.2, known first List.mem_cons_self, .inr (.inr orphan.2.2)⟩
      · exact pruned

theorem pruneBatches_pruned (pruned : Pruned index reason state)
    (known : ∀ batch ∈ batches, reason batch.1 ∧ ∀ eventKey ∈ batch.2, reason eventKey)
    : Pruned index reason (batches.foldl index.pruneBatch state) := by
  induction batches generalizing state with
  | nil => exact pruned
  | cons first rest ih =>
      refine ih ?_ fun batch mem => known batch (List.mem_cons_of_mem _ mem)
      obtain ⟨head, subtree⟩ := known first List.mem_cons_self
      have headed
          : Pruned index reason
              (if first.1 ∈ state.pruned then state else (index.prune first.1 state).1) := by
        split
        · exact pruned
        · exact pruned.prune head
      refine ⟨?_, headed.children⟩
      intro eventKey mem
      rcases List.mem_append.mp mem with listed | earlier
      · exact subtree eventKey listed
      · exact headed.pruned eventKey earlier

-- What an answered batch holds

/-- A walk has found its head, and every event it has visited let it pass. -/
structure Passed (index : Index) (response : String) (head : EventKey) (walk : BatchWalk)
    : Prop where
  head : head ∈ walk.subtree
  passed : ∀ eventKey ∈ walk.subtree.take walk.next, index.passable response eventKey = true

/-- The subtree of an answered batch holds its head, and only events that let the walk pass. -/
theorem batch_answered {head : EventKey} {response : String} {ownCall : Option ToolCallId}
    {subtree : List EventKey}
    (ran : index.batch fuel head response ownCall = some (.answered subtree))
    : head ∈ subtree ∧ ∀ eventKey ∈ subtree, index.passable response eventKey = true := by
  have kept : ∀ walk next : BatchWalk,
      Passed index response head walk → index.batchPass response ownCall walk = .again next
      → Passed index response head next := by
    intro walk next passed again
    obtain ⟨eventKey, place, passes, descended⟩ := batchPass_again again
    have short : walk.next < walk.subtree.length := (List.getElem?_eq_some_iff.mp place).1
    refine ⟨?_, ?_⟩
    · rw [descended.subtree]
      exact List.mem_append_left _ passed.head
    · intro other mem
      rw [descended.subtree, descended.next, List.take_append_of_le_length short,
        List.take_add_one, place, Option.toList_some] at mem
      rcases List.mem_append.mp mem with earlier | last
      · exact passed.passed other earlier
      · exact List.mem_singleton.mp last ▸ passes
  have start : Passed index response head (batchStart head) :=
    ⟨List.mem_singleton_self head, fun _ mem => absurd mem List.not_mem_nil⟩
  obtain ⟨walk, passed, done⟩ := loop_invariant kept start ran
  unfold batchPass at done
  split at done
  next ended =>
      split at done
      · cases done
        have all : walk.subtree.take walk.next = walk.subtree :=
          List.take_of_length_le (List.getElem?_eq_none_iff.mp ended)
        exact ⟨passed.head, all ▸ passed.passed⟩
      · cases done
  · split at done
    · cases done
    · split at done
      · split at done <;> cases done
      · split at done
        · cases done
        · split at done
          · split at done <;> cases done
          · split at done <;> cases done

/-- An answered side batch holds its head, and only events that let some walk pass. -/
theorem sideBatches_answered (ran : index.sideBatches fuel = some batches) (mem : batch ∈ batches)
    : batch.1 ∈ batch.2
      ∧ ∃ response, ∀ eventKey ∈ batch.2, index.passable response eventKey = true := by
  unfold sideBatches at ran
  obtain ⟨each, classes, flat⟩ := Option.bind_eq_some_iff.mp ran
  cases flat
  obtain ⟨ofFork, inEach, mem⟩ := List.mem_flatten.mp mem
  obtain ⟨fork, _, found⟩ := of_mem_mapM classes inEach
  unfold answeredSideBatches at found
  split at found
  next forkEvent response known responds =>
      dsimp only at found
      split at found
      · cases found
        cases mem
      · obtain ⟨classified, ran, found⟩ := Option.bind_eq_some_iff.mp found
        split at found
        · cases found
          obtain ⟨⟨child, result⟩, listed, same⟩ := List.mem_filterMap.mp mem
          obtain ⟨_, _, walked⟩ := of_mem_mapM ran listed
          obtain ⟨result', ran, paired⟩ := Option.bind_eq_some_iff.mp walked
          cases paired
          cases result with
          | answered subtree =>
              cases same
              exact ⟨(batch_answered ran).1, response, (batch_answered ran).2⟩
          | beyond => cases same
          | incomplete => cases same
        · cases found
          cases mem
  · cases found
    cases mem

theorem passable_user (response : String) (found : (eventKey, event) ∈ index.events)
    (user : event.role = .user) (message : event.kind = .message)
    : index.passable response eventKey = false := by
  unfold passable
  rw [lookup_eq_some_iff.mpr found, Option.any_some]
  simp [user, message, carriesNoConversation]

theorem user_not_mem_batch (ran : index.sideBatches fuel = some batches) (mem : batch ∈ batches)
    (found : (eventKey, event) ∈ index.events) (user : event.role = .user)
    (message : event.kind = .message)
    : eventKey ∉ batch.2 := by
  intro listed
  obtain ⟨_, response, passes⟩ := sideBatches_answered ran mem
  have stopped := passable_user response found user message
  rw [passes eventKey listed] at stopped
  cases stopped

-- Leaves that a conversation may continue from

/-- The event is of the conversation: a user message, or another event that is no notice, no tool
result beside its own call or without a call, and not in an answered side batch.
-/
def Conversation (index : Index) (eventKey : EventKey) (event : NormalizedEvent) : Prop :=
  (event.role = .user ∧ event.kind = .message)
  ∨ carriesNoConversation event = false
    ∧ index.besideOwnCall eventKey = false
    ∧ index.isOrphan event = false
    ∧ ∀ fuel batches,
        index.sideBatches fuel = some batches → ∀ batch ∈ batches, eventKey ∉ batch.2

structure ConversationLeaf (index : Index) (target : BranchResolutionTarget)
    (eventKey : EventKey) (event : NormalizedEvent)
    : Prop where
  scope : (eventKey, event) ∈ index.inScope target
  leaf : index.kids eventKey = []
  conversation : index.Conversation eventKey event

section

variable (leaf : ConversationLeaf index target eventKey event)
include leaf

theorem ConversationLeaf.mem
    : (eventKey, event) ∈ index.events :=
  (List.mem_filter.mp leaf.scope).1

theorem ConversationLeaf.not_prunable
    : ¬index.Prunable eventKey := by
  rintro ⟨other, found, reason⟩
  have same := (lookup_eq_some_iff.mpr found).symm.trans (lookup_eq_some_iff.mpr leaf.mem)
  obtain rfl := Option.some.inj same
  rcases leaf.conversation with ⟨user, message⟩ | ⟨noNotice, noSide, noOrphan, _⟩
  · rcases reason with notice | beside | orphan
    · simp [carriesNoConversation, user] at notice
    · unfold besideOwnCall at beside
      rw [lookup_eq_some_iff.mpr found] at beside
      cases linked : index.parentOf eventKey with
      | none =>
          rw [linked] at beside
          cases beside
      | some parent =>
          rw [linked] at beside
          cases index.events.lookup parent <;> simp [answersOwnCall, message] at beside
    · simp [isOrphan, message] at orphan
  · rcases reason with notice | beside | orphan
    · rw [noNotice] at notice
      cases notice
    · rw [noSide] at beside
      cases beside
    · rw [noOrphan] at orphan
      cases orphan

theorem ConversationLeaf.not_mem_batch (ran : index.sideBatches fuel = some batches)
    (mem : batch ∈ batches)
    : eventKey ∉ batch.2 := by
  rcases leaf.conversation with ⟨user, message⟩ | ⟨_, _, _, outside⟩
  · exact user_not_mem_batch ran mem leaf.mem user message
  · exact outside fuel batches ran batch mem

theorem ConversationLeaf.remaining (pruned : Pruned index reason state)
    (unreasoned : ¬reason eventKey)
    : event ∈ index.remaining target state := by
  have childless : state.isLeaf eventKey := by
    have bound := pruned.children eventKey
    rw [leaf.leaf] at bound
    exact Nat.le_zero.mp bound
  refine List.mem_map.mpr ⟨(eventKey, event), List.mem_filter.mpr ⟨leaf.mem, ?_⟩, rfl⟩
  exact decide_eq_true
    ⟨(List.mem_filter.mp leaf.scope).2, fun mem => unreasoned (pruned.pruned _ mem), childless⟩

theorem ConversationLeaf.substantive {leaves : List NormalizedEvent}
    (ran : index.substantiveLeaves fuel target = some leaves)
    : event ∈ leaves := by
  unfold substantiveLeaves at ran
  obtain ⟨noticed, notices, ran⟩ := Option.bind_eq_some_iff.mp ran
  have results : ∀ result ∈ index.sideResults noticed, index.Prunable result :=
    fun _ mem => prunable_of_sideResult mem
  have beside :=
    pruneSideResults_pruned (index.sideResults noticed) (pruneNotices_pruned notices) results
  have pruned := pruneOrphans_pruned beside fun _ mem => mem
  dsimp only at ran
  split at ran
  · cases ran
    exact leaf.remaining pruned leaf.not_prunable
  · obtain ⟨batches, found, ran⟩ := Option.bind_eq_some_iff.mp ran
    cases ran
    let reason (eventKey : EventKey) : Prop :=
      index.Prunable eventKey ∨ ∃ batch ∈ batches, eventKey ∈ batch.2
    have listed
        : ∀ batch ∈ batches, reason batch.1 ∧ ∀ eventKey ∈ batch.2, reason eventKey :=
      fun batch mem =>
        ⟨.inr ⟨batch, mem, (sideBatches_answered found mem).1⟩,
          fun _ listed => .inr ⟨batch, mem, listed⟩⟩
    have all := pruneBatches_pruned (pruned.imp fun _ => .inl) listed
    apply leaf.remaining all
    rintro (prunable | ⟨batch, mem, listed⟩)
    · exact leaf.not_prunable prunable
    · exact leaf.not_mem_batch found mem listed

end

end Index

end SkillRanker.Context
