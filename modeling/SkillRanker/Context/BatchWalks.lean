import Mathlib.Data.List.Perm.Subperm
import Mathlib.Logic.Relation
import SkillRanker.Context.Indexing

/-! When the walk through the subtree of a batch ends. The walk keeps no record of what it has
visited, so it ends unless it comes back to its own head with nothing on the way that stops it.
-/

namespace SkillRanker.Context

open SkillRanker.Library

variable {walk : BatchWalk} {eventKey fork : EventKey}

namespace Index

variable {index : Index}

/-- Parent links lead from an identity up to the head. -/
def Below (index : Index) (head eventKey : EventKey) : Prop :=
  Relation.ReflTransGen (fun parent child => index.parentOf child = some parent) head eventKey

/-- The walk goes on from the event: a fragment of the response, a result, or a notice. -/
def passable (index : Index) (response : String) (eventKey : EventKey) : Bool :=
  (index.events.lookup eventKey).any fun event =>
    decide
      (event.role = .assistant ∧ event.kind = .toolInvocation
        ∧ index.fragmentOf response eventKey = true ∧ callId event ≠ none)
    || decide
      (event.role = .assistant ∧ event.kind = .message
        ∧ index.fragmentOf response eventKey = true)
    || decide (event.kind = .toolResult ∧ callId event ≠ none)
    || carriesNoConversation event

/-- The walk has gone below the identity. -/
structure Descended (index : Index) (eventKey : EventKey) (walk next : BatchWalk) : Prop where
  subtree : next.subtree = walk.subtree ++ index.kids eventKey
  next : next.next = walk.next + 1

-- One visit

variable {response : String} {ownCall : Option ToolCallId}

/-- A visit that goes on is of an event that lets the walk pass. -/
theorem batchPass_again {next : BatchWalk}
    (again : index.batchPass response ownCall walk = .again next)
    : ∃ eventKey,
        walk.subtree[walk.next]? = some eventKey
        ∧ index.passable response eventKey = true
        ∧ Descended index eventKey walk next := by
  unfold batchPass at again
  split at again
  · split at again <;> cases again
  next eventKey place =>
      refine ⟨eventKey, place, ?_⟩
      split at again
      · cases again
      next event found =>
          unfold passable
          rw [found]
          split at again
          next call =>
              split at again
              · cases again
              next id made =>
                  cases again
                  exact ⟨by simp [call, made], rfl, rfl⟩
          split at again
          next message =>
              cases again
              exact ⟨by simp [message], rfl, rfl⟩
          split at again
          next result =>
              split at again
              · cases again
              next id answered =>
                  cases again
                  exact ⟨by simp [result, answered], rfl, rfl⟩
          split at again
          next notice =>
              cases again
              exact ⟨by simp [notice], rfl, rfl⟩
          · cases again

/-- The walk goes on from every event that lets it pass. -/
theorem exists_batchPass (place : walk.subtree[walk.next]? = some eventKey)
    (passes : index.passable response eventKey = true)
    : ∃ next, index.batchPass response ownCall walk = .again next := by
  unfold passable at passes
  cases found : index.events.lookup eventKey with
  | none =>
      rw [found] at passes
      cases passes
  | some event =>
      rw [found, Option.any_some] at passes
      simp only [batchPass, place, found]
      split
      next call =>
          cases made : callId event with
          | none => simp [made, call.2.1, carriesNoConversation] at passes
          | some id => exact ⟨_, rfl⟩
      next noCall =>
          split
          · exact ⟨_, rfl⟩
          next noMessage =>
              split
              next result =>
                  cases answered : callId event with
                  | none => simp [answered, result, carriesNoConversation] at passes
                  | some id => exact ⟨_, rfl⟩
              next noResult =>
                  split
                  · exact ⟨_, rfl⟩
                  next noNotice =>
                      exfalso
                      simp only [noResult, false_and, decide_false, Bool.or_false, noNotice,
                        noMessage] at passes
                      exact noCall ⟨(of_decide_eq_true passes).1, (of_decide_eq_true passes).2.1,
                        (of_decide_eq_true passes).2.2.1⟩

-- What the walk has found

/-- The walk has found the head, and the children of every event it has visited. -/
structure Walked (index : Index) (head : EventKey) (walk : BatchWalk) : Prop where
  subtree : walk.subtree = head :: (walk.subtree.take walk.next).flatMap index.kids
  within : walk.next ≤ walk.subtree.length
  below : ∀ eventKey ∈ walk.subtree, Below index head eventKey

theorem batchStart_walked (head : EventKey) : Walked index head (batchStart head) where
  subtree := rfl
  within := Nat.zero_le _
  below := by
    intro eventKey mem
    obtain rfl := List.mem_singleton.mp mem
    exact .refl

variable {head : EventKey}

theorem Walked.descended {next : BatchWalk} (walked : Walked index head walk)
    (place : walk.subtree[walk.next]? = some eventKey)
    (descended : Descended index eventKey walk next)
    : Walked index head next where
  subtree := by
    have short : walk.next < walk.subtree.length := (List.getElem?_eq_some_iff.mp place).1
    have visited
        : next.subtree.take next.next = walk.subtree.take walk.next ++ [eventKey] := by
      rw [descended.subtree, descended.next, List.take_append_of_le_length short,
        List.take_add_one, place, Option.toList_some]
    rw [visited, List.flatMap_append, List.flatMap_singleton, ← List.cons_append,
      ← walked.subtree]
    exact descended.subtree
  within := by
    have short : walk.next < walk.subtree.length := (List.getElem?_eq_some_iff.mp place).1
    rw [descended.subtree, descended.next, List.length_append]
    omega
  below := by
    intro other mem
    rw [descended.subtree] at mem
    rcases List.mem_append.mp mem with earlier | child
    · exact walked.below other earlier
    · exact (walked.below eventKey (List.mem_of_getElem? place)).tail (mem_kids.mp child)

/-- A child is found as often as its parent was visited, by induction on the visits. -/
theorem count_kids {child : EventKey} (linked : index.parentOf child = some eventKey)
    (visited : List EventKey)
    : (visited.flatMap index.kids).count child = visited.count eventKey := by
  induction visited with
  | nil => rfl
  | cons first rest ih =>
      rw [List.flatMap_cons, List.count_append, ih, List.count_cons]
      by_cases same : first = eventKey
      · subst same
        have once : (index.kids first).count child = 1 :=
          List.count_eq_one_of_mem (kids_nodup first) (mem_kids.mpr linked)
        rw [once, beq_self_eq_true, if_pos rfl, Nat.add_comm]
      · have absent : (index.kids first).count child = 0 := by
          apply List.count_eq_zero_of_not_mem
          intro mem
          exact same (Option.some.inj ((mem_kids.mp mem).symm.trans linked))
        rw [absent, beq_eq_false_iff_ne.mpr same, if_neg Bool.false_ne_true, Nat.zero_add,
          Nat.add_zero]

/-- A walk that has come back to its head never runs out of events to visit. -/
theorem Walked.next_lt (walked : Walked index head walk) (linked : index.parentOf head = some fork)
    (back : Below index head fork)
    : walk.next < walk.subtree.length := by
  by_contra ended
  have all : walk.subtree.take walk.next = walk.subtree :=
    List.take_of_length_le (not_lt.mp ended)
  have closed : walk.subtree = head :: walk.subtree.flatMap index.kids := by
    have found := walked.subtree
    rwa [all] at found
  have count (eventKey parent : EventKey) (linked : index.parentOf eventKey = some parent)
      : walk.subtree.count parent ≤ walk.subtree.count eventKey := by
    rw [← count_kids linked walk.subtree]
    conv_rhs => rw [closed]
    exact List.count_le_count_cons
  have monotone (eventKey : EventKey) (below : Below index head eventKey)
      : walk.subtree.count head ≤ walk.subtree.count eventKey := by
    induction below with
    | refl => exact Nat.le_refl _
    | tail _ linked ih => exact Nat.le_trans ih (count _ _ linked)
  have more : walk.subtree.count head = walk.subtree.count fork + 1 := by
    rw [← count_kids linked walk.subtree]
    conv_lhs => rw [closed]
    exact List.count_cons_self
  have less := monotone fork back
  omega

/-- A walk that comes back to its head and is stopped by nothing never ends. -/
theorem batch_endless (linked : index.parentOf head = some fork) (back : Below index head fork)
    (passes : ∀ eventKey, Below index head eventKey → index.passable response eventKey = true)
    (fuel : Nat)
    : index.batch fuel head response ownCall = none := by
  refine @loop_eq_none _ _ _ _ (Walked index head) ?_ (batchStart_walked head) fuel
  intro walk walked
  have short := walked.next_lt linked back
  have place := List.getElem?_eq_getElem short
  have below := walked.below _ (List.getElem_mem short)
  obtain ⟨next, again⟩ := exists_batchPass place (passes _ below)
  obtain ⟨eventKey, place', _, descended⟩ := batchPass_again again
  exact ⟨next, again, walked.descended place' descended⟩

-- Walks that end

structure WalkedFor (index : Index) (head : EventKey) (visits : Nat) (walk : BatchWalk) : Prop
    extends Walked index head walk where
  visits : walk.next = visits

variable {response : String} {ownCall : Option ToolCallId} {head : EventKey}

section

variable {visits : Nat}
  (through : stateAfter (index.batchPass response ownCall) visits (batchStart head) = some walk)
include through

/-- After so many visits the walk has taken so many steps, by induction on the visits. -/
theorem walkedFor
    : WalkedFor index head visits walk := by
  induction visits generalizing walk with
  | zero =>
      obtain rfl := Option.some.inj through
      exact ⟨batchStart_walked head, rfl⟩
  | succ visits ih =>
      obtain ⟨earlier, before, again⟩ := exists_before through
      obtain ⟨eventKey, place, _, descended⟩ := batchPass_again again
      have walked := ih before
      refine ⟨walked.toWalked.descended place descended, ?_⟩
      rw [descended.next, walked.visits]

/-- What was found stays found in its place. -/
theorem subtree_mono {later : Nat} {after : BatchWalk}
    (throughLater
      : stateAfter (index.batchPass response ownCall) later (batchStart head) = some after)
    (earlier : visits ≤ later)
    : walk.subtree <+: after.subtree := by
  induction later generalizing after with
  | zero =>
      obtain rfl : visits = 0 := Nat.le_zero.mp earlier
      cases through.symm.trans throughLater
      exact List.prefix_refl _
  | succ later ih =>
      rcases Nat.lt_or_ge later visits with beyond | within
      · obtain rfl : visits = later + 1 := by omega
        cases through.symm.trans throughLater
        exact List.prefix_refl _
      · obtain ⟨between, before, again⟩ := exists_before throughLater
        obtain ⟨eventKey, _, _, descended⟩ := batchPass_again again
        rw [descended.subtree]
        exact (ih before within).trans (List.prefix_append _ _)

end

/-- A walk that never ends visits every event below its head, by induction on the links. -/
theorem visited_of_endless (endless : ¬Returns (index.batchPass response ownCall) (batchStart head))
    (below : Below index head eventKey)
    : ∃ visits walk,
        stateAfter (index.batchPass response ownCall) visits (batchStart head) = some walk
        ∧ walk.subtree[visits]? = some eventKey := by
  induction below with
  | refl => exact ⟨0, batchStart head, rfl, rfl⟩
  | @tail _ child _ linked ih =>
      obtain ⟨visits, walk, through, place⟩ := ih
      obtain ⟨next, throughNext⟩ := exists_stateAfter endless (visits + 1)
      obtain ⟨visited, placeNext, _, descended⟩ :=
        batchPass_again (stateAfter_succ through throughNext)
      rw [(walkedFor through).visits, place] at placeNext
      obtain rfl := Option.some.inj placeNext
      have found : child ∈ next.subtree := by
        rw [descended.subtree]
        exact List.mem_append_right _ (mem_kids.mpr linked)
      obtain ⟨place', short, atPlace⟩ := List.getElem_of_mem found
      obtain ⟨there, throughThere⟩ := exists_stateAfter endless place'
      refine ⟨place', there, throughThere, ?_⟩
      -- the place of the child may be before or after the visit of its parent
      rcases Nat.le_total place' (visits + 1) with before | after
      · obtain ⟨further, throughFurther⟩ := exists_stateAfter endless (place' + 1)
        obtain ⟨visited', placeThere, _, _⟩ :=
          batchPass_again (stateAfter_succ throughThere throughFurther)
        rw [(walkedFor throughThere).visits] at placeThere
        have kept := subtree_mono throughThere throughNext before
        have same := kept.getElem (List.getElem?_eq_some_iff.mp placeThere).1
        rw [placeThere, ← atPlace, ← same]
        exact congrArg some (List.getElem?_eq_some_iff.mp placeThere).2.symm
      · have kept := subtree_mono throughNext throughThere after
        rw [← atPlace]
        exact (List.getElem?_eq_some_iff.mpr
          ⟨Nat.lt_of_lt_of_le short kept.length_le, (kept.getElem short).symm⟩)

/-- Every event below the head of an endless walk lets it pass. -/
theorem passable_of_endless
    (endless : ¬Returns (index.batchPass response ownCall) (batchStart head))
    (below : Below index head eventKey)
    : index.passable response eventKey = true := by
  obtain ⟨visits, walk, through, place⟩ := visited_of_endless endless below
  obtain ⟨next, throughNext⟩ := exists_stateAfter endless (visits + 1)
  obtain ⟨visited, placeNext, passes, _⟩ :=
    batchPass_again (stateAfter_succ through throughNext)
  rw [(walkedFor through).visits, place] at placeNext
  exact Option.some.inj placeNext ▸ passes

section

variable (linked : index.parentOf head = some fork)
include linked

/-- A walk that cannot come back to its head finds every event once. -/
theorem nodup_of_apart (apart : ¬Below index head fork) {visits : Nat}
    (through
      : stateAfter (index.batchPass response ownCall) visits (batchStart head) = some walk)
    : walk.subtree.Nodup := by
  induction visits generalizing walk with
  | zero =>
      obtain rfl := Option.some.inj through
      exact List.nodup_singleton head
  | succ visits ih =>
      obtain ⟨earlier, before, again⟩ := exists_before through
      obtain ⟨eventKey, place, _, descended⟩ := batchPass_again again
      have walked := walkedFor before
      have distinct := ih before
      rw [descended.subtree]
      refine distinct.append (kids_nodup eventKey) ?_
      -- a child found before is the head, or was found from the same parent
      intro child found again
      have linked' := mem_kids.mp again
      rw [walked.subtree] at found
      rcases List.mem_cons.mp found with rfl | found
      · have same := Option.some.inj (linked.symm.trans linked')
        exact apart (same ▸ walked.below eventKey (List.mem_of_getElem? place))
      · obtain ⟨other, visited, child'⟩ := List.mem_flatMap.mp found
        obtain rfl := Option.some.inj ((mem_kids.mp child').symm.trans linked')
        have later : other ∈ earlier.subtree.drop earlier.next := by
          rw [List.mem_iff_getElem?]
          exact ⟨0, by rw [List.getElem?_drop, Nat.add_zero, place]⟩
        exact (List.disjoint_take_drop distinct (Nat.le_refl _)) visited later

/-- A walk that cannot come back to its head ends. -/
theorem returns_of_apart (apart : ¬Below index head fork)
    : Returns (index.batchPass response ownCall) (batchStart head) := by
  by_contra endless
  obtain ⟨walk, through⟩ := exists_stateAfter endless (index.keys.length + 1)
  have walked := walkedFor through
  have known : walk.subtree ⊆ index.keys := by
    intro eventKey mem
    rcases Relation.ReflTransGen.cases_tail (walked.below eventKey mem) with rfl | ⟨_, _, link⟩
    · exact (mem_keys_of_parentOf linked).1
    · exact (mem_keys_of_parentOf link).1
  have bound := (List.subperm_of_subset (nodup_of_apart linked apart through) known).length_le
  have visits := walked.visits
  have within := walked.within
  omega

/-- The walk below a fork ends unless it comes back to the fork with nothing to stop it. -/
theorem batch_ends_iff
    : Ends (fun fuel => index.batch fuel head response ownCall)
      ↔ ¬(Below index head fork
          ∧ ∀ eventKey,
              Below index head eventKey → index.passable response eventKey = true) := by
  constructor
  · rintro ⟨fuel, result, ended⟩ ⟨back, passes⟩
    exact absurd ended (by simp [batch_endless linked back passes])
  · intro stopped
    by_contra endless
    by_cases back : Below index head fork
    · exact stopped ⟨back, fun _ below => passable_of_endless endless below⟩
    · exact endless (returns_of_apart linked back)

end

end Index

end SkillRanker.Context
