import SkillRanker.Context.BatchWalks

/-! When the resolution of a branch returns. -/

namespace SkillRanker.Context

open SkillRanker.Library

variable {fork : EventKey} {responses : List (EventId × String)}

namespace Index

variable (index : Index)

-- Side batches

/-- A fork of a response that a parent cycle leads back to, where every event below lets the walk
through the response pass.
-/
structure Looping (fork head : EventKey) : Prop where
  call
    : ∃ event response,
        index.events.lookup fork = some event
        ∧ event.kind = .toolInvocation
        ∧ index.responses.lookup fork.eventId = some response
        ∧ ∀ eventKey, Below index head eventKey → index.passable response eventKey = true
  wide : 2 ≤ (index.kids fork).length
  child : index.parentOf head = some fork
  back : Below index head fork

theorem steady_batch (head : EventKey) (response : String) (ownCall : Option ToolCallId)
    : Steady fun fuel => index.batch fuel head response ownCall :=
  steady_loop _ _

/-- The batches below the children of a fork, for some fuel. -/
abbrev classify (forkEvent : NormalizedEvent) (response : String) (child : EventKey) (fuel : Nat)
    : Option (EventKey × Batch) := do
  let batch ← index.batch fuel child response (callId forkEvent)
  return (child, batch)

theorem steady_classify (forkEvent : NormalizedEvent) (response : String) (child : EventKey)
    : Steady (index.classify forkEvent response child) :=
  (index.steady_batch child response _).bind fun _ => steady_const _

theorem steady_answeredSideBatches (fork : EventKey)
    : Steady fun fuel => index.answeredSideBatches fuel fork := by
  unfold answeredSideBatches
  split
  next forkEvent response found known =>
      dsimp only
      split
      · exact steady_const _
      · exact (Steady.mapM (index.steady_classify forkEvent response)).bind fun batches => by
          split <;> exact steady_const _
  · exact steady_const _

theorem steady_sideBatches : Steady fun fuel => index.sideBatches fuel :=
  (Steady.mapM (index.steady_answeredSideBatches)).bind fun _ => steady_const _

variable {index}

/-- The batches below a fork are classified where no child of it leads back to it. -/
theorem answeredSideBatches_ends (straight : ∀ head, ¬index.Looping fork head)
    : Ends fun fuel => index.answeredSideBatches fuel fork := by
  unfold answeredSideBatches
  split
  next forkEvent response found known =>
      dsimp only
      split
      · exact ⟨0, _, rfl⟩
      next wide =>
          obtain ⟨call, many⟩ := not_or.mp wide
          have each : ∀ child ∈ index.kids fork, Ends (index.classify forkEvent response child) := by
            intro child mem
            have linked := mem_kids.mp mem
            apply Ends.bind ((batch_ends_iff linked).mpr ?_) (index.steady_batch child response _)
            · exact fun _ => steady_const _
            · exact fun _ _ _ => ⟨0, _, rfl⟩
            · rintro ⟨back, passes⟩
              exact straight child
                ⟨⟨forkEvent, response, found, not_not.mp call, known, passes⟩, not_lt.mp many,
                  linked, back⟩
          have steady := index.steady_classify forkEvent response
          apply (ends_mapM steady each).bind (Steady.mapM steady)
          · intro batches
            split <;> exact steady_const _
          · intro _ batches _
            split <;> exact ⟨0, _, rfl⟩
  · exact ⟨0, _, rfl⟩

theorem sideBatches_ends (straight : ∀ fork head, ¬index.Looping fork head)
    : Ends fun fuel => index.sideBatches fuel := by
  have steady := index.steady_answeredSideBatches
  apply (ends_mapM steady fun fork _ => answeredSideBatches_ends (straight fork)).bind
    (Steady.mapM steady)
  · exact fun _ => steady_const _
  · exact fun _ _ _ => ⟨0, _, rfl⟩

variable {head : EventKey}

/-- A looping fork is never done with. -/
theorem sideBatches_endless (looping : index.Looping fork head) (fuel : Nat)
    : index.sideBatches fuel = none := by
  obtain ⟨event, response, found, call, known, passes⟩ := looping.call
  have endless : index.classify event response head fuel = none := by
    rw [classify, batch_endless looping.child looping.back passes]
    rfl
  have fork' : index.answeredSideBatches fuel fork = none := by
    have wide : ¬(event.kind ≠ .toolInvocation ∨ (index.kids fork).length < 2) :=
      not_or.mpr ⟨not_not.mpr call, not_lt.mpr looping.wide⟩
    simp only [answeredSideBatches, found, known, if_neg wide]
    rw [mapM_eq_none (mem_kids.mpr looping.child) endless]
    rfl
  have listed : fork ∈ index.keys.filter fun fork => index.kids fork ≠ [] := by
    refine List.mem_filter.mpr ⟨mem_keys_of_lookup found, decide_eq_true ?_⟩
    exact List.ne_nil_of_mem (mem_kids.mpr looping.child)
  rw [sideBatches, mapM_eq_none listed fork']
  rfl

-- Notices

theorem mem_keys_of_isNotice {eventKey : EventKey} (notice : index.isNotice eventKey = true)
    : eventKey ∈ index.keys := by
  unfold isNotice at notice
  cases found : index.events.lookup eventKey with
  | none =>
      rw [found] at notice
      cases notice
  | some event => exact mem_keys_of_lookup found

theorem prune_pruned (index : Index) (eventKey : EventKey) (state : Pruning)
    : (index.prune eventKey state).1.pruned = eventKey :: state.pruned := by
  unfold prune
  split <;> rfl

/-- Every pass takes a candidate away, or prunes it and puts back its parent. -/
theorem pruneNotices_ends : Ends fun fuel => index.pruneNotices fuel := by
  let measure (state : Pruning × List EventKey) : Nat :=
    2 * unmet index.keys state.1.pruned + state.2.length
  have lowered : ∀ state next : Pruning × List EventKey,
      True → index.noticePass state = .again next → True ∧ measure next < measure state := by
    intro state next _ again
    refine ⟨trivial, ?_⟩
    obtain ⟨state, pending⟩ := state
    cases pending with
    | nil => cases again
    | cons candidate pending =>
        unfold noticePass at again
        dsimp only at again
        split at again
        · cases again
          simp [measure]
        next pruning =>
            obtain ⟨fresh, pruning⟩ := not_or.mp pruning
            have notice := Bool.not_eq_false _ ▸ (not_or.mp pruning).2
            have fewer := unmet_cons (mem_keys_of_isNotice notice) fresh
            have pruned := prune_pruned index candidate state
            split at again
            next after kept =>
                cases again
                rw [kept] at pruned
                dsimp only at pruned
                simp only [measure, pruned, List.length_cons]
                omega
            next after parent kept =>
                cases again
                rw [kept] at pruned
                dsimp only at pruned
                simp only [measure, pruned, List.length_cons]
                omega
  let start : Pruning × List EventKey :=
    (index.unpruned, (index.keys.filter fun eventKey => index.kids eventKey = []).reverse)
  obtain ⟨result, ended⟩ := loop_returns measure lowered trivial (Nat.lt_succ_self (measure start))
  unfold pruneNotices
  exact ⟨measure start + 1, result, ended⟩

theorem steady_pruneNotices : Steady fun fuel => index.pruneNotices fuel := steady_loop _ _

-- The leaves that remain

theorem steady_substantiveLeaves (target : BranchResolutionTarget)
    : Steady fun fuel => index.substantiveLeaves fuel target := by
  apply steady_pruneNotices.bind
  intro state
  dsimp only
  split
  · exact steady_const _
  · exact index.steady_sideBatches.bind fun _ => steady_const _

theorem substantiveLeaves_ends (straight : ∀ fork head, ¬index.Looping fork head)
    (target : BranchResolutionTarget)
    : Ends fun fuel => index.substantiveLeaves fuel target := by
  apply pruneNotices_ends.bind steady_pruneNotices
  · intro state
    dsimp only
    split
    · exact steady_const _
    · exact index.steady_sideBatches.bind fun _ => steady_const _
  · intro _ state _
    dsimp only
    split
    · exact ⟨0, _, rfl⟩
    · exact (sideBatches_ends straight).bind index.steady_sideBatches
        (fun _ => steady_const _) fun _ _ _ => ⟨0, _, rfl⟩

/-- The responses of a looping fork are known, so that its batches are searched for. -/
theorem substantiveLeaves_endless (looping : index.Looping fork head)
    (target : BranchResolutionTarget) (fuel : Nat)
    : index.substantiveLeaves fuel target = none := by
  obtain ⟨_, response, _, _, known, _⟩ := looping.call
  have responses : index.responses ≠ [] := by
    intro none
    rw [none] at known
    cases known
  unfold substantiveLeaves
  cases index.pruneNotices fuel with
  | none => rfl
  | some state => simp [if_neg responses, sideBatches_endless looping]

-- The walk to the root

def Known (index : Index) (event : NormalizedEvent) : Prop :=
  ∃ eventKey, (eventKey, event) ∈ index.events

variable {visited : List EventKey}

/-- A step to a parent visits the event, which was not visited before. -/
theorem step_spec {target : BranchResolutionTarget} {walk : Trace} {parent : Option NormalizedEvent}
    (stepped : index.step target walk = .ok (visited, parent))
    : index.visit walk.visited walk.current = .ok visited
      ∧ checkBranch target walk.current = .ok ()
      ∧ index.parent walk.current = .ok parent := by
  unfold step at stepped
  simp only [bind_eq_ok] at stepped
  obtain ⟨visited', visits, _, branch, parent', linked, same⟩ := stepped
  cases same
  exact ⟨visits, branch, linked⟩

/-- The identity of a visited event is fresh, and free of conflicts. -/
theorem visit_spec {after : List EventKey} {event : NormalizedEvent} {eventKey : EventKey}
    (identity : key event = some eventKey) (visits : index.visit visited event = .ok after)
    : after = eventKey :: visited
      ∧ eventKey ∉ index.conflicts
      ∧ eventKey ∉ visited
      ∧ eventKey.eventId ∉ visited.map (·.eventId) := by
  unfold visit at visits
  rw [identity] at visits
  simp only [bind_eq_ok, checkVisit, ensure_eq_ok] at visits
  obtain ⟨_, ⟨_, free, _, fresh, apart⟩, same⟩ := visits
  cases same
  exact ⟨rfl, free, fresh, apart⟩

/-- The walk to the root meets every identity at most once. -/
theorem trace_loop_ends (target : BranchResolutionTarget) (leaf : NormalizedEvent)
    : Ends fun fuel =>
        loop (index.tracePass target) fuel { lineage := [], visited := [], current := leaf } := by
  classical
  let measure (walk : Trace) : Nat :=
    2 * unmet index.keys walk.visited + if index.Known walk.current then 0 else 1
  have lowered : ∀ walk next : Trace,
      True → index.tracePass target walk = .again next → True ∧ measure next < measure walk := by
    intro walk next _ again
    refine ⟨trivial, ?_⟩
    unfold tracePass at again
    split at again
    · cases again
    · cases again
    next visited parent stepped =>
        cases again
        obtain ⟨visits, _, linked⟩ := step_spec stepped
        obtain ⟨parentKey, kin⟩ := parent_spec linked
        have known : index.Known parent := ⟨parentKey, kin.found⟩
        simp only [measure, if_pos known]
        by_cases listed : index.Known walk.current
        · obtain ⟨eventKey, mem⟩ := listed
          have identity : key walk.current = some eventKey := index.keyed _ mem
          obtain ⟨rfl, _, fresh, _⟩ := visit_spec identity visits
          have inKeys : eventKey ∈ index.keys := List.mem_map_of_mem mem
          have fewer := unmet_cons inKeys fresh
          rw [if_pos ⟨eventKey, mem⟩]
          omega
        · have kept : unmet index.keys visited ≤ unmet index.keys walk.visited := by
            cases identity : key walk.current with
            | none =>
                unfold visit at visits
                rw [identity] at visits
                cases visits
                exact Nat.le_refl _
            | some eventKey =>
                rw [(visit_spec identity visits).1]
                exact unmet_cons_le _ _ _
          rw [if_neg listed]
          omega
  obtain ⟨result, ended⟩ :=
    loop_returns measure lowered trivial
      (Nat.lt_succ_self (measure { lineage := [], visited := [], current := leaf }))
  exact ⟨_, result, ended⟩

theorem steady_trace (leaf : NormalizedEvent) (target : BranchResolutionTarget)
    : Steady fun fuel => index.trace fuel leaf target :=
  (steady_loop _ _).bind fun _ => steady_const _

theorem trace_ends (leaf : NormalizedEvent) (target : BranchResolutionTarget)
    : Ends fun fuel => index.trace fuel leaf target :=
  (trace_loop_ends target leaf).bind (steady_loop _ _) (fun _ => steady_const _)
    fun _ _ _ => ⟨0, _, rfl⟩

-- Selection

variable (events : List NormalizedEvent) (target : BranchResolutionTarget)

theorem steady_selectNone : Steady fun fuel => (index.selectNone fuel events target).run := by
  unfold selectNone
  split
  · exact steady_const _
  · split
    · exact steady_const _
    · exact Steady.runBind (steady_trace _ target) fun _ => steady_const _

theorem selectNone_ends : Ends fun fuel => (index.selectNone fuel events target).run := by
  unfold selectNone
  split
  · exact ⟨0, _, rfl⟩
  · split
    · exact ⟨0, _, rfl⟩
    · exact Ends.runBind (trace_ends _ target) (steady_trace _ target) (fun _ => steady_const _)
        fun _ _ _ => ⟨0, _, rfl⟩

/-- The outcome of several leaves, once those that remain are known. -/
theorem selectFork_run (fuel : Nat) (leaves : List NormalizedEvent)
    : (index.selectFork fuel events target leaves).run
      = (index.substantiveLeaves fuel target).map fun substantive =>
          match substantive with
          | [leaf] => .ok leaf
          | [] => .error (forks leaves)
          | _ =>
              match index.afterUnlinkedCompaction events substantive with
              | some leaf => .ok leaf
              | none => .error (forks substantive) := by
  rw [selectFork, ExceptT.run_bind, ExceptT.run_lift]
  cases index.substantiveLeaves fuel target with
  | none => rfl
  | some substantive =>
      rw [Option.map_eq_map, Option.map_some, Option.map_some, Option.bind_eq_bind,
        Option.bind_some]
      match substantive with
      | [] => rfl
      | [leaf] => rfl
      | first :: second :: rest =>
          dsimp only
          cases index.afterUnlinkedCompaction events (first :: second :: rest) <;> rfl

theorem steady_selectFork (leaves : List NormalizedEvent)
    : Steady fun fuel => (index.selectFork fuel events target leaves).run := by
  simp only [selectFork_run]
  exact (steady_substantiveLeaves target).map _

theorem steady_select : Steady fun fuel => (index.select fuel events target).run := by
  unfold select
  split
  · exact steady_const _
  · apply Steady.runBind (steady_const _)
    intro leaves
    split
    · exact steady_const _
    · exact steady_selectNone events target
    · exact steady_selectFork events target leaves

/-- A leaf is selected, or refused, unless several leaves meet a looping fork. -/
theorem select_ends
    (straight
      : target.targetEventId = none
        → ∀ leaves,
            index.leaves target = .ok leaves
            → 2 ≤ leaves.length
            → ∀ fork head, ¬index.Looping fork head)
    : Ends fun fuel => (index.select fuel events target).run := by
  unfold select
  split
  · exact ⟨0, _, rfl⟩
  next unnamed =>
      apply Ends.runBind ⟨0, _, rfl⟩ (steady_const _)
      · intro leaves
        split
        · exact steady_const _
        · exact steady_selectNone events target
        · exact steady_selectFork events target leaves
      · intro _ leaves found
        split
        · exact ⟨0, _, rfl⟩
        · exact selectNone_ends events target
        next several notOne notNone =>
            simp only [selectFork_run]
            apply (substantiveLeaves_ends (straight unnamed leaves ?_ ?_) target).map
            · exact Option.some.inj found
            · rcases leaves with _ | ⟨leaf, _ | ⟨second, rest⟩⟩
              · exact absurd rfl notNone
              · exact absurd rfl (notOne leaf)
              · simp

/-- Several leaves that meet a looping fork are never done with. -/
theorem select_endless (unnamed : target.targetEventId = none) {leaves : List NormalizedEvent}
    (found : index.leaves target = .ok leaves) (forked : 2 ≤ leaves.length)
    (looping : index.Looping fork head) (fuel : Nat)
    : (index.select fuel events target).run = none := by
  unfold select
  rw [unnamed]
  dsimp only
  rw [run_bind_eq_none]
  refine .inr ⟨leaves, congrArg some found, ?_⟩
  match leaves, forked with
  | first :: second :: rest, _ =>
      dsimp only
      rw [selectFork_run, substantiveLeaves_endless looping]
      rfl

end Index

-- The resolution

/-- The resolution walks through the batches of a looping fork: no event was asked for, and the
scope has several leaves and no conflict.
-/
structure Spins (events : List NormalizedEvent) (target : BranchResolutionTarget)
    (responses : List (EventId × String))
    : Prop where
  unnamed : target.targetEventId = none
  forked
    : ∃ leaves, (Index.new events responses).leaves target = .ok leaves ∧ 2 ≤ leaves.length
  looping : ∃ fork head, (Index.new events responses).Looping fork head

abbrev selectBranch (index : Index) (fuel : Nat) (events : List NormalizedEvent)
    (target : BranchResolutionTarget)
    : ExceptT UnresolvedBranchReason Option ActiveBranch := do
  let leaf ← index.select fuel events target
  ExceptT.mk (index.trace fuel leaf target)

def resolutionOf : Except UnresolvedBranchReason ActiveBranch → BranchResolution
  | .ok branch => .resolved branch
  | .error reason => .unresolved reason

variable {events : List NormalizedEvent}

theorem resolve_eq (some : events ≠ []) (fuel : Nat) (target : BranchResolutionTarget)
    (responses : List (EventId × String))
    : resolve fuel events target responses
      = (selectBranch (Index.new events responses) fuel events target).run.map resolutionOf := by
  rw [resolve, if_neg some]
  change (Option.bind _ _) = _
  cases (selectBranch (Index.new events responses) fuel events target).run with
  | none => rfl
  | some outcome => cases outcome <;> rfl

variable {target : BranchResolutionTarget}

/-- A resolved branch is traced back from the leaf that is selected. -/
theorem resolve_parts {fuel : Nat} {branch : ActiveBranch}
    (resolved : resolve fuel events target responses = some (.resolved branch))
    : events ≠ []
      ∧ ∃ leaf,
          ((Index.new events responses).select fuel events target).run = some (.ok leaf)
          ∧ (Index.new events responses).trace fuel leaf target = some (.ok branch) := by
  have some : events ≠ [] := by
    rintro rfl
    cases resolved
  rw [resolve_eq some] at resolved
  obtain ⟨outcome, ran, resolved⟩ := Option.map_eq_some_iff.mp resolved
  cases outcome with
  | error reason => cases resolved
  | ok found =>
      cases resolved
      exact ⟨some, run_bind_eq_some_ok.mp ran⟩

/-- The resolution never returns from the batches of a looping fork. -/
theorem resolve_endless (spins : Spins events target responses) (fuel : Nat)
    : resolve fuel events target responses = none := by
  obtain ⟨leaves, found, forked⟩ := spins.forked
  obtain ⟨fork, head, looping⟩ := spins.looping
  have some : events ≠ [] := by
    rintro rfl
    cases found
    simp [Index.new, Index.empty, Index.inScope] at forked
  have endless := Index.select_endless events target spins.unnamed found forked looping fuel
  rw [resolve_eq some, run_bind_eq_none.mpr (.inl endless)]
  rfl

/-- The resolution returns where it walks through no looping fork. -/
theorem resolve_ends (stops : ¬Spins events target responses)
    : Ends fun fuel => resolve fuel events target responses := by
  by_cases none : events = []
  · exact ⟨0, _, if_pos none⟩
  · simp only [resolve_eq none]
    apply Ends.map
    apply Ends.runBind (Index.select_ends events target ?_) (Index.steady_select events target)
    · exact fun leaf => Index.steady_trace leaf target
    · exact fun _ leaf _ => Index.trace_ends leaf target
    · exact fun unnamed leaves found forked fork head looping =>
        stops ⟨unnamed, ⟨leaves, found, forked⟩, fork, head, looping⟩

/-- The resolution returns unless it walks through the batches of a looping fork. -/
theorem resolve_returns_iff (events : List NormalizedEvent) (target : BranchResolutionTarget)
    (responses : List (EventId × String))
    : (∃ fuel resolution, resolve fuel events target responses = some resolution)
      ↔ ¬Spins events target responses := by
  constructor
  · rintro ⟨fuel, resolution, returned⟩ spins
    rw [resolve_endless spins] at returned
    cases returned
  · exact resolve_ends

-- A response that leads back to itself

def callEvent : EventId := { text := "f", valid := by decide +kernel }

def messageEvent : EventId := { text := "m", valid := by decide +kernel }

def firstResult : EventId := { text := "r1", valid := by decide +kernel }
def secondResult : EventId := { text := "r2", valid := by decide +kernel }

def linkedEvent (eventId parentId : EventId) (role : Role) (kind : EventKind)
    (tool : Option ToolEvent)
    : NormalizedEvent :=
  {
    eventId := some eventId
    parentId := some parentId
    turnId := none
    agentId := none
    branchId := none
    role := role
    kind := kind
    timestampUnixMs := none
    text := ""
    tool := tool
  }

def callTool : ToolEvent :=
  {
    callId := some { text := "k", valid := by decide +kernel }
    name := "Read"
    status := .succeeded
    arguments := none
    result := none
  }

def callRecord : NormalizedEvent :=
  linkedEvent callEvent messageEvent .assistant .toolInvocation (some callTool)

/-- A call and a message of one response that name each other as parents, and two results. -/
def loopingEvents : List NormalizedEvent :=
  [
    callRecord,
    linkedEvent messageEvent callEvent .assistant .message none,
    linkedEvent firstResult callEvent .tool .toolResult (some callTool),
    linkedEvent secondResult callEvent .tool .toolResult (some callTool)
  ]

def loopingResponses : List (EventId × String) :=
  [(callEvent, "msg"), (messageEvent, "msg")]

/-- No event, branch or agent in particular. -/
def anyTarget : BranchResolutionTarget :=
  {
    targetEventId := none
    targetBranchId := none
    targetAgentId := none
  }

def plainKey (eventId : EventId) : EventKey :=
  {
    agentId := none
    branchId := none
    eventId := eventId
  }

/-- The identities of the response and of its results. -/
def loopingKeys : List EventKey :=
  [plainKey callEvent, plainKey messageEvent, plainKey firstResult, plainKey secondResult]

/-- The call and the message loop where only the events of the response are below them, by
induction on the links.
-/
theorem looping_of_links {index : Index}
    (found : index.events.lookup (plainKey callEvent) = some callRecord)
    (known : index.responses.lookup callEvent = some "msg")
    (wide : 2 ≤ (index.kids (plainKey callEvent)).length)
    (up : index.parentOf (plainKey messageEvent) = some (plainKey callEvent))
    (down : index.parentOf (plainKey callEvent) = some (plainKey messageEvent))
    (kids : ∀ eventKey ∈ loopingKeys, ∀ child ∈ index.kids eventKey, child ∈ loopingKeys)
    (passes : ∀ eventKey ∈ loopingKeys, index.passable "msg" eventKey = true)
    : index.Looping (plainKey callEvent) (plainKey messageEvent) where
  call := by
    refine ⟨callRecord, "msg", found, rfl, known, ?_⟩
    intro eventKey below
    apply passes
    induction below with
    | refl => decide +kernel
    | tail _ linked ih => exact kids _ ih _ (Index.mem_kids.mpr linked)
  wide := wide
  child := up
  back := .single down

theorem looping_spins : Spins loopingEvents anyTarget loopingResponses where
  unnamed := rfl
  forked := ⟨loopingEvents.drop 2, by decide +kernel, Nat.le_refl 2⟩
  looping :=
    ⟨plainKey callEvent, plainKey messageEvent,
      looping_of_links (by decide +kernel) (by decide +kernel) (by decide +kernel)
        (by decide +kernel) (by decide +kernel) (by decide +kernel) (by decide +kernel)⟩

/-- The events of the response that leads back to itself are never resolved. -/
theorem resolve_loops
    : ¬∃ fuel resolution,
        resolve fuel loopingEvents anyTarget loopingResponses = some resolution := by
  rintro ⟨fuel, resolution, returned⟩
  rw [resolve_endless looping_spins] at returned
  cases returned

end SkillRanker.Context
