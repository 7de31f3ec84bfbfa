import SkillRanker.Context.LoadRecords
import SkillRanker.Context.ToolOutcomes

/-! No tool result is misattributed, except that a key with several invocations or results keeps a
success that its table never sees.
-/

namespace SkillRanker.Context
open SkillRanker.Library

variable {events : List NormalizedEvent} {delivery : Delivery}

-- Deliveries of events

/-- The event at a place is a tool event that comes there for the first time, in its epoch. -/
structure Delivery.IsOf (events : List NormalizedEvent) (delivery : Delivery) : Prop where
  here : events[delivery.position]? = some delivery.event
  tool : delivery.event.tool = some delivery.tool
  kind : delivery.event.kind ≠ .compaction
  first : isRepeated (events.take delivery.position) delivery.event = false
  epoch
    : delivery.epoch = compactionsOf delivery.event.scope (events.take delivery.position).reverse

theorem isRepeated_reverse (before : List NormalizedEvent) (event : NormalizedEvent)
    : isRepeated before.reverse event = isRepeated before event := by
  unfold isRepeated
  rw [List.any_reverse]

variable {event : NormalizedEvent}

theorem isRepeated_eq_true {before : List NormalizedEvent}
    : isRepeated before event = true
      ↔ ∃ identity, event.qualifiedId = some identity
        ∧ ∃ other ∈ before, other.qualifiedId = some identity := by
  unfold isRepeated NormalizedEvent.qualifiedId
  constructor
  · intro repeated
    simp only [Bool.and_eq_true, List.any_eq_true, decide_eq_true_eq] at repeated
    obtain ⟨identified, other, mem, scope, same⟩ := repeated
    obtain ⟨eventId, is⟩ := Option.isSome_iff_exists.mp identified
    refine ⟨(event.scope, eventId), by rw [is]; rfl, other, mem, ?_⟩
    rw [same, is, scope]
    rfl
  · rintro ⟨⟨scope, eventId⟩, own, other, mem, others⟩
    obtain ⟨_, is, pair⟩ := Option.map_eq_some_iff.mp own
    obtain ⟨_, otherIs, otherPair⟩ := Option.map_eq_some_iff.mp others
    cases pair
    obtain ⟨sameScope, sameId⟩ := Prod.mk.inj otherPair
    subst sameId
    simp only [Bool.and_eq_true, List.any_eq_true, decide_eq_true_eq]
    exact ⟨by rw [is]; rfl, other, mem, sameScope, by rw [otherIs, is]⟩

variable (events)

theorem deliveries_snoc (event : NormalizedEvent)
    : deliveries (events ++ [event])
      = deliveries events
        ++ if isRepeated events event = true ∨ event.kind = .compaction then []
          else event.tool.toList.map fun tool => {
            position := events.length
            epoch := compactionsOf event.scope events.reverse
            event := event
            tool := tool } := by
  unfold deliveries
  rw [List.reverse_append, List.reverse_singleton, List.singleton_append, deliveriesOf,
    isRepeated_reverse, List.length_reverse]
  split
  · rw [List.append_nil]
  · cases event.tool with
    | none => simp
    | some tool => simp

theorem deliveries_inOrder : InOrder (deliveries events) :=
  (deliveriesOf_inOrder events.reverse).1

variable {events}

theorem deliveries_position (mem : delivery ∈ deliveries events)
    : delivery.position < events.length := by
  have placed := (deliveriesOf_inOrder events.reverse).2 delivery mem
  rwa [List.length_reverse] at placed

/-- A delivery of some events is one of more of them. -/
theorem Delivery.isOf_snoc (placed : delivery.position < events.length)
    : delivery.IsOf (events ++ [event]) ↔ delivery.IsOf events := by
  have prior : (events ++ [event]).take delivery.position = events.take delivery.position :=
    List.take_append_of_le_length (Nat.le_of_lt placed)
  have same : (events ++ [event])[delivery.position]? = events[delivery.position]? :=
    List.getElem?_append_left placed
  constructor
  · intro is
    exact ⟨same ▸ is.here, is.tool, is.kind, prior ▸ is.first, prior ▸ is.epoch⟩
  · intro is
    exact ⟨same.trans is.here, is.tool, is.kind, prior.symm ▸ is.first, prior.symm ▸ is.epoch⟩

/-- The deliveries are the tool events that come for the first time, by induction from the last
event.
-/
theorem mem_deliveries
    : delivery ∈ deliveries events ↔ delivery.IsOf events := by
  induction events using List.reverseRecOn with
  | nil =>
      constructor
      · intro mem
        exact absurd mem List.not_mem_nil
      · intro is
        have here := is.here
        rw [List.getElem?_nil] at here
        cases here
  | append_singleton events event ih =>
      have whole : (events ++ [event]).take events.length = events := by simp
      rw [deliveries_snoc, List.mem_append]
      constructor
      · rintro (before | last)
        · exact (Delivery.isOf_snoc (deliveries_position before)).mpr (ih.mp before)
        · split at last
          · exact absurd last List.not_mem_nil
          · next opens =>
            obtain ⟨repeated, kind⟩ := not_or.mp opens
            obtain ⟨tool, given, rfl⟩ := List.mem_map.mp last
            have first := Bool.eq_false_iff.mpr repeated
            exact {
              here := by simp
              tool := by simpa using given
              kind := kind
              first := whole.symm ▸ first
              epoch := whole.symm ▸ rfl }
      · intro is
        by_cases placed : delivery.position < events.length
        · exact .inl (ih.mpr ((Delivery.isOf_snoc placed).mp is))
        · right
          have last : delivery.position = events.length := by
            have bound := (List.getElem?_eq_some_iff.mp is.here).1
            rw [List.length_append, List.length_singleton] at bound
            omega
          obtain ⟨here, tool, kind, first, epoch⟩ := is
          rw [last, List.getElem?_concat_length, Option.some.injEq] at here
          rw [last, whole, ← here] at first epoch
          rw [← here] at tool kind
          have opens : ¬ (isRepeated events event = true ∨ event.kind = .compaction) := by
            simp [first, kind]
          rw [if_neg opens, tool]
          refine List.mem_map.mpr ⟨delivery.tool, List.mem_singleton_self _, ?_⟩
          rw [← last, ← epoch, here]

theorem deliveries_once {left right : Delivery} (leftMem : left ∈ deliveries events)
    (rightMem : right ∈ deliveries events) {identity : Scope × EventId}
    (leftIs : left.event.qualifiedId = some identity)
    (rightIs : right.event.qualifiedId = some identity)
    : left = right := by
  -- the later of the two would be a redelivery of the earlier one
  have notLater {earlier later : Delivery} (earlierMem : earlier ∈ deliveries events)
      (laterMem : later ∈ deliveries events) (earlierIs : earlier.event.qualifiedId = some identity)
      (laterIs : later.event.qualifiedId = some identity)
      : ¬ earlier.position < later.position := by
    intro before
    have repeated : isRepeated (events.take later.position) later.event = true := by
      refine isRepeated_eq_true.mpr ⟨identity, laterIs, earlier.event, ?_, earlierIs⟩
      obtain ⟨bound, here⟩ := List.getElem?_eq_some_iff.mp (mem_deliveries.mp earlierMem).here
      exact List.mem_take_iff_getElem.mpr ⟨_, Nat.lt_min.mpr ⟨before, bound⟩, here⟩
    rw [(mem_deliveries.mp laterMem).first] at repeated
    cases repeated
  refine eq_of_position (deliveries_inOrder events) leftMem rightMem ?_
  exact Nat.le_antisymm (Nat.le_of_not_lt (notLater rightMem leftMem rightIs leftIs))
    (Nat.le_of_not_lt (notLater leftMem rightMem leftIs rightIs))

-- Conflicts

def Delivery.carriesInvocation (delivery : Delivery) : Bool := !delivery.isResult

def Delivery.carriesResult (delivery : Delivery) : Bool :=
  !delivery.isInvocation || delivery.tool.carriesOutcome

/-- A key has more than one invocation or more than one result. -/
def Conflicted (past : List Delivery) : Prop :=
  1 < (past.filter (·.carriesInvocation)).length ∨ 1 < (past.filter (·.carriesResult)).length

instance (past : List Delivery) : Decidable (Conflicted past) :=
  inferInstanceAs (Decidable (_ ∨ _))

/-- A success that a key keeps: a record that stands alone reports it, or the one invocation does while
no result comes after it, or the one result after the one invocation does.
-/
def KeepsSuccess (past : List Delivery) : Prop :=
  (∃ delivery ∈ past, standsAlone past delivery = true ∧ delivery.tool.status = .succeeded)
    ∨ ∃ invocation, invocations past = [invocation]
      ∧ (lateResults past = [] ∧ invocation.tool.status = .succeeded
        ∨ ∃ result, lateResults past = [result] ∧ invocation.tool.carriesOutcome = false
          ∧ result.tool.status = .succeeded)

variable (events)

theorem history_inOrder (key : CallKey)
    : InOrder (history (deliveries events) key) := by
  have ordered := deliveries_inOrder events
  unfold InOrder at ordered ⊢
  exact ordered.sublist (List.filter_sublist.map _)

theorem calls_distinct {given : List Delivery} (ordered : InOrder given)
    : ((attributeAll given).calls.map ToolCall.position).Nodup := by
  have distinct := (attributeAll_accounts ordered).distinct ordered
  rwa [List.map_map] at distinct

/-- Some call with a call id has succeeded exactly if its key keeps a success. -/
theorem keepsSuccess_iff (scope : Scope) (epoch : Nat) (callId : ToolCallId)
    : (∃ call ∈ callsOf (.byCallId scope epoch callId) (attributeAll (deliveries events)).calls,
          call.status = .succeeded)
      ↔ KeepsSuccess (history (deliveries events) (.byCallId scope epoch callId)) := by
  have ordered := history_inOrder events (.byCallId scope epoch callId)
  have identified : (CallKey.byCallId scope epoch callId).isSequential = false := rfl
  have settled := attributeAll_settled identified ordered
    fun delivery mem => by simpa using (List.mem_filter.mp mem).2
  rw [(attributeAll_history (deliveries_inOrder events) _).1]
  exact settled.succeeded_iff (calls_distinct ordered)

variable {events}

-- Attribution

def ToolCall.deliveries (call : ToolCall) : List Delivery := call.opening :: call.joined.toList

/-- No result is misattributed: the associated calls are made of the tool events that come for the
first time, each in exactly one of them; a result is joined only with an invocation of its own key, of
one scope and epoch; and no call of a conflicted call id succeeds or gives a record of a loaded skill.
-/
structure NeverMisattributed (summaries : Summaries) (events : List NormalizedEvent) : Prop where
  ofCalls
    : associateToolEvents summaries events
      = (attributeAll (deliveries events)).calls.map (ToolCall.view summaries)
  firstTime : ∀ delivery, delivery ∈ deliveries events ↔ delivery.IsOf events
  once
    : ∀ left ∈ deliveries events, ∀ right ∈ deliveries events, ∀ identity,
      left.event.qualifiedId = some identity → right.event.qualifiedId = some identity
        → left = right
  inOrder : InOrder (deliveries events)
  accounted
    : ((attributeAll (deliveries events)).calls.flatMap ToolCall.deliveries).Perm
        (deliveries events)
  joins
    : ∀ call ∈ (attributeAll (deliveries events)).calls, ∀ result, call.joined = some result
      → Joins call.opening result
  conflicts
    : ∀ scope epoch callId,
      Conflicted (history (deliveries events) (.byCallId scope epoch callId))
        → ∀ call ∈ (attributeAll (deliveries events)).calls,
          call.opening.key = .byCallId scope epoch callId
            → (call.view summaries).status ≠ .succeeded
              ∧ ∀ resolveTool activeBranch currentEpoch,
                loadedSkillRecord resolveTool activeBranch currentEpoch (call.view summaries)
                  = none

theorem ToolCall.view_status (summaries : Summaries) (call : ToolCall)
    : (call.view summaries).status = call.status := by
  unfold view
  cases call.joined <;> rfl

/-- No tool result is misattributed exactly if no conflicted call id keeps a success. -/
theorem neverMisattributed_iff (summaries : Summaries) (events : List NormalizedEvent)
    : NeverMisattributed summaries events
      ↔ ∀ scope epoch callId,
        Conflicted (history (deliveries events) (.byCallId scope epoch callId))
          → ¬ KeepsSuccess (history (deliveries events) (.byCallId scope epoch callId)) := by
  have ordered := deliveries_inOrder events
  have accounts := attributeAll_accounts ordered
  constructor
  · intro attributed scope epoch callId conflicted keeps
    obtain ⟨call, mem, succeeded⟩ := (keepsSuccess_iff events scope epoch callId).mpr keeps
    obtain ⟨listed, own⟩ := List.mem_filter.mp mem
    have unsuccessful :=
      (attributed.conflicts scope epoch callId conflicted call listed (by simpa using own)).1
    rw [ToolCall.view_status] at unsuccessful
    exact unsuccessful succeeded
  · intro unkept
    exact {
      ofCalls := associateToolEvents_eq summaries events
      firstTime := fun _ => mem_deliveries
      once := fun _ leftMem _ rightMem _ => deliveries_once leftMem rightMem
      inOrder := ordered
      accounted := by
        have accounted := accounts.accounted
        rwa [List.flatMap_map] at accounted
      joins := fun call mem result joined =>
        accounts.joins _ _ (List.mem_map.mpr ⟨call, mem, by rw [ToolCall.shape, joined]⟩)
      conflicts := fun scope epoch callId conflicted call mem own => by
        have unsuccessful : (call.view summaries).status ≠ .succeeded := by
          intro succeeded
          rw [ToolCall.view_status] at succeeded
          refine unkept scope epoch callId conflicted ?_
          refine (keepsSuccess_iff events scope epoch callId).mp ⟨call, ?_, succeeded⟩
          exact List.mem_filter.mpr ⟨mem, by simpa using own⟩
        exact ⟨unsuccessful, fun _ _ _ => loadedSkillRecord_eq_none _ _ _ unsuccessful⟩ }

def loadCall : ToolCallId := { text := "call-1", valid := by decide +kernel }

def orphanResult (eventId : EventId) : NormalizedEvent where
  eventId := some eventId
  parentId := none
  turnId := none
  agentId := none
  branchId := none
  role := .tool
  kind := .toolResult
  timestampUnixMs := none
  text := ""
  tool := some {
    callId := some loadCall
    name := "Skill"
    status := .succeeded
    arguments := none
    result := none }

theorem validId_e1 : validateId "e1" = .ok () := by decide +kernel

def twoResults : List NormalizedEvent :=
  [orphanResult { text := "e1", valid := validId_e1 },
    orphanResult { text := "e2", valid := by decide +kernel }]

/-- Both results of one call succeed, and both give a record of a loaded skill. -/
theorem twoResults_succeed
    : let summaries : Summaries := {
        summarizeToolArguments := id
        summarizeToolResult := fun result => (result, []) }
      let matched : SkillMatch := {
        skillId := "skill"
        usageKind := .reference
        sourceContent := none
        renderedContent := none
        hasDynamicArguments := false
        turnScoped := false }
      (associateToolEvents summaries twoResults).map (·.status) = [.succeeded, .succeeded]
        ∧ (extractLoadedSkillRecords summaries (fun _ _ => some matched) none (epochName 0)
            twoResults).length = 2
        ∧ Conflicted (history (deliveries twoResults) (.byCallId (none, none) 0 loadCall))
        ∧ ¬ NeverMisattributed summaries twoResults := by
  have conflicted
      : Conflicted (history (deliveries twoResults) (.byCallId (none, none) 0 loadCall)) := by
    decide
  refine ⟨by decide, by decide, conflicted, fun attributed => ?_⟩
  have only := attributed.conflicts (none, none) 0 loadCall conflicted
  exact (only _ List.mem_cons_self (by decide)).1 (by decide)

end SkillRanker.Context
