import SkillRanker.Context.ToolAttribution

/-! The association of the events is the view of the attribution of their deliveries. -/

namespace SkillRanker.Context
open SkillRanker.Library

variable {event : NormalizedEvent} {entry : Option PendingCall} {state : AssociationState}
  {before : List NormalizedEvent} {attribution : Attribution}
  {seenEventIds : List (Scope × EventId)}

-- One cell of the tables

abbrev Cell := (Scope × ToolCallId) ⊕ (Scope × Option TurnId × String)

def CallKey.cell : CallKey → Cell
  | byCallId scope _ callId => .inl (scope, callId)
  | byName scope _ turnId toolName => .inr (scope, turnId, toolName)

theorem CallKey.eq_of_cell {left right : CallKey} (cell : left.cell = right.cell)
    (epoch : left.epoch = right.epoch)
    : left = right := by
  cases left <;> cases right <;> simp_all [CallKey.cell, CallKey.epoch]

def cellOf (event : NormalizedEvent) (tool : ToolEvent) : Cell :=
  match tool.callId with
  | some callId => .inl (event.scope, callId)
  | none => .inr (event.scope, event.turnId, tool.name)

theorem Delivery.key_cell (delivery : Delivery)
    : delivery.key.cell = cellOf delivery.event delivery.tool := by
  unfold key cellOf
  cases delivery.tool.callId <;> rfl

def Cell.isSequential : Cell → Bool
  | .inl _ => false
  | .inr _ => true

theorem CallKey.cell_isSequential (key : CallKey) : key.cell.isSequential = key.isSequential := by
  cases key <;> rfl

def AssociationState.cell (state : AssociationState) : Cell → Option PendingCall
  | .inl key => state.pendingByCallId key
  | .inr key => state.pendingByName key

def registerCell (entry : Option PendingCall) (index : Nat) (calls : List AssociatedToolCall)
    (sequential completed : Bool)
    : Option PendingCall × List AssociatedToolCall :=
  let next := if completed then .completed index else .waiting index
  match entry with
  | none => (some next, calls)
  | some (.completed previous) =>
      if sequential then (some next, calls)
      else (some .ambiguous, setUnknown index (setUnknown previous calls))
  | some (.waiting previous) =>
      (some .ambiguous, setUnknown index (setUnknown previous calls))
  | some .ambiguous => (some .ambiguous, setUnknown index calls)

theorem register_eq {Key : Type} [DecidableEq Key] (pending : Pending Key) (key : Key)
    (index : Nat) (calls : List AssociatedToolCall) (sequential completed : Bool)
    : register pending key index calls sequential completed
      = (Function.update pending key
            (registerCell (pending key) index calls sequential completed).1,
          (registerCell (pending key) index calls sequential completed).2) := by
  unfold register registerCell
  cases entry : pending key with
  | none => rfl
  | some call =>
      cases call with
      | waiting previous => rfl
      | completed previous => cases sequential <;> rfl
      | ambiguous =>
          dsimp only
          rw [← entry, Function.update_eq_self]

def takeCell (entry : Option PendingCall) (calls : List AssociatedToolCall)
    : (Option Nat × Bool) × Option PendingCall × List AssociatedToolCall :=
  match entry with
  | none => ((none, false), none, calls)
  | some (.waiting index) => ((some index, false), some (.completed index), calls)
  | some (.completed index) => ((none, true), some .ambiguous, setUnknown index calls)
  | some .ambiguous => ((none, true), some .ambiguous, calls)

theorem takePending_eq {Key : Type} [DecidableEq Key] (pending : Pending Key) (key : Key)
    (calls : List AssociatedToolCall)
    : takePending pending key calls
      = ((takeCell (pending key) calls).1,
          Function.update pending key (takeCell (pending key) calls).2.1,
          (takeCell (pending key) calls).2.2) := by
  unfold takePending takeCell
  cases entry : pending key with
  | none =>
      dsimp only
      rw [← entry, Function.update_eq_self]
  | some call =>
      cases call with
      | waiting index => rfl
      | completed index => rfl
      | ambiguous =>
          dsimp only
          rw [← entry, Function.update_eq_self]

/-- A call written to one table is written to its cell. -/
theorem AssociationState.cell_update (state : AssociationState)
    (associated : List AssociatedToolCall) (cell : Cell) (entry : Option PendingCall)
    : (match cell with
        | .inl key =>
            { state with
              associated := associated
              pendingByCallId := Function.update state.pendingByCallId key entry }
        | .inr key =>
            { state with
              associated := associated
              pendingByName := Function.update state.pendingByName key entry }).cell
      = Function.update state.cell cell entry := by
  funext other
  by_cases same : other = cell
  · subst same
    rw [Function.update_self]
    cases other with
    | inl key => exact Function.update_self _ _ _
    | inr key => exact Function.update_self _ _ _
  · rw [Function.update_of_ne same]
    rcases cell with key | key <;> rcases other with other | other
    · exact Function.update_of_ne (fun is => same (congrArg Sum.inl is)) _ _
    · rfl
    · rfl
    · exact Function.update_of_ne (fun is => same (congrArg Sum.inr is)) _ _

variable (summaries : Summaries)

theorem AssociationState.associate_invocation (state : AssociationState) (tool : ToolEvent)
    (kind : event.kind = .toolInvocation)
    : let after := state.associate summaries event tool
      let registered := registerCell (state.cell (cellOf event tool)) state.associated.length
        (state.associated ++ [openedCall summaries event tool true false tool.status])
        (cellOf event tool).isSequential tool.carriesOutcome
      after.associated = registered.2 ∧ after.seenEventIds = state.seenEventIds
        ∧ after.cell = Function.update state.cell (cellOf event tool) registered.1 := by
  unfold AssociationState.associate cellOf
  rw [kind]
  cases tool.callId with
  | some callId =>
      dsimp only
      rw [register_eq]
      exact ⟨rfl, rfl, state.cell_update _ (.inl (event.scope, callId)) _⟩
  | none =>
      dsimp only
      rw [register_eq]
      exact ⟨rfl, rfl, state.cell_update _ (.inr (event.scope, event.turnId, tool.name)) _⟩

/-- A result is joined with the call in its cell, or appended. -/
theorem AssociationState.associate_result (state : AssociationState) (tool : ToolEvent)
    (kind : event.kind = .toolResult)
    : let after := state.associate summaries event tool
      let found := takeCell (state.cell (cellOf event tool)) state.associated
      after.associated
          = (match found.1.1 with
            | some index => found.2.2.modify index (·.withResult summaries event tool)
            | none =>
                found.2.2 ++ [openedCall summaries event tool false true
                  (if found.1.2 then .unknown else tool.status)])
        ∧ after.seenEventIds = state.seenEventIds
        ∧ after.cell = Function.update state.cell (cellOf event tool) found.2.1 := by
  unfold AssociationState.associate cellOf
  rw [kind]
  cases tool.callId with
  | some callId =>
      dsimp only
      rw [takePending_eq]
      have cells := state.cell_update
        (takeCell (state.pendingByCallId (event.scope, callId)) state.associated).2.2
        (.inl (event.scope, callId))
        (takeCell (state.pendingByCallId (event.scope, callId)) state.associated).2.1
      dsimp only [AssociationState.cell] at cells ⊢
      cases (takeCell (state.pendingByCallId (event.scope, callId)) state.associated).1.1 with
      | some index => exact ⟨rfl, rfl, cells⟩
      | none => exact ⟨rfl, rfl, cells⟩
  | none =>
      dsimp only
      rw [takePending_eq]
      have cells := state.cell_update
        (takeCell (state.pendingByName (event.scope, event.turnId, tool.name))
          state.associated).2.2
        (.inr (event.scope, event.turnId, tool.name))
        (takeCell (state.pendingByName (event.scope, event.turnId, tool.name))
          state.associated).2.1
      dsimp only [AssociationState.cell] at cells ⊢
      cases (takeCell (state.pendingByName (event.scope, event.turnId, tool.name))
        state.associated).1.1 with
      | some index => exact ⟨rfl, rfl, cells⟩
      | none => exact ⟨rfl, rfl, cells⟩

-- Indices and positions

/-- An index and a position point to one call. -/
inductive Corresponds (positions : List Nat) : Option PendingCall → Option PendingCall → Prop
  | free : Corresponds positions none none
  | waiting {index position : Nat} (there : positions[index]? = some position)
    : Corresponds positions (some (.waiting index)) (some (.waiting position))
  | completed {index position : Nat} (there : positions[index]? = some position)
    : Corresponds positions (some (.completed index)) (some (.completed position))
  | ambiguous : Corresponds positions (some .ambiguous) (some .ambiguous)

theorem Corresponds.append {positions : List Nat} {other : Option PendingCall}
    (corresponds : Corresponds positions entry other) (more : List Nat)
    : Corresponds (positions ++ more) entry other := by
  have extend {index position : Nat} (there : positions[index]? = some position)
      : (positions ++ more)[index]? = some position := by
    obtain ⟨inside, _⟩ := List.getElem?_eq_some_iff.mp there
    rw [List.getElem?_append_left inside]
    exact there
  cases corresponds with
  | free => exact .free
  | waiting there => exact .waiting (extend there)
  | completed there => exact .completed (extend there)
  | ambiguous => exact .ambiguous

variable {calls : List ToolCall} {delivery : Delivery}

/-- The call at an index becomes unknown with the call at its position. -/
theorem setUnknown_view (distinct : (calls.map ToolCall.position).Nodup) {index position : Nat}
    (there : (calls.map ToolCall.position)[index]? = some position)
    : setUnknown index (calls.map (ToolCall.view summaries))
      = (changeAt ToolCall.position position ToolCall.unknown calls).map
          (ToolCall.view summaries) := by
  exact modify_map distinct there fun call _ _ => (call.view_unknown summaries).symm

/-- The places of the calls after an invocation. -/
theorem Attribution.invoke_positions (state : Attribution) (delivery : Delivery)
    : (state.invoke delivery).calls.map ToolCall.position
      = state.calls.map ToolCall.position ++ [delivery.position] := by
  have kept (position : Nat) (calls : List ToolCall)
      : (changeAt ToolCall.position position ToolCall.unknown calls).map ToolCall.position
        = calls.map ToolCall.position :=
    map_changeAt fun _ => rfl
  unfold Attribution.invoke collide
  dsimp only
  split
  · exact List.map_append
  · split
    · exact List.map_append
    · rw [kept, kept]
      exact List.map_append
  · rw [kept, kept]
    exact List.map_append
  · rw [kept]
    exact List.map_append

/-- An invocation touches its own key alone. -/
theorem Attribution.invoke_of_ne (state : Attribution) {key : CallKey}
    (different : key ≠ delivery.key)
    : (state.invoke delivery).pending key = state.pending key := by
  unfold Attribution.invoke
  dsimp only
  split
  · exact Function.update_of_ne different _ _
  · split <;> exact Function.update_of_ne different _ _
  · exact Function.update_of_ne different _ _
  · rfl

theorem registerCell_invoke {state : Attribution}
    (corresponds
      : Corresponds (state.calls.map ToolCall.position) entry (state.pending delivery.key))
    (distinct : (state.calls.map ToolCall.position ++ [delivery.position]).Nodup)
    : let registered := registerCell entry state.calls.length
        ((state.calls ++ [delivery.reported]).map (ToolCall.view summaries))
        delivery.key.isSequential delivery.tool.carriesOutcome
      registered.2 = (state.invoke delivery).calls.map (ToolCall.view summaries)
        ∧ Corresponds ((state.invoke delivery).calls.map ToolCall.position) registered.1
            ((state.invoke delivery).pending delivery.key) := by
  have positions : (state.calls ++ [delivery.reported]).map ToolCall.position
      = state.calls.map ToolCall.position ++ [delivery.position] := List.map_append
  have last
      : ((state.calls ++ [delivery.reported]).map ToolCall.position)[state.calls.length]?
        = some delivery.position := by
    rw [positions, List.getElem?_append_right (by simp)]
    simp
  have collided {index position : Nat}
      (there : (state.calls.map ToolCall.position)[index]? = some position)
      : setUnknown state.calls.length (setUnknown index
            ((state.calls ++ [delivery.reported]).map (ToolCall.view summaries)))
        = (collide position delivery.position (state.calls ++ [delivery.reported])).map
            (ToolCall.view summaries) := by
    have kept
        : (changeAt ToolCall.position position ToolCall.unknown
              (state.calls ++ [delivery.reported])).map ToolCall.position
          = (state.calls ++ [delivery.reported]).map ToolCall.position :=
      map_changeAt fun _ => rfl
    have before : ((state.calls ++ [delivery.reported]).map ToolCall.position)[index]?
        = some position := by
      obtain ⟨inside, _⟩ := List.getElem?_eq_some_iff.mp there
      rw [positions, List.getElem?_append_left inside]
      exact there
    rw [setUnknown_view summaries (positions ▸ distinct) before]
    exact setUnknown_view summaries (kept.symm ▸ positions ▸ distinct) (kept.symm ▸ last)
  have next
      : Corresponds (state.calls.map ToolCall.position ++ [delivery.position])
          (some (if delivery.tool.carriesOutcome then .completed state.calls.length
            else .waiting state.calls.length))
          (some delivery.pendingCall) := by
    rw [positions] at last
    unfold Delivery.pendingCall
    split
    · exact .completed last
    · exact .waiting last
  rw [Attribution.invoke_positions]
  unfold registerCell Attribution.invoke
  dsimp only
  generalize pending : state.pending delivery.key = other at corresponds
  cases corresponds with
  | free =>
      refine ⟨rfl, ?_⟩
      dsimp only
      rw [Function.update_self]
      exact next
  | waiting there =>
      refine ⟨collided there, ?_⟩
      dsimp only
      rw [Function.update_self]
      exact .ambiguous
  | completed there =>
      cases delivery.key.isSequential with
      | true =>
          refine ⟨rfl, ?_⟩
          dsimp only
          rw [if_pos rfl, if_pos rfl]
          dsimp only
          rw [Function.update_self]
          exact next
      | false =>
          refine ⟨collided there, ?_⟩
          dsimp only
          rw [if_neg Bool.false_ne_true, if_neg Bool.false_ne_true]
          dsimp only
          rw [Function.update_self]
          exact .ambiguous
  | ambiguous =>
      refine ⟨setUnknown_view summaries (positions ▸ distinct) last, ?_⟩
      dsimp only
      rw [pending]
      exact .ambiguous

/-- The places of the calls after a result. -/
theorem Attribution.answer_positions (state : Attribution) (delivery : Delivery)
    : ∃ more, (state.answer delivery).calls.map ToolCall.position
        = state.calls.map ToolCall.position ++ more := by
  unfold Attribution.answer
  dsimp only
  split
  · exact ⟨_, List.map_append⟩
  · refine ⟨[], ?_⟩
    rw [List.append_nil]
    exact map_changeAt fun _ => rfl
  · refine ⟨[delivery.position], ?_⟩
    exact List.map_append.trans (congrArg (· ++ [delivery.position]) (map_changeAt fun _ => rfl))
  · exact ⟨_, List.map_append⟩

/-- A result touches its own key alone. -/
theorem Attribution.answer_of_ne (state : Attribution) {key : CallKey}
    (different : key ≠ delivery.key)
    : (state.answer delivery).pending key = state.pending key := by
  unfold Attribution.answer
  dsimp only
  split
  · rfl
  · exact Function.update_of_ne different _ _
  · exact Function.update_of_ne different _ _
  · rfl

theorem takeCell_answer {state : Attribution} (result : delivery.event.kind = .toolResult)
    (corresponds
      : Corresponds (state.calls.map ToolCall.position) entry (state.pending delivery.key))
    (distinct : (state.calls.map ToolCall.position).Nodup)
    (alone
      : ∀ position, state.pending delivery.key = some (.waiting position)
          → ∀ call ∈ state.calls, call.position = position → call.joined = none)
    : let found := takeCell entry (state.calls.map (ToolCall.view summaries))
      (match found.1.1 with
          | some index =>
              found.2.2.modify index (·.withResult summaries delivery.event delivery.tool)
          | none =>
              found.2.2 ++ [openedCall summaries delivery.event delivery.tool false true
                (if found.1.2 then .unknown else delivery.tool.status)])
          = (state.answer delivery).calls.map (ToolCall.view summaries)
        ∧ Corresponds ((state.answer delivery).calls.map ToolCall.position) found.2.1
            ((state.answer delivery).pending delivery.key) := by
  obtain ⟨more, positions⟩ := state.answer_positions delivery
  have view : delivery.reported.view summaries
      = openedCall summaries delivery.event delivery.tool false true delivery.tool.status := by
    unfold ToolCall.view Delivery.reported
    simp [result]
  have unknownView : delivery.reported.unknown.view summaries
      = openedCall summaries delivery.event delivery.tool false true .unknown := by
    rw [ToolCall.view_unknown, view]
    rfl
  rw [positions]
  unfold takeCell Attribution.answer
  dsimp only
  generalize pending : state.pending delivery.key = other at corresponds alone
  cases corresponds with
  | free =>
      refine ⟨?_, ?_⟩
      · dsimp only
        rw [List.map_append, List.map_singleton, view]
        rfl
      · dsimp only
        rw [pending]
        exact .free
  | waiting there =>
      refine ⟨?_, ?_⟩
      · refine modify_map distinct there fun call mem same => ?_
        exact (call.view_join summaries (alone _ rfl call mem same) delivery).symm
      · dsimp only
        rw [Function.update_self]
        exact (Corresponds.completed there).append more
  | completed there =>
      refine ⟨?_, ?_⟩
      · dsimp only
        rw [setUnknown_view summaries distinct there, List.map_append, List.map_singleton,
          unknownView]
        rfl
      · dsimp only
        rw [Function.update_self]
        exact .ambiguous
  | ambiguous =>
      refine ⟨?_, ?_⟩
      · dsimp only
        rw [List.map_append, List.map_singleton, unknownView]
        rfl
      · dsimp only
        rw [pending]
        exact .ambiguous

-- The simulation

/-- The pass over some events, newest first, has gathered the calls of their deliveries. -/
structure Simulates (before : List NormalizedEvent) (state : AssociationState)
    (attribution : Attribution)
    : Prop where
  associated : state.associated = attribution.calls.map (ToolCall.view summaries)
  seen
    : ∀ scope eventId, (scope, eventId) ∈ state.seenEventIds
      ↔ ∃ event ∈ before, event.scope = scope ∧ event.eventId = some eventId
  cells
    : ∀ key : CallKey, key.epoch = compactionsOf key.scope before
      → Corresponds (attribution.calls.map ToolCall.position) (state.cell key.cell)
          (attribution.pending key)
  later
    : ∀ key : CallKey, compactionsOf key.scope before < key.epoch
      → attribution.pending key = none

def SeenIds (events : List NormalizedEvent) (seen : List (Scope × EventId)) : Prop :=
  ∀ scope eventId, (scope, eventId) ∈ seen
    ↔ ∃ event ∈ events, event.scope = scope ∧ event.eventId = some eventId

/-- The identifier of an event is known exactly if the event repeats one. -/
theorem Simulates.seen_iff (simulates : Simulates summaries before state attribution)
    {eventId : EventId} (identified : event.eventId = some eventId)
    : (event.scope, eventId) ∈ state.seenEventIds ↔ isRepeated before event = true := by
  rw [simulates.seen, isRepeated, identified, Option.isSome_some, Bool.true_and, List.any_eq_true]
  simp only [Bool.and_eq_true, decide_eq_true_eq]

theorem deliveriesOf_inOrder (before : List NormalizedEvent)
    : InOrder (deliveriesOf before)
      ∧ ∀ delivery ∈ deliveriesOf before, delivery.position < before.length := by
  induction before with
  | nil => exact ⟨.nil, fun _ mem => absurd mem List.not_mem_nil⟩
  | cons event before ih =>
      obtain ⟨ordered, placed⟩ := ih
      have kept (delivery : Delivery) (mem : delivery ∈ deliveriesOf before)
          : delivery.position < (event :: before).length :=
        Nat.lt_succ_of_lt (placed delivery mem)
      unfold deliveriesOf
      split
      · exact ⟨ordered, kept⟩
      · split
        · refine ⟨?_, fun delivery mem => ?_⟩
          · unfold InOrder
            rw [List.map_append, List.pairwise_append]
            refine ⟨ordered, List.pairwise_singleton _ _, fun position there last is => ?_⟩
            obtain ⟨delivery, mem, rfl⟩ := List.mem_map.mp there
            rw [List.mem_singleton.mp is]
            exact placed delivery mem
          · rcases List.mem_append.mp mem with earlier | last
            · exact kept delivery earlier
            · rw [List.mem_singleton.mp last]
              exact Nat.lt_succ_self _
        · exact ⟨ordered, kept⟩

/-- An event that opens no epoch leaves the epochs as they are. -/
theorem compactionsOf_cons_of_not (not : event.kind ≠ .compaction ∨ isRepeated before event = true)
    (scope : Scope)
    : compactionsOf scope (event :: before) = compactionsOf scope before := by
  rw [compactionsOf, if_neg, Nat.add_zero]
  rintro ⟨kind, _, fresh⟩
  rcases not with other | repeated
  · exact other kind
  · rw [fresh] at repeated
    cases repeated

/-- A first compaction starts the next epoch of its scope. -/
theorem compactionsOf_cons_compaction (kind : event.kind = .compaction)
    (fresh : isRepeated before event = false) (scope : Scope)
    : compactionsOf scope (event :: before)
      = compactionsOf scope before + if event.scope = scope then 1 else 0 := by
  rw [compactionsOf]
  by_cases own : event.scope = scope
  · rw [if_pos ⟨kind, own, fresh⟩, if_pos own]
  · rw [if_neg fun is => own is.2.1, if_neg own]

-- The calls that a delivery may come to

/-- No two calls have one position. -/
theorem Attribution.Accounts.positions_nodup (accounts : attribution.Accounts (deliveriesOf before))
    : (attribution.calls.map ToolCall.position).Nodup := by
  have distinct := Attributed.distinct accounts (deliveriesOf_inOrder before).1
  rwa [List.map_map] at distinct

/-- The position of the next event is none of those of the calls. -/
theorem Attribution.Accounts.positions_fresh (accounts : attribution.Accounts (deliveriesOf before))
    : (attribution.calls.map ToolCall.position ++ [before.length]).Nodup := by
  refine List.Nodup.append accounts.positions_nodup (List.nodup_singleton _) ?_
  intro position there last
  obtain ⟨call, mem, rfl⟩ := List.mem_map.mp there
  have below := (deliveriesOf_inOrder before).2 call.opening
    (Attributed.mem_given accounts (List.mem_map_of_mem (f := ToolCall.shape) mem))
  rw [List.mem_singleton] at last
  exact Nat.ne_of_lt below last

/-- A call whose key waits for its result has none. -/
theorem Attribution.Accounts.waiting_alone (accounts : attribution.Accounts (deliveriesOf before))
    {key : CallKey} {position : Nat} (waits : attribution.pending key = some (.waiting position))
    {call : ToolCall} (mem : call ∈ attribution.calls) (placed : call.position = position)
    : call.joined = none := by
  obtain ⟨opening, listed, is, _⟩ := Attributed.waiting accounts _ _ waits
  obtain ⟨other, otherMem, shape⟩ := List.mem_map.mp listed
  have opened : other.opening = opening := congrArg Prod.fst shape
  have joined : other.joined = none := congrArg Prod.snd shape
  have samePosition : call.position = other.position := by
    rw [placed, ← is, ← opened]
    rfl
  rw [List.inj_on_of_nodup_map accounts.positions_nodup mem otherMem samePosition]
  exact joined

def nextDelivery (before : List NormalizedEvent) (event : NormalizedEvent) (tool : ToolEvent)
    : Delivery where
  position := before.length
  epoch := compactionsOf event.scope before
  event := event
  tool := tool

section

variable (simulates : Simulates summaries before state attribution)
include simulates

/-- An event that the pass skips is none of the deliveries. -/
theorem Simulates.skip (not : event.kind ≠ .compaction ∨ isRepeated before event = true)
    (seen : SeenIds (event :: before) seenEventIds)
    : Simulates summaries (event :: before) { state with seenEventIds := seenEventIds }
        attribution where
  associated := simulates.associated
  seen := seen
  cells key epoch := by
    rw [compactionsOf_cons_of_not not] at epoch
    exact simulates.cells key epoch
  later key epoch := by
    rw [compactionsOf_cons_of_not not] at epoch
    exact simulates.later key epoch

/-- A compaction clears the cells of its scope, whose next keys are free. -/
theorem Simulates.compact (kind : event.kind = .compaction)
    (fresh : isRepeated before event = false) (seen : SeenIds (event :: before) seenEventIds)
    : Simulates summaries (event :: before)
        ({ state with seenEventIds := seenEventIds }.compact event.scope) attribution where
  associated := simulates.associated
  seen := seen
  cells key epoch := by
    rw [compactionsOf_cons_compaction kind fresh] at epoch
    have cleared
        : ({ state with seenEventIds := seenEventIds }.compact event.scope).cell key.cell
          = if key.scope = event.scope then none else state.cell key.cell := by
      cases key <;> rfl
    rw [cleared]
    by_cases own : event.scope = key.scope
    · rw [if_pos own] at epoch
      rw [if_pos own.symm, simulates.later key (by omega)]
      exact .free
    · rw [if_neg own] at epoch
      rw [if_neg (Ne.symm own)]
      exact simulates.cells key epoch
  later key epoch := by
    rw [compactionsOf_cons_compaction kind fresh] at epoch
    exact simulates.later key (Nat.lt_of_le_of_lt (Nat.le_add_right _ _) epoch)

omit simulates in
theorem CallKey.scope_of_cell {left right : CallKey} (cell : left.cell = right.cell)
    : left.scope = right.scope := by
  cases left <;> cases right <;> simp_all [CallKey.cell, CallKey.scope]

/-- Where one cell and its key change alike, the cells correspond to the keys. -/
theorem Simulates.update {current : CallKey}
    (epoch : current.epoch = compactionsOf current.scope before) {after : Attribution}
    {more : List Nat}
    (positions
      : after.calls.map ToolCall.position = attribution.calls.map ToolCall.position ++ more)
    (frame : ∀ key, key ≠ current → after.pending key = attribution.pending key)
    (corresponds
      : Corresponds (after.calls.map ToolCall.position) entry (after.pending current))
    : (∀ key : CallKey, key.epoch = compactionsOf key.scope before
        → Corresponds (after.calls.map ToolCall.position)
            (Function.update state.cell current.cell entry key.cell) (after.pending key))
      ∧ ∀ key : CallKey, compactionsOf key.scope before < key.epoch
        → after.pending key = none := by
  refine ⟨fun key keyEpoch => ?_, fun key late => ?_⟩
  · by_cases same : key = current
    · rw [same, Function.update_self]
      exact corresponds
    · have other : key.cell ≠ current.cell := by
        intro cell
        refine same (CallKey.eq_of_cell cell ?_)
        rw [keyEpoch, epoch, CallKey.scope_of_cell cell]
      rw [Function.update_of_ne other, frame key same, positions]
      exact (simulates.cells key keyEpoch).append more
  · rw [frame key fun same => ?_]
    · exact simulates.later key late
    · rw [same, epoch] at late
      exact Nat.lt_irrefl _ late

/-- A delivery that changes its own cell and key alike is simulated, whatever kind it is of. -/
theorem Simulates.delivered {tool : ToolEvent} (not : event.kind ≠ .compaction)
    (seen : SeenIds (event :: before) seenEventIds) {after : AssociationState} {next : Attribution}
    {more : List Nat} (associated : after.associated = next.calls.map (ToolCall.view summaries))
    (ids : after.seenEventIds = seenEventIds)
    (cells
      : after.cell
        = Function.update state.cell (nextDelivery before event tool).key.cell entry)
    (positions
      : next.calls.map ToolCall.position = attribution.calls.map ToolCall.position ++ more)
    (frame
      : ∀ key, key ≠ (nextDelivery before event tool).key
        → next.pending key = attribution.pending key)
    (corresponds
      : Corresponds (next.calls.map ToolCall.position) entry
          (next.pending (nextDelivery before event tool).key))
    : Simulates summaries (event :: before) after next := by
  have same (scope : Scope) : compactionsOf scope (event :: before) = compactionsOf scope before :=
    compactionsOf_cons_of_not (.inl not) scope
  have epoch : (nextDelivery before event tool).key.epoch
      = compactionsOf (nextDelivery before event tool).key.scope before := by
    rw [Delivery.key_epoch, Delivery.key_scope]
    rfl
  obtain ⟨all, late⟩ := simulates.update summaries epoch positions frame corresponds
  refine ⟨associated, ids ▸ seen, fun key keyEpoch => ?_, fun key keyEpoch => ?_⟩
  · rw [cells]
    exact all key (keyEpoch.trans (same _))
  · rw [same] at keyEpoch
    exact late key keyEpoch

theorem Simulates.current (tool : ToolEvent)
    : Corresponds (attribution.calls.map ToolCall.position) (state.cell (cellOf event tool))
        (attribution.pending (nextDelivery before event tool).key) := by
  have cell : (nextDelivery before event tool).key.cell = cellOf event tool := Delivery.key_cell _
  rw [← cell]
  refine simulates.cells _ ?_
  rw [Delivery.key_epoch, Delivery.key_scope]
  rfl

/-- An invocation opens a call, and its key waits for the result. -/
theorem Simulates.invoke (accounts : attribution.Accounts (deliveriesOf before)) {tool : ToolEvent}
    (invocation : event.kind = .toolInvocation) (seen : SeenIds (event :: before) seenEventIds)
    : Simulates summaries (event :: before)
        ({ state with seenEventIds := seenEventIds }.associate summaries event tool)
        (attribution.invoke (nextDelivery before event tool)) := by
  have cell : (nextDelivery before event tool).key.cell = cellOf event tool := Delivery.key_cell _
  have view : state.associated ++ [openedCall summaries event tool true false tool.status]
      = (attribution.calls ++ [(nextDelivery before event tool).reported]).map
          (ToolCall.view summaries) := by
    rw [simulates.associated, List.map_append, List.map_singleton]
    unfold ToolCall.view Delivery.reported
    simp [nextDelivery, invocation]
  obtain ⟨associated, ids, cells⟩ := AssociationState.associate_invocation summaries
    { state with seenEventIds := seenEventIds } tool invocation
  have fresh
      : (attribution.calls.map ToolCall.position
          ++ [(nextDelivery before event tool).position]).Nodup :=
    accounts.positions_fresh
  obtain ⟨calls, corresponds⟩ :=
    registerCell_invoke summaries (simulates.current summaries tool) fresh
  have length : state.associated.length = attribution.calls.length := by
    rw [simulates.associated, List.length_map]
  dsimp only at associated cells
  rw [view, length, ← cell, CallKey.cell_isSequential] at associated cells
  rw [← cell] at calls corresponds
  exact simulates.delivered summaries (by rw [invocation]; decide) seen (associated.trans calls)
    ids cells (attribution.invoke_positions _)
    (fun key different => attribution.invoke_of_ne different) corresponds

/-- A result joins the call that its key waits with, or is a call of its own. -/
theorem Simulates.answer (accounts : attribution.Accounts (deliveriesOf before)) {tool : ToolEvent}
    (result : event.kind = .toolResult) (seen : SeenIds (event :: before) seenEventIds)
    : Simulates summaries (event :: before)
        ({ state with seenEventIds := seenEventIds }.associate summaries event tool)
        (attribution.answer (nextDelivery before event tool)) := by
  have cell : (nextDelivery before event tool).key.cell = cellOf event tool := Delivery.key_cell _
  obtain ⟨associated, ids, cells⟩ := AssociationState.associate_result summaries
    { state with seenEventIds := seenEventIds } tool result
  obtain ⟨calls, corresponds⟩ := takeCell_answer summaries
    (show (nextDelivery before event tool).event.kind = .toolResult from result)
    (simulates.current summaries tool) accounts.positions_nodup
    (fun _ waits _ mem placed => accounts.waiting_alone waits mem placed)
  obtain ⟨more, positions⟩ := attribution.answer_positions (nextDelivery before event tool)
  dsimp only at associated cells
  rw [← cell] at associated cells calls corresponds
  rw [← simulates.associated] at calls corresponds
  exact simulates.delivered summaries (by rw [result]; decide) seen (associated.trans calls) ids
    cells positions (fun key different => attribution.answer_of_ne different) corresponds

/-- Any other event is a call of its own, and leaves every key as it is. -/
theorem Simulates.report {tool : ToolEvent} (not : event.kind ≠ .compaction)
    (notInvocation : event.kind ≠ .toolInvocation) (notResult : event.kind ≠ .toolResult)
    (seen : SeenIds (event :: before) seenEventIds)
    : Simulates summaries (event :: before)
        ({ state with seenEventIds := seenEventIds }.associate summaries event tool)
        { attribution with
          calls := attribution.calls ++ [(nextDelivery before event tool).reported] } := by
  have associate : ({ state with seenEventIds := seenEventIds }.associate summaries event tool)
      = { state with
          seenEventIds := seenEventIds
          associated :=
            state.associated ++ [openedCall summaries event tool true true tool.status] } := by
    unfold AssociationState.associate
    dsimp only
    split
    · next kind => exact absurd kind notInvocation
    · next kind => exact absurd kind notResult
    · rfl
  have current
      : Corresponds (attribution.calls.map ToolCall.position) (state.cell (cellOf event tool))
          (attribution.pending (nextDelivery before event tool).key) :=
    simulates.current summaries tool
  rw [associate]
  refine simulates.delivered summaries not seen ?_ rfl
    (Function.update_eq_self (nextDelivery before event tool).key.cell state.cell).symm
    List.map_append (fun _ _ => rfl) ?_
  · dsimp only
    rw [simulates.associated, List.map_append, List.map_singleton]
    unfold ToolCall.view Delivery.reported
    simp [nextDelivery, notInvocation, notResult]
  · dsimp only
    rw [List.map_append, Delivery.key_cell]
    exact current.append _

/-- A first tool event is attributed as its delivery, by its kind. -/
theorem Simulates.deliver (accounts : attribution.Accounts (deliveriesOf before)) {tool : ToolEvent}
    (not : event.kind ≠ .compaction) (seen : SeenIds (event :: before) seenEventIds)
    : Simulates summaries (event :: before)
        ({ state with seenEventIds := seenEventIds }.associate summaries event tool)
        (attribution.step (nextDelivery before event tool)) := by
  unfold Attribution.step
  split
  next invocation => exact simulates.invoke summaries accounts invocation seen
  next result => exact simulates.answer summaries accounts result seen
  next notInvocation notResult =>
    exact simulates.report summaries not notInvocation notResult seen

end

-- The pass

/-- A first event is passed on, and attributed if it is delivered. -/
theorem Simulates.advance
    (simulates : Simulates summaries before state (attributeAll (deliveriesOf before)))
    (fresh : isRepeated before event = false) (seen : SeenIds (event :: before) seenEventIds)
    : Simulates summaries (event :: before)
        (AssociationState.step.advance summaries event { state with seenEventIds := seenEventIds })
        (attributeAll (deliveriesOf (event :: before))) := by
  unfold AssociationState.step.advance
  rw [deliveriesOf]
  by_cases kind : event.kind = .compaction
  · rw [if_pos kind, if_pos (.inr kind)]
    exact simulates.compact summaries kind fresh seen
  · rw [if_neg kind, if_neg fun is => is.elim (fun repeated => by simp [fresh] at repeated) kind]
    cases event.tool with
    | none => exact simulates.skip summaries (.inl kind) seen
    | some tool =>
        rw [attributeAll_snoc]
        exact simulates.deliver summaries (attributeAll_accounts (deliveriesOf_inOrder before).1)
          kind seen

/-- Every pass over events, newest first, has gathered the calls of their deliveries, by induction on
the events.
-/
theorem simulates_all (before : List NormalizedEvent)
    : Simulates summaries before
        (before.foldr (fun event state => AssociationState.step summaries state event)
          AssociationState.start)
        (attributeAll (deliveriesOf before)) := by
  induction before with
  | nil =>
      exact {
        associated := rfl
        seen := fun scope eventId =>
          iff_of_false List.not_mem_nil fun ⟨_, mem, _⟩ => List.not_mem_nil mem
        cells := fun key _ => by cases key <;> exact .free
        later := fun _ _ => rfl }
  | cons event before ih =>
      rw [List.foldr_cons]
      generalize before.foldr (fun event state => AssociationState.step summaries state event)
        AssociationState.start = state at ih ⊢
      unfold AssociationState.step
      cases identified : event.eventId with
      | none =>
          refine ih.advance summaries (by simp [isRepeated, identified]) fun scope eventId => ?_
          rw [ih.seen]
          simp [identified]
      | some eventId =>
          have known := ih.seen_iff summaries identified
          by_cases repeated : (event.scope, eventId) ∈ state.seenEventIds
          · have again := known.mp repeated
            rw [deliveriesOf, if_pos (.inl again)]
            dsimp only
            rw [if_pos repeated]
            refine ih.skip summaries (.inr again) fun scope otherId => ?_
            rw [ih.seen]
            refine ⟨fun ⟨other, mem, is⟩ => ⟨other, List.mem_cons_of_mem _ mem, is⟩, ?_⟩
            rintro ⟨other, mem, rfl, same⟩
            rcases List.mem_cons.mp mem with rfl | mem
            · rw [← ih.seen]
              rw [identified] at same
              exact Option.some.inj same ▸ repeated
            · exact ⟨other, mem, rfl, same⟩
          · dsimp only
            rw [if_neg repeated]
            refine ih.advance summaries ?_ fun scope otherId => ?_
            · exact Bool.eq_false_iff.mpr fun again => repeated (known.mpr again)
            · rw [List.mem_cons, ih.seen, List.exists_mem_cons_iff, identified, Prod.mk.injEq,
                Option.some.injEq]
              refine or_congr_left ?_
              exact and_congr eq_comm eq_comm

theorem associateToolEvents_eq (events : List NormalizedEvent)
    : associateToolEvents summaries events
      = (attributeAll (deliveries events)).calls.map (ToolCall.view summaries) := by
  have simulates := simulates_all summaries events.reverse
  rw [List.foldr_reverse] at simulates
  exact simulates.associated

end SkillRanker.Context
