import SkillRanker.Context.ToolSimulation

/-! The outcomes of the calls of one key: which reports stand, and which conflicts make them unknown.
-/

namespace SkillRanker.Context
open SkillRanker.Library

section

-- The history of a key

def Delivery.isInvocation (delivery : Delivery) : Bool := delivery.event.kind = .toolInvocation

def Delivery.isResult (delivery : Delivery) : Bool := delivery.event.kind = .toolResult

/-- A record of another kind, which is an invocation with its result. -/
def Delivery.isDirect (delivery : Delivery) : Bool :=
  !delivery.isInvocation && !delivery.isResult

def history (given : List Delivery) (key : CallKey) : List Delivery :=
  given.filter (·.key = key)

def invocations (past : List Delivery) : List Delivery := past.filter (·.isInvocation)

/-- A delivery comes before every invocation. -/
def isEarly (past : List Delivery) (delivery : Delivery) : Bool :=
  (invocations past).all fun invocation => delivery.position < invocation.position

def lateResults (past : List Delivery) : List Delivery :=
  past.filter fun delivery => delivery.isResult && !isEarly past delivery

/-- A delivery whose report no later delivery changes: it is direct, or a result before every
invocation.
-/
def standsAlone (past : List Delivery) (delivery : Delivery) : Bool :=
  delivery.isDirect || delivery.isResult && isEarly past delivery

variable {past : List Delivery} {delivery : Delivery}

theorem invocations_snoc (past : List Delivery) (delivery : Delivery)
    : invocations (past ++ [delivery])
      = invocations past ++ if delivery.isInvocation then [delivery] else [] := by
  unfold invocations
  rw [List.filter_append]
  cases invocation : delivery.isInvocation <;> simp [invocation]

/-- A later delivery does not change what is early. -/
theorem isEarly_snoc {other : Delivery} (later : other.position < delivery.position)
    : isEarly (past ++ [delivery]) other = isEarly past other := by
  unfold isEarly
  rw [invocations_snoc, List.all_append]
  cases delivery.isInvocation <;> simp [later]

theorem isEarly_last (later : ∀ other ∈ past, other.position < delivery.position)
    : isEarly past delivery = true ↔ invocations past = [] := by
  unfold isEarly
  rw [List.all_eq_true]
  refine ⟨fun early => List.eq_nil_iff_forall_not_mem.mpr fun invocation mem => ?_, ?_⟩
  · have before := later invocation (List.mem_of_mem_filter mem)
    have after := of_decide_eq_true (early invocation mem)
    exact Nat.lt_asymm before after
  · intro none invocation mem
    rw [none] at mem
    cases mem

theorem standsAlone_snoc {other : Delivery} (later : other.position < delivery.position)
    : standsAlone (past ++ [delivery]) other = standsAlone past other := by
  unfold standsAlone
  rw [isEarly_snoc later]

theorem lateResults_snoc (later : ∀ other ∈ past, other.position < delivery.position)
    : lateResults (past ++ [delivery])
      = lateResults past
        ++ if delivery.isResult ∧ invocations past ≠ [] then [delivery] else [] := by
  unfold lateResults
  rw [List.filter_append]
  refine congrArg₂ _ (List.filter_congr fun other mem => ?_) ?_
  · rw [isEarly_snoc (later other mem)]
  · cases result : delivery.isResult with
    | false => simp [result]
    | true =>
        have notInvocation : delivery.isInvocation = false := by
          unfold Delivery.isInvocation
          unfold Delivery.isResult at result
          simp [of_decide_eq_true result]
        have last : isEarly (past ++ [delivery]) delivery = isEarly past delivery := by
          unfold isEarly
          rw [invocations_snoc, notInvocation]
          simp
        by_cases none : invocations past = []
        · have early := (isEarly_last later).mpr none
          simp [result, last, early, none]
        · have notEarly : isEarly past delivery = false :=
            Bool.eq_false_iff.mpr fun early => none ((isEarly_last later).mp early)
          simp [result, last, notEarly, none]

-- What a key has come to

/-- The key stands for several calls or results: it has several invocations, or its one invocation has
several results after it, or one besides its own.
-/
def Contested (past : List Delivery) : Prop :=
  2 ≤ (invocations past).length
    ∨ ∃ invocation, invocations past = [invocation]
      ∧ (2 ≤ (lateResults past).length
        ∨ invocation.tool.carriesOutcome = true ∧ lateResults past ≠ [])

/-- What stands under the key after its deliveries. -/
inductive Held (past : List Delivery) (calls : List ToolCall) : Option PendingCall → Prop
  | free (empty : invocations past = []) : Held past calls none
  | waiting {invocation : Delivery} (sole : invocations past = [invocation])
    (incomplete : invocation.tool.carriesOutcome = false) (unanswered : lateResults past = [])
    (listed : invocation.reported ∈ calls)
    : Held past calls (some (.waiting invocation.position))
  | combined {invocation : Delivery} (sole : invocations past = [invocation])
    (carried : invocation.tool.carriesOutcome = true) (unanswered : lateResults past = [])
    (listed : invocation.reported ∈ calls)
    : Held past calls (some (.completed invocation.position))
  | answered {invocation result : Delivery} (sole : invocations past = [invocation])
    (incomplete : invocation.tool.carriesOutcome = false) (only : lateResults past = [result])
    (listed : invocation.reported.join result ∈ calls)
    : Held past calls (some (.completed invocation.position))
  | ambiguous (contested : Contested past) : Held past calls (some .ambiguous)

/-- The calls of a key: what stands alone is reported, the call that the key points to is told by what
the key has come to, and every other call is unknown.
-/
structure Settled (past : List Delivery) (calls : List ToolCall) (entry : Option PendingCall)
    : Prop where
  reports : ∀ delivery ∈ past, standsAlone past delivery = true → delivery.reported ∈ calls
  stands
    : ∀ call ∈ calls,
      (call.opening ∈ past ∧ standsAlone past call.opening = true ∧ call = call.opening.reported)
      ∨ call.status = .unknown
      ∨ entry = some (.waiting call.position) ∨ entry = some (.completed call.position)
  held : Held past calls entry

theorem Delivery.of_isDirect (direct : delivery.isDirect = true)
    : delivery.isInvocation = false ∧ delivery.isResult = false := by
  unfold isDirect at direct
  simpa using direct

theorem Contested.snoc (contested : Contested past)
    (later : ∀ other ∈ past, other.position < delivery.position)
    : Contested (past ++ [delivery]) := by
  unfold Contested
  rw [invocations_snoc, lateResults_snoc later]
  rcases contested with several | ⟨invocation, sole, answers⟩
  · exact .inl (by rw [List.length_append]; omega)
  · cases another : delivery.isInvocation with
    | true =>
        left
        rw [sole]
        simp
    | false =>
        refine .inr ⟨invocation, by simp [sole], ?_⟩
        rcases answers with several | ⟨carried, answered⟩
        · exact .inl (by rw [List.length_append]; omega)
        · exact .inr ⟨carried, by simp [answered]⟩

variable {calls : List ToolCall} {entry : Option PendingCall}

/-- What a key has come to is kept by a delivery that is no invocation and no result of it. -/
theorem Held.snoc_direct (held : Held past calls entry) (direct : delivery.isDirect = true)
    (later : ∀ other ∈ past, other.position < delivery.position) (more : List ToolCall)
    : Held (past ++ [delivery]) (calls ++ more) entry := by
  obtain ⟨notInvocation, notResult⟩ := Delivery.of_isDirect direct
  have sameInvocations : invocations (past ++ [delivery]) = invocations past := by
    rw [invocations_snoc, notInvocation]
    simp
  have sameResults : lateResults (past ++ [delivery]) = lateResults past := by
    rw [lateResults_snoc later, notResult]
    simp
  cases held with
  | free empty => exact .free (sameInvocations.trans empty)
  | waiting sole incomplete unanswered listed =>
      exact .waiting (sameInvocations.trans sole) incomplete (sameResults.trans unanswered)
        (List.mem_append_left _ listed)
  | combined sole carried unanswered listed =>
      exact .combined (sameInvocations.trans sole) carried (sameResults.trans unanswered)
        (List.mem_append_left _ listed)
  | answered sole incomplete only listed =>
      exact .answered (sameInvocations.trans sole) incomplete (sameResults.trans only)
        (List.mem_append_left _ listed)
  | ambiguous contested => exact .ambiguous (contested.snoc later)

-- Steps

theorem eq_of_position (ordered : InOrder past) {left right : Delivery} (leftMem : left ∈ past)
    (rightMem : right ∈ past) (same : left.position = right.position)
    : left = right :=
  List.inj_on_of_nodup_map (List.Pairwise.imp Nat.ne_of_lt ordered) leftMem rightMem same

theorem position_ne_of_standsAlone (ordered : InOrder past) (mem : delivery ∈ past)
    (alone : standsAlone past delivery = true) {invocation : Delivery}
    (invoked : invocation ∈ invocations past)
    : delivery.position ≠ invocation.position := by
  intro same
  obtain ⟨listed, isInvocation⟩ := List.mem_filter.mp invoked
  rw [eq_of_position ordered mem listed same] at alone
  have notResult : invocation.isResult = false := by
    unfold Delivery.isResult
    rw [of_decide_eq_true isInvocation]
    rfl
  unfold standsAlone Delivery.isDirect at alone
  simp [isInvocation, notResult] at alone

theorem standsAlone_invocation (invocation : delivery.isInvocation = true)
    : standsAlone past delivery = false := by
  have notResult : delivery.isResult = false := by
    unfold Delivery.isResult
    rw [of_decide_eq_true invocation]
    rfl
  unfold standsAlone Delivery.isDirect
  simp [invocation, notResult]

theorem Delivery.not_isInvocation (result : delivery.isResult = true)
    : delivery.isInvocation = false := by
  unfold isInvocation
  rw [of_decide_eq_true result]
  rfl

/-- A last result stands alone exactly if there is no invocation. -/
theorem standsAlone_result (result : delivery.isResult = true)
    (later : ∀ other ∈ past, other.position < delivery.position)
    : standsAlone (past ++ [delivery]) delivery = true ↔ invocations past = [] := by
  have notInvocation := Delivery.not_isInvocation result
  have last : isEarly (past ++ [delivery]) delivery = isEarly past delivery := by
    unfold isEarly
    rw [invocations_snoc, notInvocation]
    simp
  rw [← isEarly_last later]
  unfold standsAlone Delivery.isDirect
  simp [result, last]

theorem lateResults_eq_nil (empty : invocations past = []) : lateResults past = [] := by
  unfold lateResults isEarly
  rw [empty]
  simp

variable {position : Nat}

/-- The call that the key points to is at the place of the one invocation. -/
theorem Held.position_of_pointing (held : Held past calls entry)
    (points : entry = some (.waiting position) ∨ entry = some (.completed position))
    : ∃ invocation, invocations past = [invocation] ∧ invocation.position = position := by
  cases held with
  | free empty => simp at points
  | waiting sole _ _ _ =>
      refine ⟨_, sole, ?_⟩
      simpa using points
  | combined sole _ _ _ =>
      refine ⟨_, sole, ?_⟩
      simpa using points
  | answered sole _ _ _ =>
      refine ⟨_, sole, ?_⟩
      simpa using points
  | ambiguous => simp at points

variable {calls : List ToolCall} {entry : Option PendingCall}

/-- A last report that stands alone is one more call. -/
theorem Settled.report (settled : Settled past calls entry)
    (later : ∀ other ∈ past, other.position < delivery.position)
    (alone : standsAlone (past ++ [delivery]) delivery = true)
    (held : Held (past ++ [delivery]) (calls ++ [delivery.reported]) entry)
    : Settled (past ++ [delivery]) (calls ++ [delivery.reported]) entry where
  reports other mem stands := by
    rcases List.mem_append.mp mem with before | last
    · rw [standsAlone_snoc (later other before)] at stands
      exact List.mem_append_left _ (settled.reports other before stands)
    · rw [List.mem_singleton.mp last]
      exact List.mem_append_right _ (List.mem_singleton_self _)
  stands call mem := by
    rcases List.mem_append.mp mem with before | last
    · rcases settled.stands call before with ⟨listed, stands, is⟩ | rest
      · refine .inl ⟨List.mem_append_left _ listed, ?_, is⟩
        rw [standsAlone_snoc (later _ listed)]
        exact stands
      · exact .inr rest
    · rw [List.mem_singleton.mp last]
      exact .inl ⟨List.mem_append_right _ (List.mem_singleton_self _), alone, rfl⟩
  held := held

/-- A last delivery that does not stand alone changes the calls at some places alone: where those
that stood alone remain, and what else is there is unknown or pointed to, the calls are settled.
-/
theorem Settled.change (settled : Settled past calls entry)
    (later : ∀ other ∈ past, other.position < delivery.position)
    (notAlone : standsAlone (past ++ [delivery]) delivery = false) {after : List ToolCall}
    {next : Option PendingCall}
    (remain
      : ∀ other ∈ past, standsAlone past other = true → other.reported ∈ calls
          → other.reported ∈ after)
    (come
      : ∀ call ∈ after, call.status = .unknown ∨ next = some (.waiting call.position)
          ∨ next = some (.completed call.position)
          ∨ call ∈ calls ∧ entry ≠ some (.waiting call.position)
            ∧ entry ≠ some (.completed call.position))
    (held : Held (past ++ [delivery]) after next)
    : Settled (past ++ [delivery]) after next where
  reports other mem stands := by
    rcases List.mem_append.mp mem with before | last
    · rw [standsAlone_snoc (later other before)] at stands
      exact remain other before stands (settled.reports other before stands)
    · rw [List.mem_singleton.mp last, notAlone] at stands
      cases stands
  stands call mem := by
    rcases come call mem with unknown | waiting | completed | ⟨before, notWaiting, notCompleted⟩
    · exact .inr (.inl unknown)
    · exact .inr (.inr (.inl waiting))
    · exact .inr (.inr (.inr completed))
    · rcases settled.stands call before with ⟨listed, stands, is⟩ | unknown | waiting | completed
      · refine .inl ⟨List.mem_append_left _ listed, ?_, is⟩
        rw [standsAlone_snoc (later _ listed)]
        exact stands
      · exact .inr (.inl unknown)
      · exact absurd waiting notWaiting
      · exact absurd completed notCompleted
  held := held

/-- A second result makes the call and itself unknown. -/
theorem Settled.contest (settled : Settled past calls (some (.completed position)))
    (ordered : InOrder past) (later : ∀ other ∈ past, other.position < delivery.position)
    (notAlone : standsAlone (past ++ [delivery]) delivery = false)
    (contested : Contested (past ++ [delivery]))
    : Settled (past ++ [delivery])
        (changeAt ToolCall.position position ToolCall.unknown calls
          ++ [delivery.reported.unknown])
        (some .ambiguous) := by
  obtain ⟨invocation, sole, rfl⟩ := settled.held.position_of_pointing (.inr rfl)
  refine settled.change later notAlone ?_ ?_ (.ambiguous contested)
  · intro other mem stands reported
    have apart := position_ne_of_standsAlone ordered mem stands
      (sole ▸ List.mem_singleton_self invocation)
    exact List.mem_append_left _ (mem_changeAt.mpr (.inr ⟨reported, apart⟩))
  · intro call mem
    rcases List.mem_append.mp mem with changed | last
    · rcases mem_changeAt.mp changed with ⟨other, _, _, rfl⟩ | ⟨before, different⟩
      · exact .inl rfl
      · refine .inr (.inr (.inr ⟨before, nofun, ?_⟩))
        simpa using Ne.symm different
    · rw [List.mem_singleton.mp last]
      exact .inl rfl

variable {state : Attribution}

/-- A last result settles the calls of its key. -/
theorem Settled.answer (ordered : InOrder past)
    (later : ∀ other ∈ past, other.position < delivery.position) (result : delivery.isResult = true)
    (settled : Settled past state.calls (state.pending delivery.key))
    : Settled (past ++ [delivery]) (state.answer delivery).calls
        ((state.answer delivery).pending delivery.key) := by
  have notInvocation := Delivery.not_isInvocation result
  have sameInvocations : invocations (past ++ [delivery]) = invocations past := by
    rw [invocations_snoc, notInvocation]
    simp
  have alone := standsAlone_result result later
  have moreResults (invoked : invocations past ≠ [])
      : lateResults (past ++ [delivery]) = lateResults past ++ [delivery] := by
    rw [lateResults_snoc later, if_pos ⟨result, invoked⟩]
  have notAlone {invocation : Delivery} (sole : invocations past = [invocation])
      : standsAlone (past ++ [delivery]) delivery = false := by
    refine Bool.eq_false_iff.mpr fun stands => ?_
    rw [alone.mp stands] at sole
    cases sole
  have contestedNotAlone (contested : Contested past)
      : standsAlone (past ++ [delivery]) delivery = false := by
    refine Bool.eq_false_iff.mpr fun stands => ?_
    unfold Contested at contested
    rw [alone.mp stands] at contested
    simp at contested
  unfold Attribution.answer
  dsimp only
  generalize pending : state.pending delivery.key = entry at settled
  cases held : settled.held with
  | free empty =>
      dsimp only
      rw [pending]
      exact settled.report later (alone.mpr empty) (.free (sameInvocations.trans empty))
  | @waiting invocation sole incomplete unanswered listed =>
      dsimp only
      rw [Function.update_self]
      refine settled.change later (notAlone sole) ?_ ?_ ?_
      · intro other mem stands reported
        have apart := position_ne_of_standsAlone ordered mem stands
          (sole ▸ List.mem_singleton_self invocation)
        exact mem_changeAt.mpr (.inr ⟨reported, apart⟩)
      · intro call mem
        rcases mem_changeAt.mp mem with ⟨other, _, same, rfl⟩ | ⟨before, different⟩
        · exact .inr (.inr (.inl (by rw [← same]; rfl)))
        · refine .inr (.inr (.inr ⟨before, ?_, nofun⟩))
          simpa using Ne.symm different
      · have only : lateResults (past ++ [delivery]) = [delivery] := by
          rw [moreResults (by simp [sole]), unanswered]
          rfl
        exact .answered (sameInvocations.trans sole) incomplete only
          (mem_changeAt.mpr (.inl ⟨_, listed, rfl, rfl⟩))
  | @combined invocation sole carried unanswered listed =>
      dsimp only
      rw [Function.update_self]
      refine settled.contest ordered later (notAlone sole)
        (.inr ⟨invocation, sameInvocations.trans sole, .inr ⟨carried, ?_⟩⟩)
      rw [moreResults (by simp [sole])]
      simp
  | @answered invocation first sole incomplete only listed =>
      dsimp only
      rw [Function.update_self]
      refine settled.contest ordered later (notAlone sole)
        (.inr ⟨invocation, sameInvocations.trans sole, .inl ?_⟩)
      rw [moreResults (by simp [sole]), only]
      simp
  | ambiguous contested =>
      dsimp only
      rw [pending]
      refine settled.change later (contestedNotAlone contested) ?_ ?_
        (.ambiguous (contested.snoc later))
      · intro other _ _ reported
        exact List.mem_append_left _ reported
      · intro call mem
        rcases List.mem_append.mp mem with before | last
        · exact .inr (.inr (.inr ⟨before, nofun, nofun⟩))
        · rw [List.mem_singleton.mp last]
          exact .inl rfl

/-- Two calls of one key make each other unknown. -/
theorem Settled.collide (ordered : InOrder past) (settled : Settled past calls entry)
    (points : entry = some (.waiting position) ∨ entry = some (.completed position))
    (later : ∀ other ∈ past, other.position < delivery.position)
    (invocation : delivery.isInvocation = true)
    : Settled (past ++ [delivery])
        (collide position delivery.position (calls ++ [delivery.reported]))
        (some .ambiguous) := by
  obtain ⟨first, sole, rfl⟩ := settled.held.position_of_pointing points
  have contested : Contested (past ++ [delivery]) := by
    left
    rw [invocations_snoc, sole, invocation]
    simp
  refine settled.change later (standsAlone_invocation invocation) ?_ ?_ (.ambiguous contested)
  · intro other mem stands reported
    have apart := position_ne_of_standsAlone ordered mem stands
      (sole ▸ List.mem_singleton_self first)
    refine mem_changeAt.mpr (.inr ⟨mem_changeAt.mpr (.inr ⟨?_, apart⟩), ?_⟩)
    · exact List.mem_append_left _ reported
    · exact Nat.ne_of_lt (later other mem)
  · intro call mem
    rcases mem_changeAt.mp mem with ⟨other, _, _, rfl⟩ | ⟨mem, notLast⟩
    · exact .inl rfl
    · rcases mem_changeAt.mp mem with ⟨other, _, _, rfl⟩ | ⟨mem, notFirst⟩
      · exact .inl rfl
      · rcases List.mem_append.mp mem with before | last
        · refine .inr (.inr (.inr ⟨before, fun is => ?_, fun is => ?_⟩))
          · rcases points with rfl | rfl
            · exact notFirst (PendingCall.waiting.inj (Option.some.inj is)).symm
            · cases is
          · rcases points with rfl | rfl
            · cases is
            · exact notFirst (PendingCall.completed.inj (Option.some.inj is)).symm
        · rw [List.mem_singleton.mp last] at notLast
          exact absurd rfl notLast

/-- A last invocation settles the calls of its key. -/
theorem Settled.invoke (ordered : InOrder past)
    (later : ∀ other ∈ past, other.position < delivery.position)
    (invocation : delivery.isInvocation = true) (identified : delivery.key.isSequential = false)
    (settled : Settled past state.calls (state.pending delivery.key))
    : Settled (past ++ [delivery]) (state.invoke delivery).calls
        ((state.invoke delivery).pending delivery.key) := by
  have notAlone : standsAlone (past ++ [delivery]) delivery = false :=
    standsAlone_invocation invocation
  unfold Attribution.invoke
  dsimp only
  generalize pending : state.pending delivery.key = entry at settled
  cases held : settled.held with
  | free empty =>
      have sole : invocations (past ++ [delivery]) = [delivery] := by
        rw [invocations_snoc, empty, invocation]
        rfl
      have unanswered : lateResults (past ++ [delivery]) = [] := by
        rw [lateResults_snoc later, lateResults_eq_nil empty, empty]
        simp
      have listed : delivery.reported ∈ state.calls ++ [delivery.reported] :=
        List.mem_append_right _ (List.mem_singleton_self _)
      dsimp only
      rw [Function.update_self]
      refine settled.change later notAlone ?_ ?_ ?_
      · intro other _ _ reported
        exact List.mem_append_left _ reported
      · intro call mem
        rcases List.mem_append.mp mem with before | last
        · exact .inr (.inr (.inr ⟨before, nofun, nofun⟩))
        · rw [List.mem_singleton.mp last]
          unfold Delivery.pendingCall
          split
          · exact .inr (.inr (.inl rfl))
          · exact .inr (.inl rfl)
      · unfold Delivery.pendingCall
        split
        · next carried => exact .combined sole carried unanswered listed
        · next incomplete => exact .waiting sole (Bool.eq_false_iff.mpr incomplete) unanswered listed
  | waiting _ _ _ _ =>
      dsimp only
      rw [Function.update_self]
      exact settled.collide ordered (.inl rfl) later invocation
  | combined _ _ _ _ =>
      dsimp only
      rw [identified, if_neg Bool.false_ne_true]
      dsimp only
      rw [Function.update_self]
      exact settled.collide ordered (.inr rfl) later invocation
  | answered _ _ _ _ =>
      dsimp only
      rw [identified, if_neg Bool.false_ne_true]
      dsimp only
      rw [Function.update_self]
      exact settled.collide ordered (.inr rfl) later invocation
  | ambiguous contested =>
      dsimp only
      rw [pending]
      refine settled.change later notAlone ?_ ?_ (.ambiguous (contested.snoc later))
      · intro other mem _ reported
        refine mem_changeAt.mpr (.inr ⟨List.mem_append_left _ reported, ?_⟩)
        exact Nat.ne_of_lt (later other mem)
      · intro call mem
        rcases mem_changeAt.mp mem with ⟨other, _, _, rfl⟩ | ⟨mem, different⟩
        · exact .inl rfl
        · rcases List.mem_append.mp mem with before | last
          · exact .inr (.inr (.inr ⟨before, nofun, nofun⟩))
          · rw [List.mem_singleton.mp last] at different
            exact absurd rfl different

/-- A last delivery settles the calls of its key. -/
theorem Settled.step (ordered : InOrder past)
    (later : ∀ other ∈ past, other.position < delivery.position)
    (identified : delivery.key.isSequential = false)
    (settled : Settled past state.calls (state.pending delivery.key))
    : Settled (past ++ [delivery]) (state.step delivery).calls
        ((state.step delivery).pending delivery.key) := by
  unfold Attribution.step
  split
  · next kind => exact settled.invoke ordered later (decide_eq_true kind) identified
  · next kind => exact settled.answer ordered later (decide_eq_true kind)
  · next notInvocation notResult =>
    have direct : delivery.isDirect = true := by
      unfold Delivery.isDirect Delivery.isInvocation Delivery.isResult
      rw [decide_eq_false notInvocation, decide_eq_false notResult]
      rfl
    have alone : standsAlone (past ++ [delivery]) delivery = true := by
      unfold standsAlone
      rw [direct, Bool.true_or]
    exact settled.report later alone (settled.held.snoc_direct direct later _)

-- Runs

/-- The calls of one key are settled, by induction from the last delivery. -/
theorem attributeAll_settled {key : CallKey} (identified : key.isSequential = false)
    (ordered : InOrder past) (own : ∀ delivery ∈ past, delivery.key = key)
    : Settled past (attributeAll past).calls ((attributeAll past).pending key) := by
  induction past using List.reverseRecOn with
  | nil =>
      exact {
        reports := fun _ mem => absurd mem List.not_mem_nil
        stands := fun _ mem => absurd mem List.not_mem_nil
        held := .free rfl }
  | append_singleton before delivery ih =>
      obtain ⟨beforeOrdered, later⟩ := ordered.snoc
      have sameKey : delivery.key = key := own delivery (by simp)
      have settled := ih beforeOrdered fun other mem => own other (List.mem_append_left _ mem)
      rw [attributeAll_snoc]
      rw [← sameKey] at settled identified ⊢
      exact settled.step beforeOrdered later identified

/-- Some call of a key has succeeded exactly if a report of success stands alone, or the one invocation
of the key reports success or is joined with the one result that does.
-/
theorem Settled.succeeded_iff (settled : Settled past calls entry)
    (distinct : (calls.map ToolCall.position).Nodup)
    : (∃ call ∈ calls, call.status = .succeeded)
      ↔ (∃ delivery ∈ past, standsAlone past delivery = true ∧ delivery.tool.status = .succeeded)
        ∨ ∃ invocation, invocations past = [invocation]
          ∧ (lateResults past = [] ∧ invocation.tool.status = .succeeded
            ∨ ∃ result, lateResults past = [result] ∧ invocation.tool.carriesOutcome = false
              ∧ result.tool.status = .succeeded) := by
  have sameCall {left right : ToolCall} (leftMem : left ∈ calls) (rightMem : right ∈ calls)
      (same : left.position = right.position)
      : left = right :=
    List.inj_on_of_nodup_map distinct leftMem rightMem same
  refine ⟨?_, ?_⟩
  · rintro ⟨call, mem, succeeded⟩
    rcases settled.stands call mem with ⟨listed, stands, is⟩ | unknown | points
    · rw [is] at succeeded
      exact .inl ⟨call.opening, listed, stands, succeeded⟩
    · rw [unknown] at succeeded
      cases succeeded
    · right
      cases settled.held with
      | free _ => simp at points
      | @waiting invocation sole incomplete unanswered listed =>
          have placed : invocation.position = call.position := by simpa using points
          rw [← sameCall listed mem placed] at succeeded
          exact ⟨invocation, sole, .inl ⟨unanswered, succeeded⟩⟩
      | @combined invocation sole carried unanswered listed =>
          have placed : invocation.position = call.position := by simpa using points
          rw [← sameCall listed mem placed] at succeeded
          exact ⟨invocation, sole, .inl ⟨unanswered, succeeded⟩⟩
      | @answered invocation result sole incomplete only listed =>
          have placed : invocation.position = call.position := by simpa using points
          rw [← sameCall listed mem placed] at succeeded
          exact ⟨invocation, sole, .inr ⟨result, only, incomplete, succeeded⟩⟩
      | ambiguous _ => simp at points
  · rintro (⟨delivery, mem, stands, succeeded⟩ | ⟨invocation, sole, outcome⟩)
    · exact ⟨delivery.reported, settled.reports delivery mem stands, succeeded⟩
    · cases settled.held with
      | free empty =>
          rw [empty] at sole
          cases sole
      | @waiting first only incomplete unanswered listed =>
          obtain rfl : first = invocation := by simpa using only.symm.trans sole
          rcases outcome with ⟨_, succeeded⟩ | ⟨result, answered, _⟩
          · exact ⟨_, listed, succeeded⟩
          · rw [unanswered] at answered
            cases answered
      | @combined first only carried unanswered listed =>
          obtain rfl : first = invocation := by simpa using only.symm.trans sole
          rcases outcome with ⟨_, succeeded⟩ | ⟨result, answered, _⟩
          · exact ⟨_, listed, succeeded⟩
          · rw [unanswered] at answered
            cases answered
      | @answered first answer only incomplete onlyAnswer listed =>
          rcases outcome with ⟨unanswered, _⟩ | ⟨result, answered, _, succeeded⟩
          · rw [unanswered] at onlyAnswer
            cases onlyAnswer
          · obtain rfl : answer = result := by simpa using onlyAnswer.symm.trans answered
            exact ⟨_, listed, succeeded⟩
      | ambiguous contested =>
          unfold Contested at contested
          rw [sole] at contested
          rcases contested with several | ⟨first, is, more⟩
          · simp at several
          · obtain rfl : invocation = first := by simpa using is
            rcases outcome with ⟨unanswered, _⟩ | ⟨result, answered, incomplete, _⟩
            · simp [unanswered] at more
            · simp [answered, incomplete] at more

end

-- The calls of a key come from the deliveries of that key alone

variable {given : List Delivery} {delivery : Delivery} {key : CallKey}

def callsOf (key : CallKey) (calls : List ToolCall) : List ToolCall :=
  calls.filter (·.opening.key = key)

theorem callsOf_append (key : CallKey) (calls more : List ToolCall)
    : callsOf key (calls ++ more) = callsOf key calls ++ callsOf key more :=
  List.filter_append _ _

theorem callsOf_changeAt {position : Nat} (change : ToolCall → ToolCall)
    (keeps : ∀ call, (change call).opening = call.opening) (calls : List ToolCall)
    : callsOf key (changeAt ToolCall.position position change calls)
      = changeAt ToolCall.position position change (callsOf key calls) :=
  filter_changeAt fun call => by rw [keeps]

theorem callsOf_unknown (position : Nat) (calls : List ToolCall)
    : callsOf key (changeAt ToolCall.position position ToolCall.unknown calls)
      = changeAt ToolCall.position position ToolCall.unknown (callsOf key calls) :=
  callsOf_changeAt ToolCall.unknown (fun _ => rfl) calls

theorem callsOf_join (position : Nat) (result : Delivery) (calls : List ToolCall)
    : callsOf key (changeAt ToolCall.position position (ToolCall.join result) calls)
      = changeAt ToolCall.position position (ToolCall.join result) (callsOf key calls) :=
  callsOf_changeAt (ToolCall.join result) (fun _ => rfl) calls

theorem callsOf_collide (previous next : Nat) (calls : List ToolCall)
    : callsOf key (collide previous next calls) = collide previous next (callsOf key calls) := by
  unfold collide
  rw [callsOf_unknown, callsOf_unknown]

variable {state : Attribution}

/-- A delivery of the key changes the calls of the key as if there were no others. -/
theorem Attribution.step_local {alone : Attribution}
    (calls : callsOf delivery.key state.calls = alone.calls)
    (pending : state.pending delivery.key = alone.pending delivery.key)
    : callsOf delivery.key (state.step delivery).calls = (alone.step delivery).calls
      ∧ (state.step delivery).pending delivery.key
        = (alone.step delivery).pending delivery.key := by
  have own (call : ToolCall) (opened : call.opening = delivery)
      : callsOf delivery.key [call] = [call] := by
    unfold callsOf
    simp [opened]
  have reported := own delivery.reported rfl
  have unknown := own delivery.reported.unknown rfl
  have written (entry : Option PendingCall)
      : Function.update state.pending delivery.key entry delivery.key
        = Function.update alone.pending delivery.key entry delivery.key := by
    rw [Function.update_self, Function.update_self]
  unfold Attribution.step
  split
  · unfold Attribution.invoke
    dsimp only
    rw [← pending]
    split
    · refine ⟨?_, written _⟩
      rw [callsOf_append, calls, reported]
    · split
      · refine ⟨?_, written _⟩
        rw [callsOf_append, calls, reported]
      · refine ⟨?_, written _⟩
        rw [callsOf_collide, callsOf_append, calls, reported]
    · refine ⟨?_, written _⟩
      rw [callsOf_collide, callsOf_append, calls, reported]
    · refine ⟨?_, pending⟩
      rw [callsOf_unknown, callsOf_append, calls, reported]
  · unfold Attribution.answer
    dsimp only
    rw [← pending]
    split
    · refine ⟨?_, pending⟩
      rw [callsOf_append, calls, reported]
    · refine ⟨?_, written _⟩
      rw [callsOf_join, calls]
    · refine ⟨?_, written _⟩
      rw [callsOf_append, callsOf_unknown, calls, unknown]
    · refine ⟨?_, pending⟩
      rw [callsOf_append, calls, unknown]
  · refine ⟨?_, pending⟩
    rw [callsOf_append, calls, reported]

/-- A delivery of another key changes no call of a key. -/
theorem Attribution.step_foreign (accounts : state.Accounts given) (ordered : InOrder given)
    (later : ∀ other ∈ given, other.position < delivery.position) (different : key ≠ delivery.key)
    : callsOf key (state.step delivery).calls = callsOf key state.calls
      ∧ (state.step delivery).pending key = state.pending key := by
  have attributed : Attributed given (state.calls.map ToolCall.shape) state.pending := accounts
  have distinct := attributed.distinct ordered
  rw [List.map_map] at distinct
  have foreign (call : ToolCall) (opened : call.opening = delivery) : callsOf key [call] = [] := by
    unfold callsOf
    simp [opened, Ne.symm different]
  have reported := foreign delivery.reported rfl
  have unknown := foreign delivery.reported.unknown rfl
  have elsewhere {position : Nat}
      (pointed
        : ∃ opening joined, (opening, joined) ∈ state.calls.map ToolCall.shape
            ∧ opening.position = position ∧ opening.key = delivery.key)
      : position ∉ (callsOf key state.calls).map ToolCall.position := by
    obtain ⟨opening, joined, listed, placed, own⟩ := pointed
    intro there
    obtain ⟨call, mem, same⟩ := List.mem_map.mp there
    obtain ⟨inCalls, ofKey⟩ := List.mem_filter.mp mem
    obtain ⟨other, otherMem, shape⟩ := List.mem_map.mp listed
    have opened : other.opening = opening := congrArg Prod.fst shape
    have samePosition : call.position = other.position := by
      rw [same, ← placed, ← opened]
      rfl
    rw [List.inj_on_of_nodup_map distinct inCalls otherMem samePosition, opened, own] at ofKey
    exact different (of_decide_eq_true ofKey).symm
  have last : delivery.position ∉ (callsOf key state.calls).map ToolCall.position := by
    intro there
    obtain ⟨call, mem, same⟩ := List.mem_map.mp there
    have below := later call.opening
      (attributed.mem_given (List.mem_map_of_mem (f := ToolCall.shape) (List.mem_of_mem_filter mem)))
    exact Nat.ne_of_lt below same
  have waiting {position : Nat}
      (points : state.pending delivery.key = some (.waiting position))
      : position ∉ (callsOf key state.calls).map ToolCall.position := by
    obtain ⟨opening, listed, placed, own, _⟩ := attributed.waiting _ _ points
    exact elsewhere ⟨opening, none, listed, placed, own⟩
  have completed {position : Nat}
      (points : state.pending delivery.key = some (.completed position))
      : position ∉ (callsOf key state.calls).map ToolCall.position :=
    elsewhere (attributed.completed _ _ points)
  have apart {position : Nat}
      (away : position ∉ (callsOf key state.calls).map ToolCall.position)
      : callsOf key (collide position delivery.position (state.calls ++ [delivery.reported]))
        = callsOf key state.calls := by
    rw [callsOf_collide, callsOf_append, reported, List.append_nil, collide,
      changeAt_of_absent away, changeAt_of_absent last]
  unfold Attribution.step
  split
  · refine ⟨?_, state.invoke_of_ne different⟩
    unfold Attribution.invoke
    dsimp only
    split
    · rw [callsOf_append, reported, List.append_nil]
    · next position points =>
      split
      · rw [callsOf_append, reported, List.append_nil]
      · exact apart (completed points)
    · next position points => exact apart (waiting points)
    · rw [callsOf_unknown, callsOf_append, reported, List.append_nil, changeAt_of_absent last]
  · refine ⟨?_, state.answer_of_ne different⟩
    unfold Attribution.answer
    dsimp only
    split
    · rw [callsOf_append, reported, List.append_nil]
    · next position points =>
      rw [callsOf_join, changeAt_of_absent (waiting points)]
    · next position points =>
      rw [callsOf_append, unknown, List.append_nil, callsOf_unknown,
        changeAt_of_absent (completed points)]
    · rw [callsOf_append, unknown, List.append_nil]
  · refine ⟨?_, rfl⟩
    rw [callsOf_append, reported, List.append_nil]

/-- The calls of a key are those of its history, by induction from the last delivery. -/
theorem attributeAll_history (ordered : InOrder given) (key : CallKey)
    : callsOf key (attributeAll given).calls = (attributeAll (history given key)).calls
      ∧ (attributeAll given).pending key = (attributeAll (history given key)).pending key := by
  induction given using List.reverseRecOn with
  | nil => exact ⟨rfl, rfl⟩
  | append_singleton before delivery ih =>
      obtain ⟨beforeOrdered, later⟩ := ordered.snoc
      obtain ⟨calls, pending⟩ := ih beforeOrdered
      have split : history (before ++ [delivery]) key
          = history before key ++ history [delivery] key := List.filter_append _ _
      rw [attributeAll_snoc, split]
      by_cases own : delivery.key = key
      · subst own
        have kept : history [delivery] delivery.key = [delivery] := by simp [history]
        rw [kept, attributeAll_snoc]
        exact Attribution.step_local calls pending
      · have dropped : history [delivery] key = [] := by simp [history, own]
        obtain ⟨sameCalls, samePending⟩ := Attribution.step_foreign
          (attributeAll_accounts beforeOrdered) beforeOrdered later (Ne.symm own)
        rw [dropped, List.append_nil, sameCalls, samePending]
        exact ⟨calls, pending⟩

end SkillRanker.Context
