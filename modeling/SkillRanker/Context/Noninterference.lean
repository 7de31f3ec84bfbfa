import SkillRanker.Context.OutlinedBranches

/-! What is rendered does not depend on the bodies of events that are left out: two contexts that
differ in nothing else are rendered to the same payload and the same receipt.
-/

namespace SkillRanker.Context

open SkillRanker.Library SkillRanker.Privacy

-- Contexts that differ in what is left out

/-- An event behind some others is selected, or has the identity of an event that is. -/
def InHistory (context : NormalizedContext) (before : List NormalizedEvent)
    (event : NormalizedEvent)
    : Prop :=
  ∃ fuel history incomplete,
    context.select fuel = returned (.ok (history, incomplete))
    ∧ match key event with
      | some eventKey => eventKey ∈ history.filterMap key
      | none => event ∈ history ∧ ∀ earlier ∈ before, context.isCurrent earlier = false

/-- Two events differ in no more than the options leave out: where the bodies of tools are omitted,
in their tools and in the texts of messages of tools.
-/
structure SameDisclosed (options : RenderContextOptions) (event other : NormalizedEvent) : Prop where
  outline : event.outline = other.outline
  whole : options.toolBodiesOmitted = false → event = other
  text : event.role ≠ .tool → event.text = other.text

/-- Two contexts differ in bodies of events alone, and in no more of the selected history than the
options leave out.
-/
structure DiffersInBodies (options : RenderContextOptions) (context other : NormalizedContext)
    : Prop where
  harness : context.harness = other.harness
  agentId : context.agentId = other.agentId
  branchId : context.branchId = other.branchId
  currentRequest : context.currentRequest = other.currentRequest
  events
    : ∃ pairs : List (NormalizedEvent × NormalizedEvent),
        context.events = pairs.map Prod.fst
        ∧ other.events = pairs.map Prod.snd
        ∧ ∀ before pair after,
            pairs = before ++ pair :: after
            → pair.1.outline = pair.2.outline
              ∧ (InHistory context (before.map Prod.fst) pair.1
                → SameDisclosed options pair.1 pair.2)

variable {options : RenderContextOptions} {context other : NormalizedContext}

namespace DiffersInBodies

variable (differs : DiffersInBodies options context other)
include differs

theorem outlines
    : context.events.map NormalizedEvent.outline = other.events.map NormalizedEvent.outline := by
  obtain ⟨pairs, first, second, alike⟩ := differs.events
  rw [first, second, List.map_map, List.map_map]
  refine List.map_congr_left fun pair mem => ?_
  obtain ⟨before, after, is⟩ := List.append_of_mem mem
  exact (alike before pair after is).1

theorem inScope (event : NormalizedEvent)
    : other.inScope event = context.inScope event := by
  unfold NormalizedContext.inScope
  rw [differs.agentId, differs.branchId]

theorem namesCurrent (event : NormalizedEvent)
    : other.namesCurrent event = context.namesCurrent event := by
  unfold NormalizedContext.namesCurrent
  rw [differs.currentRequest]

theorem ownEvents
    : context.ownEvents.map NormalizedEvent.outline = other.ownEvents.map NormalizedEvent.outline := by
  have same : other.ownEvents = other.events.filter context.inScope :=
    List.filter_congr fun event _ => differs.inScope event
  rw [same]
  exact filter_of_outlines context.inScope (inScope_outline context) differs.outlines

/-- A question about outlines has one answer for both. -/
theorem any_ownEvents (asks : NormalizedEvent → Bool)
    (reads : ∀ event, asks event.outline = asks event)
    : context.ownEvents.any asks = other.ownEvents.any asks := by
  have any (events : List NormalizedEvent)
      : events.any asks = (events.map NormalizedEvent.outline).any asks := by
    rw [List.any_map]
    congr 1
    funext event
    exact (reads event).symm
  rw [any, differs.ownEvents, ← any]

theorem isFlat
    : context.isFlat = other.isFlat := by
  unfold NormalizedContext.isFlat
  rw [differs.any_ownEvents _ fun _ => rfl]

theorem hasCurrent
    : context.hasCurrent = other.hasCurrent := by
  unfold NormalizedContext.hasCurrent
  rw [differs.any_ownEvents _ (namesCurrent_outline context)]
  congr 1
  funext event
  exact (differs.namesCurrent event).symm

theorem target
    : context.target = other.target := by
  unfold NormalizedContext.target
  rw [differs.hasCurrent, differs.currentRequest, differs.branchId, differs.agentId]

end DiffersInBodies

-- Flat histories

/-- Where two flat histories stand side by side, behind some events of the first. -/
structure FlatAlike (options : RenderContextOptions) (context : NormalizedContext)
    (before : List NormalizedEvent) (history other : FlatHistory)
    : Prop where
  seen : history.seen.map Prod.fst = other.seen.map Prod.fst
  known : ∀ entry ∈ history.seen, entry.2 ∈ before ∧ entry.2.eventId = some entry.1
    ∧ context.inScope entry.2 = true
  pastCurrent : history.pastCurrent = other.pastCurrent
  notYet : history.pastCurrent = false → ∀ earlier ∈ before, context.isCurrent earlier = false
  selected : List.Forall₂ (SameDisclosed options) history.selected other.selected

namespace FlatAlike

variable {before : List NormalizedEvent} {history next : FlatHistory}
  {history' next' : FlatHistory} {event event' : NormalizedEvent}

/-- An event that is of no scope changes neither history. -/
theorem skip (alike : FlatAlike options context before history history')
    (outside : context.inScope event = false)
    : FlatAlike options context (before ++ [event]) history history' where
  seen := alike.seen
  known entry mem := by
    obtain ⟨inBefore, named⟩ := alike.known entry mem
    exact ⟨List.mem_append_left _ inBefore, named⟩
  pastCurrent := alike.pastCurrent
  notYet yet earlier mem := by
    rcases List.mem_append.mp mem with mem | mem
    · exact alike.notYet yet earlier mem
    · rw [List.mem_singleton.mp mem, NormalizedContext.isCurrent, outside, Bool.and_false]
  selected := alike.selected

/-- Two histories have an identifier both, or neither. -/
theorem lookup_eq_none (alike : FlatAlike options context before history history')
    (eventId : EventId)
    : history.seen.lookup eventId = none ↔ history'.seen.lookup eventId = none := by
  have absent (seen : List (EventId × NormalizedEvent))
      : seen.lookup eventId = none ↔ eventId ∉ seen.map Prod.fst := by
    rw [List.lookup_eq_none_iff, List.mem_map]
    constructor
    · rintro none ⟨entry, mem, same⟩
      have apart := none entry mem
      rw [same] at apart
      simp at apart
    · intro none entry mem
      rw [bne_iff_ne]
      rintro rfl
      exact none ⟨entry, mem, rfl⟩
  rw [absent, absent, alike.seen]

/-- An event and its counterpart are both pushed, or neither is. -/
theorem push (pastCurrent : history.pastCurrent = history'.pastCurrent)
    (selected : List.Forall₂ (SameDisclosed options) history.selected history'.selected)
    (disclosed : event ∈ (history.push event).selected → history.pastCurrent = false
      → SameDisclosed options event event')
    : List.Forall₂ (SameDisclosed options) (history.push event).selected
        (history'.push event').selected := by
  unfold FlatHistory.push at disclosed ⊢
  rw [← pastCurrent]
  cases past : history.pastCurrent with
  | true => exact selected
  | false =>
      rw [past] at disclosed
      refine List.rel_append selected (.cons (disclosed ?_ rfl) .nil)
      exact List.mem_append_right _ (List.mem_singleton_self event)

theorem push_seen (history : FlatHistory) (event : NormalizedEvent)
    : (history.push event).seen = history.seen
      ∧ (history.push event).pastCurrent = history.pastCurrent := by
  unfold FlatHistory.push
  split <;> exact ⟨rfl, rfl⟩

/-- An event that is not the current request leaves it to come. -/
theorem notYet_snoc (notCurrent : context.namesCurrent event = false)
    (notYet : ∀ earlier ∈ before, context.isCurrent earlier = false)
    : ∀ earlier ∈ before ++ [event], context.isCurrent earlier = false := by
  intro one mem
  rcases List.mem_append.mp mem with mem | mem
  · exact notYet one mem
  · rw [List.mem_singleton.mp mem, NormalizedContext.isCurrent, notCurrent, Bool.false_and]

theorem known_snoc (alike : FlatAlike options context before history history')
    (event : NormalizedEvent) {entry : EventId × NormalizedEvent} (mem : entry ∈ history.seen)
    : entry.2 ∈ before ++ [event] ∧ entry.2.eventId = some entry.1
      ∧ context.inScope entry.2 = true :=
  ⟨List.mem_append_left _ (alike.known entry mem).1, (alike.known entry mem).2⟩

/-- An event without an identifier is pushed. -/
theorem take_unnamed (alike : FlatAlike options context before history history')
    (unnamed : event.eventId = none)
    (disclosed
      : event ∈ (history.push event).selected
        → (∀ earlier ∈ before, context.isCurrent earlier = false)
        → SameDisclosed options event event')
    : FlatAlike options context (before ++ [event]) (history.push event)
        (history'.push event') := by
  have notCurrent : context.namesCurrent event = false := by
    rw [NormalizedContext.namesCurrent, unnamed]
    rfl
  obtain ⟨seen, past⟩ := push_seen history event
  obtain ⟨seen', past'⟩ := push_seen history' event'
  exact {
    seen := by rw [seen, seen', alike.seen]
    known := fun entry mem => alike.known_snoc event (by rwa [seen] at mem)
    pastCurrent := by rw [past, past', alike.pastCurrent]
    notYet := fun yet => notYet_snoc notCurrent (alike.notYet (by rwa [past] at yet))
    selected :=
      push alike.pastCurrent alike.selected fun pushed yet => disclosed pushed (alike.notYet yet)
  }

/-- An event that was seen before changes neither history. -/
theorem take_repeated (alike : FlatAlike options context before history history')
    {eventId : EventId} (found : history.seen.lookup eventId = some event)
    : FlatAlike options context (before ++ [event]) history history' := by
  obtain ⟨_, _, is, _⟩ := List.lookup_eq_some_iff.mp found
  have inSeen : (eventId, event) ∈ history.seen := by
    rw [is]
    exact List.mem_append_right _ List.mem_cons_self
  obtain ⟨inBefore, _, _⟩ := alike.known _ inSeen
  refine ⟨alike.seen, fun entry mem => alike.known_snoc event mem, alike.pastCurrent, ?_,
    alike.selected⟩
  intro yet one mem
  rcases List.mem_append.mp mem with mem | mem
  · exact alike.notYet yet one mem
  · rw [List.mem_singleton.mp mem]
    exact alike.notYet yet event inBefore

/-- An event with a new identifier is noted and pushed, unless the current request is past. -/
theorem take_new (alike : FlatAlike options context before history history')
    (scope : context.inScope event = true) {eventId : EventId}
    (named : event.eventId = some eventId) {current current' : Bool}
    (names : context.namesCurrent event = current) (same : current' = current)
    (disclosed
      : event ∈ (FlatHistory.push
            { history with
              seen := (eventId, event) :: history.seen
              pastCurrent := history.pastCurrent || current } event).selected
        → (∀ earlier ∈ before, context.isCurrent earlier = false)
        → SameDisclosed options event event')
    : FlatAlike options context (before ++ [event])
        (FlatHistory.push
          { history with
            seen := (eventId, event) :: history.seen
            pastCurrent := history.pastCurrent || current } event)
        (FlatHistory.push
          { history' with
            seen := (eventId, event') :: history'.seen
            pastCurrent := history'.pastCurrent || current' } event') := by
  have past : (history.pastCurrent || current) = (history'.pastCurrent || current') := by
    rw [alike.pastCurrent, same]
  have yetOf (yet : (history.pastCurrent || current) = false)
      : context.namesCurrent event = false
        ∧ ∀ earlier ∈ before, context.isCurrent earlier = false := by
    rw [Bool.or_eq_false_iff] at yet
    exact ⟨names.trans yet.2, alike.notYet yet.1⟩
  obtain ⟨seen, pastNext⟩ := push_seen
    { history with
      seen := (eventId, event) :: history.seen
      pastCurrent := history.pastCurrent || current } event
  obtain ⟨seen', pastNext'⟩ := push_seen
    { history' with
      seen := (eventId, event') :: history'.seen
      pastCurrent := history'.pastCurrent || current' } event'
  refine ⟨?_, fun entry mem => ?_, by rw [pastNext, pastNext', past], fun yet => ?_, ?_⟩
  · rw [seen, seen', List.map_cons, List.map_cons, alike.seen]
  · rw [seen] at mem
    rcases List.mem_cons.mp mem with rfl | mem
    · exact ⟨List.mem_append_right _ (List.mem_singleton_self _), named, scope⟩
    · exact alike.known_snoc event mem
  · rw [pastNext] at yet
    obtain ⟨notCurrent, earlier⟩ := yetOf yet
    exact notYet_snoc notCurrent earlier
  · exact push past alike.selected fun pushed yet => disclosed pushed (yetOf yet).2

/-- The next event in scope is taken in on both sides, by its identifier. -/
theorem take (differs : DiffersInBodies options context other)
    (alike : FlatAlike options context before history history')
    (scope : context.inScope event = true) (outline : event.outline = event'.outline)
    (taken : FlatHistory.take context history event = .ok next)
    (taken' : FlatHistory.take other history' event' = .ok next')
    (disclosed
      : event ∈ next.selected
        → (∀ earlier ∈ before, context.isCurrent earlier = false)
        → SameDisclosed options event event')
    : FlatAlike options context (before ++ [event]) next next' := by
  have sameId : event'.eventId = event.eventId := by
    rw [← eventId_outline event', ← outline, eventId_outline]
  have names : other.namesCurrent event' = context.namesCurrent event := by
    rw [differs.namesCurrent, ← namesCurrent_outline, ← outline, namesCurrent_outline]
  unfold FlatHistory.take at taken taken'
  rw [sameId] at taken'
  cases named : event.eventId with
  | none =>
      rw [named] at taken taken'
      cases taken
      cases taken'
      exact alike.take_unnamed named disclosed
  | some eventId =>
      rw [named] at taken taken'
      have both := alike.lookup_eq_none eventId
      dsimp only at taken taken'
      cases found : history.seen.lookup eventId with
      | some previous =>
          cases found' : history'.seen.lookup eventId with
          | none =>
              rw [both.mpr found'] at found
              cases found
          | some previous' =>
              rw [found] at taken
              rw [found'] at taken'
              obtain ⟨_, same, taken⟩ := bind_eq_ok.mp taken
              obtain ⟨_, _, taken'⟩ := bind_eq_ok.mp taken'
              cases taken
              cases taken'
              rw [ensure_eq_ok.mp same] at found
              exact alike.take_repeated found
      | none =>
          rw [found] at taken
          rw [both.mp found] at taken'
          cases taken
          cases taken'
          exact alike.take_new scope named rfl names disclosed

end FlatAlike

/-- Two flat histories are alike behind all events, by induction on the pairs of events. -/
theorem flat_alike (differs : DiffersInBodies options context other)
    {pairs : List (NormalizedEvent × NormalizedEvent)} {before : List NormalizedEvent}
    {history last history' last' : FlatHistory}
    (alike : FlatAlike options context before history history')
    (ran
      : ((pairs.map Prod.fst).filter context.inScope).foldlM (FlatHistory.take context) history
        = .ok last)
    (ran'
      : ((pairs.map Prod.snd).filter context.inScope).foldlM (FlatHistory.take other) history'
        = .ok last')
    (outlines : ∀ pair ∈ pairs, pair.1.outline = pair.2.outline)
    (disclosed
      : ∀ earlier pair later,
          pairs = earlier ++ pair :: later
          → pair.1 ∈ last.selected
          → (∀ event ∈ before ++ earlier.map Prod.fst, context.isCurrent event = false)
          → SameDisclosed options pair.1 pair.2)
    : List.Forall₂ (SameDisclosed options) last.selected last'.selected := by
  induction pairs generalizing before history history' with
  | nil =>
      cases ran
      cases ran'
      exact alike.selected
  | cons pair rest ih =>
      have outline := outlines pair List.mem_cons_self
      have scopes : context.inScope pair.2 = context.inScope pair.1 := by
        rw [← inScope_outline, ← outline, inScope_outline]
      have onward (earlier : List (NormalizedEvent × NormalizedEvent))
          (one : NormalizedEvent × NormalizedEvent)
          (later : List (NormalizedEvent × NormalizedEvent)) (is : rest = earlier ++ one :: later)
          (selected : one.1 ∈ last.selected)
          (none : ∀ event ∈ before ++ [pair.1] ++ earlier.map Prod.fst,
            context.isCurrent event = false)
          : SameDisclosed options one.1 one.2 := by
        refine disclosed (pair :: earlier) one later (by rw [is]; rfl) selected ?_
        rwa [List.append_assoc] at none
      rw [List.map_cons, List.filter_cons] at ran ran'
      rw [scopes] at ran'
      cases scope : context.inScope pair.1 with
      | false =>
          rw [scope] at ran ran'
          exact ih (alike.skip scope) ran ran'
            (fun one mem => outlines one (List.mem_cons_of_mem _ mem)) onward
      | true =>
          rw [scope, if_pos rfl, List.foldlM_cons] at ran ran'
          obtain ⟨next, taken, ran⟩ := bind_eq_ok.mp ran
          obtain ⟨next', taken', ran'⟩ := bind_eq_ok.mp ran'
          refine ih (alike.take differs scope outline taken taken' ?_) ran ran'
            (fun one mem => outlines one (List.mem_cons_of_mem _ mem)) onward
          intro selected none
          obtain ⟨added, is, _⟩ := FlatHistory.selected_sublist ran
          refine disclosed [] pair rest rfl ?_ ?_
          · rw [is]
            exact List.mem_append_left _ selected
          · rwa [List.map_nil, List.append_nil]

-- Linked histories

/-- More fuel resolves the same branch. -/
theorem steady_resolve (events : List NormalizedEvent) (target : BranchResolutionTarget)
    : Steady fun fuel => resolve fuel events target [] := by
  by_cases none : events = []
  · intro fuel more result resolved _
    change resolve more events target [] = some result
    have resolved : resolve fuel events target [] = some result := resolved
    rw [resolve, if_pos none] at resolved ⊢
    exact resolved
  · simp only [resolve_eq none]
    refine Steady.map (Steady.runBind (Index.steady_select events target) fun leaf => ?_) _
    exact Index.steady_trace leaf target

variable {events : List NormalizedEvent} {event : NormalizedEvent}

/-- An event of a resolved branch that has no identifier is the only one there was. -/
theorem resolve_lone {fuel : Nat} {target : BranchResolutionTarget} {branch : ActiveBranch}
    (resolved : resolve fuel events target [] = some (.resolved branch))
    (mem : event ∈ branch.events) (unnamed : key event = none)
    : events = [event] := by
  obtain ⟨some, leaf, selected, traced⟩ := resolve_parts resolved
  obtain ⟨lineage, finished, rfl⟩ := Index.trace_finished traced
  have unknown : ¬ Index.Known (Index.new events []) event := by
    rintro ⟨eventKey, inIndex⟩
    rw [(Index.new events []).keyed _ inIndex] at unnamed
    cases unnamed
  rcases finished.known event mem with rfl | known
  · rcases (Index.select_selectable selected).indexed with known | ⟨only, _⟩
    · exact absurd known unknown
    · exact only
  · exact absurd known unknown

variable {fuel more : Nat} {branch branch' : ActiveBranch}

theorem sameAgent_outlines (differs : DiffersInBodies options context other)
    : context.sameAgent.map NormalizedEvent.outline
      = other.sameAgent.map NormalizedEvent.outline := by
  unfold NormalizedContext.sameAgent
  rw [← differs.agentId]
  exact filter_of_outlines (fun event => decide (event.agentId = context.agentId)) (fun _ => rfl)
    differs.outlines

theorem branches_outline (differs : DiffersInBodies options context other)
    (resolved : resolve fuel context.sameAgent context.target [] = some (.resolved branch))
    (resolved' : resolve more other.sameAgent other.target [] = some (.resolved branch'))
    : branch.events.map NormalizedEvent.outline = branch'.events.map NormalizedEvent.outline
      ∧ branch.ancestorChainTruncated = branch'.ancestorChainTruncated := by
  have outlined := resolve_outline resolved
  have outlined' := resolve_outline resolved'
  rw [sameAgent_outlines differs, differs.target] at outlined
  have steady := steady_resolve (other.sameAgent.map NormalizedEvent.outline) other.target
  have atMost := steady outlined (Nat.le_max_left fuel more)
  have atMost' := steady outlined' (Nat.le_max_right fuel more)
  have same := Option.some.inj (atMost.symm.trans atMost')
  have same := BranchResolution.resolved.inj same
  have truncated := congrArg ActiveBranch.ancestorChainTruncated same
  exact ⟨congrArg ActiveBranch.events same, truncated⟩

/-- An event of a branch and its counterpart in the other branch differ in what is left out. -/
theorem branches_disclosed (differs : DiffersInBodies options context other)
    (resolved : resolve fuel context.sameAgent context.target [] = some (.resolved branch))
    (resolved' : resolve more other.sameAgent other.target [] = some (.resolved branch'))
    (selected : context.select fuel = returned (.ok (context.ofBranch branch)))
    {event' : NormalizedEvent} (mem : event ∈ (context.ofBranch branch).1)
    (inBranch : event ∈ branch.events) (inOther : event' ∈ branch'.events)
    (outline : event.outline = event'.outline)
    : SameDisclosed options event event' := by
  obtain ⟨pairs, first, second, alike⟩ := differs.events
  have sound := resolve_sound resolved
  have sound' := resolve_sound resolved'
  obtain ⟨inContext, agent⟩ := List.mem_filter.mp (sound.input event inBranch)
  rw [first] at inContext
  obtain ⟨pair, inPairs, rfl⟩ := List.mem_map.mp inContext
  obtain ⟨before, after, is⟩ := List.append_of_mem inPairs
  obtain ⟨outlinePair, disclosed⟩ := alike before pair after is
  have inOthers : pair.2 ∈ other.sameAgent := by
    refine List.mem_filter.mpr ⟨?_, ?_⟩
    · rw [second]
      exact List.mem_map_of_mem inPairs
    · rw [← differs.agentId, ← show pair.2.outline.agentId = pair.2.agentId from rfl, ← outlinePair]
      exact agent
  have sameKey : key pair.2 = key pair.1 := by
    rw [← key_outline, ← outlinePair, key_outline]
  have sameKey' : key event' = key pair.1 := by
    rw [← key_outline, ← outline, key_outline]
  cases identity : key pair.1 with
  | some eventKey =>
      rw [identity] at sameKey sameKey'
      have counterpart : pair.2 = event' := by
        by_contra apart
        exact sound'.definite event' inOther eventKey sameKey'
          ⟨pair.2, inOthers, event', sound'.input event' inOther, sameKey, sameKey', apart⟩
      rw [← counterpart]
      refine disclosed ⟨fuel, _, _, selected, ?_⟩
      rw [identity]
      exact List.mem_filterMap.mpr ⟨pair.1, mem, identity⟩
  | none =>
      have only := resolve_lone resolved inBranch identity
      have one : other.sameAgent.length = 1 := by
        have lengths := congrArg List.length (sameAgent_outlines differs)
        rw [List.length_map, List.length_map, only] at lengths
        exact lengths.symm
      obtain ⟨single, alone⟩ := List.length_eq_one_iff.mp one
      have inBranch' := sound'.input event' inOther
      rw [alone, List.mem_singleton] at inOthers inBranch'
      rw [inBranch', ← inOthers]
      refine disclosed ⟨fuel, _, _, selected, ?_⟩
      rw [identity]
      refine ⟨mem, fun earlier inBefore => ?_⟩
      have among : earlier ∈ context.events := by
        rw [first, is, List.map_append]
        exact List.mem_append_left _ inBefore
      rw [NormalizedContext.isCurrent, Bool.and_eq_false_iff]
      by_cases scope : context.inScope earlier = true
      · have inAgent : earlier ∈ context.sameAgent := by
          refine List.mem_filter.mpr ⟨among, ?_⟩
          exact (Bool.and_eq_true _ _).mp scope |>.1
        rw [only, List.mem_singleton] at inAgent
        rw [inAgent]
        refine .inl ?_
        have unnamed : pair.1.eventId = none := Option.map_eq_none_iff.mp identity
        rw [NormalizedContext.namesCurrent, unnamed]
        rfl
      · exact .inr (Bool.not_eq_true _ ▸ scope)

theorem flatAlike_empty (options : RenderContextOptions) (context : NormalizedContext)
    : FlatAlike options context [] .empty .empty where
  seen := rfl
  known _ mem := absurd mem List.not_mem_nil
  pastCurrent := rfl
  notYet _ _ mem := absurd mem List.not_mem_nil
  selected := .nil

/-- Two lists of the same outlines are alike where events of one outline are. -/
theorem forall₂_of_outlines {related : NormalizedEvent → NormalizedEvent → Prop}
    {others : List NormalizedEvent}
    (same : events.map NormalizedEvent.outline = others.map NormalizedEvent.outline)
    (alike
      : ∀ event other, event ∈ events → other ∈ others → event.outline = other.outline
        → related event other)
    : List.Forall₂ related events others := by
  induction events generalizing others with
  | nil =>
      rw [List.map_nil] at same
      rw [List.map_eq_nil_iff.mp same.symm]
      exact .nil
  | cons event rest ih =>
      cases others with
      | nil => cases same
      | cons other more =>
          obtain ⟨first, later⟩ := List.cons.inj same
          refine .cons (alike event other List.mem_cons_self List.mem_cons_self first) ?_
          exact ih later fun one another mem mem' =>
            alike one another (List.mem_cons_of_mem _ mem) (List.mem_cons_of_mem _ mem')

theorem mem_of_ofBranch (mem : event ∈ (context.ofBranch branch).1)
    : event ∈ branch.events := by
  unfold NormalizedContext.ofBranch at mem
  dsimp only at mem
  split at mem
  · exact (List.mem_filter.mp mem).1
  · exact mem

theorem ofBranch_outlines (differs : DiffersInBodies options context other)
    (outlines
      : branch.events.map NormalizedEvent.outline = branch'.events.map NormalizedEvent.outline)
    : (context.ofBranch branch).1.map NormalizedEvent.outline
      = (other.ofBranch branch').1.map NormalizedEvent.outline := by
  unfold NormalizedContext.ofBranch
  dsimp only
  rw [← differs.hasCurrent, ← differs.currentRequest]
  split
  · exact filter_of_outlines
      (fun event => decide (event.eventId ≠ context.currentRequest.eventId)) (fun _ => rfl) outlines
  · exact outlines

/-- The histories of two contexts differ in what is left out. -/
theorem select_alike {history history' : List NormalizedEvent} {incomplete incomplete' : Bool}
    (differs : DiffersInBodies options context other)
    (selected : context.select fuel = returned (.ok (history, incomplete)))
    (selected' : other.select more = returned (.ok (history', incomplete')))
    : incomplete = incomplete' ∧ List.Forall₂ (SameDisclosed options) history history' := by
  have whole := selected
  unfold NormalizedContext.select at selected selected'
  obtain ⟨_, _, selected⟩ := bind_eq_returned.mp selected
  obtain ⟨_, _, selected'⟩ := bind_eq_returned.mp selected'
  rw [← differs.isFlat] at selected'
  cases flat : context.isFlat with
  | true =>
      rw [flat, if_pos rfl] at selected selected'
      obtain ⟨last, ran, same⟩ := bind_eq_returned.mp selected
      obtain ⟨last', ran', same'⟩ := bind_eq_returned.mp selected'
      obtain ⟨rfl, rfl⟩ := Prod.mk.inj (pure_eq_returned same)
      obtain ⟨rfl, rfl⟩ := Prod.mk.inj (pure_eq_returned same')
      refine ⟨rfl, ?_⟩
      obtain ⟨pairs, first, second, alike⟩ := differs.events
      have scopes : other.inScope = context.inScope := funext differs.inScope
      have ran := returned_inj.mp ran
      have ran' := returned_inj.mp ran'
      unfold NormalizedContext.ownEvents at ran ran'
      rw [first] at ran
      rw [second, scopes] at ran'
      refine flat_alike differs (flatAlike_empty options context) ran ran' ?_ ?_
      · intro pair mem
        obtain ⟨before, after, is⟩ := List.append_of_mem mem
        exact (alike before pair after is).1
      · intro before pair after is inHistory none
        refine (alike before pair after is).2 ⟨fuel, _, _, whole, ?_⟩
        cases identity : key pair.1 with
        | some eventKey => exact List.mem_filterMap.mpr ⟨pair.1, inHistory, identity⟩
        | none => exact ⟨inHistory, none⟩
  | false =>
      rw [flat, if_neg Bool.false_ne_true] at selected selected'
      obtain ⟨resolution, resolved, selected⟩ := bind_eq_returned.mp selected
      obtain ⟨resolution', resolved', selected'⟩ := bind_eq_returned.mp selected'
      have resolved := present_eq_returned.mp resolved
      have resolved' := present_eq_returned.mp resolved'
      cases resolution with
      | unresolved reason => cases selected
      | resolved branch =>
          cases resolution' with
          | unresolved reason => cases selected'
          | resolved branch' =>
              have same := pure_eq_returned selected
              have same' := pure_eq_returned selected'
              obtain ⟨outlines, truncated⟩ := branches_outline differs resolved resolved'
              rw [← same] at whole
              have unnamed := differs.any_ownEvents (fun event => event.eventId.isNone)
                fun _ => rfl
              have kept := ofBranch_outlines differs outlines
              obtain ⟨rfl, rfl⟩ := Prod.mk.inj same
              obtain ⟨rfl, rfl⟩ := Prod.mk.inj same'
              refine ⟨by rw [truncated, unnamed], ?_⟩
              refine forall₂_of_outlines kept fun event event' mem mem' outline => ?_
              exact branches_disclosed differs resolved resolved' whole mem (mem_of_ofBranch mem)
                (mem_of_ofBranch mem') outline

end SkillRanker.Context
