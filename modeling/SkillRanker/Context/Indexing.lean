import Mathlib.Data.List.Induction
import SkillRanker.Context.Branch

/-! The index of events: what a parent link leads to, and which definitions are held. -/

namespace SkillRanker.Context

open SkillRanker.Library

namespace Index

variable (index : Index)

/-- The identities of an index. -/
abbrev keys : List EventKey := index.events.map Prod.fst

theorem keys_nodup : index.keys.Nodup := index.ordered.nodup

variable {index}
variable {eventKey : EventKey} {event : NormalizedEvent}

theorem lookup_eq_some_iff
    : index.events.lookup eventKey = some event ↔ (eventKey, event) ∈ index.events :=
  index.ordered.lookup_eq_some_iff

theorem key_of_lookup (found : index.events.lookup eventKey = some event)
    : key event = some eventKey :=
  index.keyed _ (lookup_eq_some_iff.mp found)

theorem key_eq_some_iff
    : key event = some eventKey
      ↔ event.agentId = eventKey.agentId ∧ event.branchId = eventKey.branchId
        ∧ event.eventId = some eventKey.eventId := by
  obtain ⟨agentId, branchId, eventId⟩ := eventKey
  unfold key
  cases event.eventId with
  | none => simp
  | some id =>
      simp only [Option.map_some, Option.some.injEq, EventKey.mk.injEq]

theorem mem_byAgent {agentId : Option AgentId} {eventId : EventId}
    : eventKey ∈ index.byAgent agentId eventId
      ↔ eventKey ∈ index.keys ∧ eventKey.agentId = agentId ∧ eventKey.eventId = eventId := by
  rw [byAgent, List.mem_filter, decide_eq_true_iff]

/-- What the parent link of an event leads to: a definition of the agent's identifier, in the
event's own branch, or the only one where its branch has none.
-/
structure Parent (index : Index) (event : NormalizedEvent) (eventKey : EventKey)
    (parent : NormalizedEvent)
    : Prop where
  found : (eventKey, parent) ∈ index.events
  agentId : eventKey.agentId = event.agentId
  eventId : event.parentId = some eventKey.eventId
  nearest
    : eventKey.branchId = event.branchId
      ∨ index.byAgent event.agentId eventKey.eventId = [eventKey]

theorem parent_spec {parent : NormalizedEvent} (linked : index.parent event = .ok (some parent))
    : ∃ eventKey, Parent index event eventKey parent := by
  unfold Index.parent at linked
  split at linked
  · cases linked
  next parentId named =>
      split at linked
      · cases linked
      · split at linked
        · next own found =>
            obtain rfl := Option.some.inj (Except.ok.inj linked)
            exact ⟨_, lookup_eq_some_iff.mp found, rfl, named, .inl rfl⟩
        · split at linked
          · cases linked
          · next candidate only =>
              have listed : candidate ∈ index.byAgent event.agentId parentId :=
                only ▸ List.mem_cons_self
              obtain ⟨_, agentId, rfl⟩ := mem_byAgent.mp listed
              exact ⟨candidate, lookup_eq_some_iff.mp (Except.ok.inj linked), agentId, named,
                .inr only⟩
          · cases linked

/-- The parent link of an identity leads where its definition's link leads. -/
theorem parentOf_eq_some_iff {child : EventKey}
    : index.parentOf child = some eventKey
      ↔ ∃ event parent,
          (child, event) ∈ index.events
          ∧ index.parent event = .ok (some parent)
          ∧ (eventKey, parent) ∈ index.events := by
  unfold parentOf
  rw [Option.bind_eq_bind, Option.bind_eq_some_iff]
  constructor
  · rintro ⟨event, found, named⟩
    split at named
    · next parent linked =>
        obtain ⟨key', kin⟩ := parent_spec linked
        have same := (index.keyed _ kin.found).symm.trans named
        cases same
        exact ⟨event, parent, lookup_eq_some_iff.mp found, linked, kin.found⟩
    · cases named
  · rintro ⟨event, parent, found, linked, parentFound⟩
    refine ⟨event, lookup_eq_some_iff.mpr found, ?_⟩
    rw [linked]
    exact index.keyed _ parentFound

theorem mem_keys_of_parentOf {child : EventKey} (linked : index.parentOf child = some eventKey)
    : child ∈ index.keys ∧ eventKey ∈ index.keys := by
  obtain ⟨event, parent, found, _, parentFound⟩ := parentOf_eq_some_iff.mp linked
  exact ⟨List.mem_map_of_mem found, List.mem_map_of_mem parentFound⟩

@[simp]
theorem mem_kids {child : EventKey}
    : child ∈ index.kids eventKey ↔ index.parentOf child = some eventKey := by
  rw [kids, List.mem_filter, decide_eq_true_iff]
  exact ⟨fun both => both.2, fun linked => ⟨(mem_keys_of_parentOf linked).1, linked⟩⟩

theorem kids_nodup (eventKey : EventKey) : (index.kids eventKey).Nodup :=
  index.keys_nodup.filter _

/-- The definition of the identity below a parent link is found under its key. -/
theorem mem_keys_of_lookup (found : index.events.lookup eventKey = some event)
    : eventKey ∈ index.keys :=
  List.mem_map_of_mem (lookup_eq_some_iff.mp found)

end Index

-- The definitions that an index holds of the events it was built from

namespace Index

-- One event

variable {index : Index} {event : NormalizedEvent}

/-- An event without an identity is not indexed. -/
theorem add_of_no_key (identity : key event = none)
    : index.add event = index := by
  unfold add
  split
  · rfl
  · next same => rw [identity] at same; cases same

variable {eventKey : EventKey}

theorem add_of_key (index : Index) (identity : key event = some eventKey)
    : (index.events.lookup eventKey = none
          ∧ (index.add event).events = insertEntry eventKey event index.events
          ∧ (index.add event).conflicts = index.conflicts)
      ∨ ∃ first,
          index.events.lookup eventKey = some first
          ∧ (index.add event).events = index.events
          ∧ (index.add event).conflicts
            = if first ≠ event then eventKey :: index.conflicts else index.conflicts := by
  unfold add
  split
  · next same => rw [identity] at same; cases same
  next other same =>
      obtain rfl := Option.some.inj (identity.symm.trans same)
      split
      · next absent => exact .inl ⟨absent, rfl, rfl⟩
      · next first found =>
          refine .inr ⟨first, found, ?_, ?_⟩
          · split <;> rfl
          · split <;> rfl

theorem add_responses (index : Index) (event : NormalizedEvent)
    : (index.add event).responses = index.responses := by
  unfold add
  split
  · rfl
  · split
    · rfl
    · split <;> rfl

theorem add_severed (index : Index) (event : NormalizedEvent)
    : (index.add event).severed = index.severed := by
  unfold add
  split
  · rfl
  · split
    · rfl
    · split <;> rfl

-- All events

/-- Two events define an identity, each another way. -/
def Redefined (events : List NormalizedEvent) (eventKey : EventKey) : Prop :=
  ∃ first ∈ events, ∃ second ∈ events,
    key first = some eventKey ∧ key second = some eventKey ∧ first ≠ second

theorem Redefined.append {events : List NormalizedEvent} (redefined : Redefined events eventKey)
    (later : List NormalizedEvent)
    : Redefined (events ++ later) eventKey := by
  obtain ⟨first, inFirst, second, inSecond, apart⟩ := redefined
  exact ⟨first, List.mem_append_left _ inFirst, second, List.mem_append_left _ inSecond, apart⟩

/-- An index of the events: every entry is one of them, every identity has an entry, and only a
conflict tells its definitions apart.
-/
structure Indexes (events : List NormalizedEvent) (index : Index) : Prop where
  sound : ∀ entry ∈ index.events, entry.2 ∈ events
  complete
    : ∀ event ∈ events, ∀ eventKey,
        key event = some eventKey → eventKey ∈ index.keys
  agree
    : ∀ event ∈ events, ∀ eventKey,
        key event = some eventKey
        → eventKey ∉ index.conflicts
        → (eventKey, event) ∈ index.events
  conflicting : ∀ eventKey ∈ index.conflicts, Redefined events eventKey

theorem empty_indexes (responses : List (EventId × String)) : Indexes [] (empty responses) where
  sound := fun _ mem => absurd mem List.not_mem_nil
  complete := fun _ mem => absurd mem List.not_mem_nil
  agree := fun _ mem => absurd mem List.not_mem_nil
  conflicting := fun _ mem => absurd mem List.not_mem_nil

theorem mem_insertEntry_of_mem (absent : index.events.lookup eventKey = none)
    {entry : EventKey × NormalizedEvent} (mem : entry ∈ index.events)
    : entry ∈ insertEntry eventKey event index.events := by
  have found : index.events.lookup entry.1 = some entry.2 := lookup_eq_some_iff.mpr mem
  have different : entry.1 ≠ eventKey := by
    intro same
    rw [same, absent] at found
    cases found
  apply mem_of_lookup
  rw [lookup_insertEntry_of_ne different, found]

section

variable {events : List NormalizedEvent} {next : Index} {own : EventKey}
variable (indexes : Indexes events index)
include indexes

/-- An event without a key leaves the index as it is. -/
theorem Indexes.add_unkeyed (unkeyed : key event = none) : Indexes (events ++ [event]) index := by
  refine ⟨?_, ?_, ?_, ?_⟩
  · exact fun entry mem => List.mem_append_left _ (indexes.sound entry mem)
  · intro other mem eventKey named
    rcases List.mem_append.mp mem with earlier | last
    · exact indexes.complete other earlier eventKey named
    · rw [List.mem_singleton.mp last, unkeyed] at named
      cases named
  · intro other mem eventKey named free
    rcases List.mem_append.mp mem with earlier | last
    · exact indexes.agree other earlier eventKey named free
    · rw [List.mem_singleton.mp last, unkeyed] at named
      cases named
  · exact fun eventKey mem => (indexes.conflicting eventKey mem).append [event]

/-- The first event of a key is its definition. -/
theorem Indexes.add_first (identity : key event = some own)
    (absent : index.events.lookup own = none)
    (entries : next.events = insertEntry own event index.events)
    (conflicts : next.conflicts = index.conflicts)
    : Indexes (events ++ [event]) next := by
  have defined : (own, event) ∈ next.events := by
    rw [entries]
    exact mem_of_lookup (lookup_insertEntry_self own event index.events)
  have kept (entry : EventKey × NormalizedEvent) (mem : entry ∈ index.events)
      : entry ∈ next.events := by
    rw [entries]
    exact mem_insertEntry_of_mem absent mem
  refine ⟨?_, ?_, ?_, ?_⟩
  · intro entry mem
    rw [entries] at mem
    rcases of_mem_insertEntry mem with rfl | earlier
    · exact List.mem_append_right _ (List.mem_singleton_self event)
    · exact List.mem_append_left _ (indexes.sound entry earlier)
  · intro other mem eventKey named
    rcases List.mem_append.mp mem with earlier | last
    · obtain ⟨entry, inEntries, rfl⟩ :=
        List.mem_map.mp (indexes.complete other earlier eventKey named)
      exact List.mem_map_of_mem (kept entry inEntries)
    · rw [List.mem_singleton.mp last, identity] at named
      exact Option.some.inj named ▸ List.mem_map_of_mem defined
  · intro other mem eventKey named free
    rcases List.mem_append.mp mem with earlier | last
    · exact kept _ (indexes.agree other earlier eventKey named (conflicts ▸ free))
    · rw [List.mem_singleton.mp last] at named ⊢
      obtain rfl := Option.some.inj (identity.symm.trans named)
      exact defined
  · exact fun eventKey mem => (indexes.conflicting eventKey (conflicts ▸ mem)).append [event]

/-- A further event of a key conflicts with its definition, unless it is the same. -/
theorem Indexes.add_again (identity : key event = some own) {first : NormalizedEvent}
    (found : index.events.lookup own = some first) (entries : next.events = index.events)
    (conflicts
      : next.conflicts = if first ≠ event then own :: index.conflicts else index.conflicts)
    : Indexes (events ++ [event]) next := by
  have keys_eq : next.keys = index.keys := by
    rw [keys, entries]
  refine ⟨?_, ?_, ?_, ?_⟩
  · intro entry mem
    rw [entries] at mem
    exact List.mem_append_left _ (indexes.sound entry mem)
  · intro other mem eventKey named
    rw [keys_eq]
    rcases List.mem_append.mp mem with earlier | last
    · exact indexes.complete other earlier eventKey named
    · rw [List.mem_singleton.mp last, identity] at named
      exact Option.some.inj named ▸ mem_keys_of_lookup found
  · intro other mem eventKey named free
    rw [entries]
    rcases List.mem_append.mp mem with earlier | last
    · refine indexes.agree other earlier eventKey named fun conflicting => free ?_
      rw [conflicts]
      split
      · exact List.mem_cons_of_mem _ conflicting
      · exact conflicting
    · rw [List.mem_singleton.mp last] at named ⊢
      obtain rfl := Option.some.inj (identity.symm.trans named)
      have same : first = event := by
        by_contra different
        rw [conflicts, if_pos different] at free
        exact free List.mem_cons_self
      rw [← same]
      exact lookup_eq_some_iff.mp found
  · intro eventKey mem
    rw [conflicts] at mem
    split at mem
    next different =>
        rcases List.mem_cons.mp mem with rfl | mem
        · have inEvents := indexes.sound _ (lookup_eq_some_iff.mp found)
          exact ⟨first, List.mem_append_left _ inEvents, event,
            List.mem_append_right _ (List.mem_singleton_self event), key_of_lookup found,
            identity, different⟩
        · exact (indexes.conflicting eventKey mem).append [event]
    · exact (indexes.conflicting eventKey mem).append [event]

theorem Indexes.add (event : NormalizedEvent)
    : Indexes (events ++ [event]) (index.add event) := by
  cases identity : key event with
  | none =>
      rw [add_of_no_key identity]
      exact indexes.add_unkeyed identity
  | some own =>
      rcases add_of_key index identity with
        ⟨absent, entries, conflicts⟩ | ⟨first, found, entries, conflicts⟩
      · exact indexes.add_first identity absent entries conflicts
      · exact indexes.add_again identity found entries conflicts

end

/-- The index of the first definitions, before any link is severed. -/
def gathered (events : List NormalizedEvent) (responses : List (EventId × String)) : Index :=
  events.foldl add (empty responses)

section

variable (events : List NormalizedEvent)
include events

variable (responses : List (EventId × String))

/-- The events are indexed, by induction on the events from the last one on. -/
theorem gathered_indexes
    : Indexes events (gathered events responses) := by
  induction events using List.reverseRecOn with
  | nil => exact empty_indexes responses
  | append_singleton events event ih =>
      rw [gathered, List.foldl_append]
      exact ih.add event

theorem gathered_severed
    : (gathered events responses).severed = [] := by
  induction events using List.reverseRecOn with
  | nil => rfl
  | append_singleton events event ih =>
      rw [gathered, List.foldl_append]
      exact (add_severed _ event).trans ih

theorem gathered_responses
    : (gathered events responses).responses = responses := by
  induction events using List.reverseRecOn with
  | nil => rfl
  | append_singleton events event ih =>
      rw [gathered, List.foldl_append]
      exact (add_responses _ event).trans ih

/-- The events are indexed, whatever links are severed. -/
theorem new_indexes
    : Indexes events (new events responses) :=
  have gathered := gathered_indexes events responses
  ⟨gathered.sound, gathered.complete, gathered.agree, gathered.conflicting⟩

end

end Index

end SkillRanker.Context
