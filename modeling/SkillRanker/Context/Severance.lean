import Mathlib.Data.List.Perm.Subperm
import Mathlib.Logic.Relation
import SkillRanker.Context.Indexing

/-! Which parent links are severed, and which events have no parent to be found. -/

namespace SkillRanker.Context

open SkillRanker.Library

variable {boundary eventKey : EventKey} {links : Nat} {event : NormalizedEvent}

namespace Index

variable {index : Index}

def LinksTo (index : Index) (child parent : NormalizedEvent) : Prop :=
  index.parent child = .ok (some parent)

def LeadsBack (index : Index) (event : NormalizedEvent) : Prop :=
  Relation.TransGen index.LinksTo event event

-- Links that lead to a boundary

theorem leadsTo_succ
    : index.leadsTo boundary (links + 1) event = true
      ↔ ∃ parent,
          index.LinksTo event parent
          ∧ (key parent = some boundary ∨ index.leadsTo boundary links parent = true) := by
  rw [leadsTo]
  unfold LinksTo
  split
  next parent linked => simp [linked]
  next other =>
      simp only [Bool.false_eq_true, false_iff, not_exists, not_and]
      exact fun parent linked => absurd linked (other parent)

/-- With more links an event still leads to the boundary, by induction on the links. -/
theorem leadsTo_mono {more : Nat} (leads : index.leadsTo boundary links event = true)
    (enough : links ≤ more)
    : index.leadsTo boundary more event = true := by
  induction links generalizing event more with
  | zero => cases leads
  | succ links ih =>
      obtain ⟨more, rfl⟩ := Nat.exists_eq_add_of_le' enough
      obtain ⟨parent, linked, reached⟩ := leadsTo_succ.mp leads
      refine leadsTo_succ.mpr ⟨parent, linked, reached.imp_right fun leads => ?_⟩
      exact ih leads (Nat.le_add_left links more)

/-- The event leads to the boundary in one link more than a number, and no sooner. -/
def Away (index : Index) (boundary : EventKey) (links : Nat) (event : NormalizedEvent) : Prop :=
  index.leadsTo boundary (links + 1) event = true ∧ ¬index.leadsTo boundary links event = true

theorem Away.unique {others : Nat} (away : Away index boundary links event)
    (again : Away index boundary others event)
    : links = others := by
  rcases Nat.lt_trichotomy links others with sooner | same | later
  · exact absurd (leadsTo_mono away.1 sooner) again.2
  · exact same
  · exact absurd (leadsTo_mono again.1 later) away.2

theorem Away.parent (away : Away index boundary (links + 1) event)
    : ∃ parent, index.LinksTo event parent ∧ Away index boundary links parent := by
  obtain ⟨parent, linked, reached⟩ := leadsTo_succ.mp away.1
  have apart : key parent ≠ some boundary := by
    intro same
    exact away.2 (leadsTo_succ.mpr ⟨parent, linked, .inl same⟩)
  refine ⟨parent, linked, reached.resolve_left apart, ?_⟩
  intro leads
  exact away.2 (leadsTo_succ.mpr ⟨parent, linked, .inr leads⟩)

section

variable (found : (eventKey, event) ∈ index.events)
include found

/-- An event that is away by some links has a definition at every shorter distance, by induction
on the links.
-/
theorem Away.each (away : Away index boundary links event)
    : ∀ distance ≤ links,
        ∃ entry ∈ index.events, Away index boundary distance entry.2 := by
  induction links generalizing eventKey event with
  | zero =>
      intro distance short
      obtain rfl := Nat.le_zero.mp short
      exact ⟨_, found, away⟩
  | succ links ih =>
      intro distance short
      rcases Nat.lt_or_eq_of_le short with nearer | rfl
      · obtain ⟨parent, linked, awayParent⟩ := away.parent
        obtain ⟨parentKey, kin⟩ := parent_spec linked
        exact ih kin.found awayParent distance (Nat.lt_succ_iff.mp nearer)
      · exact ⟨_, found, away⟩

/-- No definition is farther away than there are definitions. -/
theorem Away.lt_length (away : Away index boundary links event)
    : links < index.events.length := by
  have each : ∀ distance : Fin (links + 1),
      ∃ entry ∈ index.events, Away index boundary distance entry.2 :=
    fun distance => away.each found distance (Nat.lt_succ_iff.mp distance.isLt)
  choose entry mem atDistance using each
  have distinct : Function.Injective entry := by
    intro first second same
    exact Fin.ext ((atDistance first).unique (same ▸ atDistance second))
  have nodup : ((List.finRange (links + 1)).map entry).Nodup :=
    (List.nodup_finRange _).map distinct
  have known : (List.finRange (links + 1)).map entry ⊆ index.events := by
    intro one listed
    obtain ⟨distance, _, rfl⟩ := List.mem_map.mp listed
    exact mem distance
  have bound := (List.subperm_of_subset nodup known).length_le
  rw [List.length_map, List.length_finRange] at bound
  omega

/-- A boundary that is reached at all is reached within as many links as there are definitions. -/
theorem leadsTo_length (leads : index.leadsTo boundary links event = true)
    : index.leadsTo boundary index.events.length event = true := by
  induction links with
  | zero => cases leads
  | succ links ih =>
      by_cases sooner : index.leadsTo boundary links event = true
      · exact ih sooner
      · have away : Away index boundary links event := ⟨leads, sooner⟩
        exact leadsTo_mono leads (away.lt_length found)

/-- A definition leads to its own identity exactly when links lead back to it. -/
theorem leadsTo_iff_leadsBack
    : index.leadsTo eventKey index.events.length event = true ↔ LeadsBack index event := by
  have reaches : ∀ (links : Nat) (start : NormalizedEvent),
      index.leadsTo eventKey links start = true → Relation.TransGen index.LinksTo start event := by
    intro links
    induction links with
    | zero =>
        intro start leads
        cases leads
    | succ links ih =>
        intro start leads
        obtain ⟨parent, linked, reached⟩ := leadsTo_succ.mp leads
        rcases reached with same | further
        · obtain ⟨parentKey, kin⟩ := parent_spec linked
          obtain rfl : eventKey = parentKey :=
            Option.some.inj (same.symm.trans (index.keyed _ kin.found))
          have same := (lookup_eq_some_iff.mpr kin.found).symm.trans (lookup_eq_some_iff.mpr found)
          exact .single (Option.some.inj same ▸ linked)
        · exact .head linked (ih parent further)
  constructor
  · exact reaches _ event
  · intro back
    have led : ∀ start, Relation.TransGen index.LinksTo start event →
        ∃ links, index.leadsTo eventKey links start = true := by
      intro start path
      induction path using Relation.TransGen.head_induction_on with
      | single linked =>
          exact ⟨1, leadsTo_succ.mpr ⟨event, linked, .inl (index.keyed _ found)⟩⟩
      | head linked _ ih =>
          obtain ⟨links, leads⟩ := ih
          exact ⟨links + 1, leadsTo_succ.mpr ⟨_, linked, .inr leads⟩⟩
    obtain ⟨links, leads⟩ := led event back
    exact leadsTo_length found leads

end

-- Severed links and missing parents

variable {events : List NormalizedEvent} {responses : List (EventId × String)}

/-- The event is a compaction whose parent links lead back to it. -/
structure Severed (events : List NormalizedEvent) (responses : List (EventId × String))
    (event : NormalizedEvent)
    : Prop where
  compaction : event.kind = .compaction
  back : LeadsBack (gathered events responses) event

/-- The parent of an event is not among the events. -/
def Missing (events : List NormalizedEvent) (event : NormalizedEvent) : Prop :=
  ∀ other ∈ events, other.agentId = event.agentId → other.eventId ≠ event.parentId

theorem mem_severed (found : (eventKey, event) ∈ (new events responses).events)
    : eventKey ∈ (new events responses).severed ↔ Severed events responses event := by
  have found' : (eventKey, event) ∈ (gathered events responses).events := found
  constructor
  · intro mem
    obtain ⟨entry, listed, rfl⟩ := List.mem_map.mp mem
    obtain ⟨inEvents, severed⟩ := List.mem_filter.mp listed
    have same := (lookup_eq_some_iff.mpr found').symm.trans (lookup_eq_some_iff.mpr inEvents)
    obtain rfl := Option.some.inj same
    obtain ⟨compaction, leads⟩ := of_decide_eq_true severed
    exact ⟨compaction, (leadsTo_iff_leadsBack inEvents).mp leads⟩
  · intro severed
    refine List.mem_map.mpr ⟨(eventKey, event), List.mem_filter.mpr ⟨found', ?_⟩, rfl⟩
    exact decide_eq_true ⟨severed.compaction, (leadsTo_iff_leadsBack found').mpr severed.back⟩

/-- The agent of an event has no identity with an identifier exactly when none of its events has.
-/
theorem byAgent_eq_nil {agentId : Option AgentId} {eventId : EventId}
    (indexes : Indexes events index)
    : index.byAgent agentId eventId = []
      ↔ ∀ other ∈ events, other.agentId = agentId → other.eventId ≠ some eventId := by
  constructor
  · intro none other mem agent id
    have named : key other = some ⟨agentId, other.branchId, eventId⟩ :=
      key_eq_some_iff.mpr ⟨agent, rfl, id⟩
    have listed := mem_byAgent.mpr ⟨indexes.complete other mem _ named, rfl, rfl⟩
    rw [none] at listed
    cases listed
  · intro absent
    apply List.eq_nil_iff_forall_not_mem.mpr
    intro eventKey listed
    obtain ⟨known, agent, id⟩ := mem_byAgent.mp listed
    obtain ⟨entry, inEvents, rfl⟩ := List.mem_map.mp known
    obtain ⟨sameAgent, _, sameId⟩ := key_eq_some_iff.mp (index.keyed entry inEvents)
    exact absent entry.2 (indexes.sound entry inEvents) (sameAgent.trans agent) (id ▸ sameId)

/-- An event that names a parent has none to be found where the parent is missing, or where the
event's own link is severed.
-/
theorem parent_eq_none {parentId : EventId} (named : event.parentId = some parentId)
    : (new events responses).parent event = .ok none
      ↔ (key event).any (fun eventKey => eventKey ∈ (new events responses).severed) = true
        ∨ Missing events event := by
  have indexes := new_indexes events responses
  unfold Missing
  rw [named, ← byAgent_eq_nil indexes]
  unfold Index.parent
  rw [named]
  dsimp only
  split
  next severed => simp [severed]
  next intact =>
      simp only [intact, Bool.false_eq_true, false_or]
      split
      next found =>
          have listed := mem_byAgent.mpr ⟨mem_keys_of_lookup found, rfl, rfl⟩
          constructor
          · intro none
            cases none
          · intro none
            rw [none] at listed
            cases listed
      next absent =>
          split
          next none => simp [none]
          next candidate only =>
              have listed : candidate ∈ (new events responses).byAgent event.agentId parentId :=
                only ▸ List.mem_cons_self
              obtain ⟨entry, inEvents, rfl⟩ := List.mem_map.mp (mem_byAgent.mp listed).1
              rw [lookup_eq_some_iff.mpr inEvents, only]
              simp
          next several =>
              constructor
              · intro none
                cases none
              · intro none
                exact absurd none (by assumption)

end Index

end SkillRanker.Context
