import Mathlib.Data.String.Basic
import SkillRanker.Library.Entries

/-! Roster snapshots, and the drift from a saved snapshot to a fresh one of the same namespace. -/

namespace SkillRanker.Roster

open Library

def diffSchema : String := "sr.roster-diff.v1"

inductive SnapshotError where
  | malformed
  | tooLarge
  | tooManyRecords
  | unreadable
  | incompatible
  deriving DecidableEq

/-- Where a roster was observed. Paths are reduced to digests. -/
structure Namespace where
  harness : String
  workspace : String
  home : Option String
  deriving DecidableEq

structure SnapshotRecord where
  skillId : String
  invocationName : String
  source : String
  status : String
  agentInvocable : Bool
  userInvocable : Bool
  contentHash : String
  deriving DecidableEq

structure Snapshot where
  schema : String
  observed : Namespace
  snapshot : String
  incompleteSources : List String
  allSourcesIncomplete : Bool
  records : List SnapshotRecord
  deriving DecidableEq

structure Diff where
  schema : String
  oldSnapshot : String
  newSnapshot : String
  complete : Bool
  added : List String
  removed : List String
  unconfirmedRemovals : List String
  renamed : List (String × String)
  contentChanged : List String
  restrictionChanged : List String
  statusChanged : List (String × String × String)
  deriving DecidableEq

def byId (records : List SnapshotRecord) : List (String × SnapshotRecord) :=
  records.foldl (fun table record => insertEntry record.skillId record table) []

namespace Snapshot

/-- A source that the scan of a snapshot did not fully observe. -/
def unobserved (fresh : Snapshot) (source : String) : Bool :=
  fresh.allSourcesIncomplete || fresh.incompleteSources.any (· == source)

/-- Every declared source was observed. -/
def complete (scan : Snapshot) : Bool :=
  !(scan.allSourcesIncomplete || !scan.incompleteSources.isEmpty)

def recordOf (scan : Snapshot) (id : String) : Option SnapshotRecord :=
  (byId scan.records).lookup id

/-- The records of the ids that another snapshot does not have, in the order of the ids. -/
def missingFrom (scan other : Snapshot) : List SnapshotRecord :=
  ((byId scan.records).filter fun entry => (other.recordOf entry.1).isNone).map Prod.snd

/-- The ids of two snapshots, in order, with the record of each in both. -/
def kept (old new : Snapshot) : List (SnapshotRecord × SnapshotRecord) :=
  (byId old.records).filterMap fun entry => (new.recordOf entry.1).map (entry.2, ·)

end Snapshot

/-- What became of the records that are missing, and the ids of the added ones they claim. -/
structure Departures where
  removed : List SnapshotRecord
  unconfirmed : List SnapshotRecord
  renamed : List (SnapshotRecord × SnapshotRecord)
  claimed : List String

namespace Departures

def none : Departures := { removed := [], unconfirmed := [], renamed := [], claimed := [] }

/-- The first added record with the content and the source of a missing one that no other claims.
-/
def counterpart (added : List SnapshotRecord) (state : Departures) (gone : SnapshotRecord)
    : Option SnapshotRecord :=
  added.find? fun now =>
    now.contentHash == gone.contentHash && now.source == gone.source
      && !state.claimed.contains now.skillId

/-- A missing record with a counterpart was renamed. Another is removed if its source was observed.
-/
def settle (fresh : Snapshot) (added : List SnapshotRecord) (state : Departures)
    (gone : SnapshotRecord)
    : Departures :=
  match counterpart added state gone with
  | some now =>
      { state with
        claimed := state.claimed ++ [now.skillId]
        renamed := state.renamed ++ [(gone, now)] }
  | Option.none =>
      if fresh.unobserved gone.source then
        { state with unconfirmed := state.unconfirmed ++ [gone] }
      else { state with removed := state.removed ++ [gone] }

def run (fresh : Snapshot) (added missing : List SnapshotRecord) : Departures :=
  missing.foldl (settle fresh added) none

/-- The added records that no missing one claims. -/
def unclaimed (added : List SnapshotRecord) (state : Departures) : List SnapshotRecord :=
  added.filter fun now => !state.claimed.contains now.skillId

end Departures

/-- The records of the old snapshot that the new one does not have, with what became of them. -/
def departures (old new : Snapshot) : Departures :=
  Departures.run new (new.missingFrom old) (old.missingFrom new)

/-- The records of the new snapshot that are no renamed old ones. -/
def arrivals (old new : Snapshot) : List SnapshotRecord :=
  (departures old new).unclaimed (new.missingFrom old)

/-- Compares a saved snapshot with a fresh one from the same namespace. Records are identified by
skill id and reported by invocation name.
-/
def diff (old new : Snapshot) : Except SnapshotError Diff :=
  if old.schema ≠ new.schema ∨ old.observed ≠ new.observed then .error .incompatible
  else
    let gone := departures old new
    .ok {
      schema := diffSchema
      oldSnapshot := old.snapshot
      newSnapshot := new.snapshot
      complete := old.complete && new.complete
      added := (arrivals old new).map (·.invocationName)
      removed := gone.removed.map (·.invocationName)
      unconfirmedRemovals := gone.unconfirmed.map (·.invocationName)
      renamed := gone.renamed.map fun pair => (pair.1.invocationName, pair.2.invocationName)
      contentChanged := (Snapshot.kept old new).filterMap fun (record, now) =>
        if now.contentHash ≠ record.contentHash then some now.invocationName else none
      restrictionChanged := (Snapshot.kept old new).filterMap fun (record, now) =>
        if (now.agentInvocable, now.userInvocable)
          ≠ (record.agentInvocable, record.userInvocable) then some now.invocationName
        else none
      statusChanged := (Snapshot.kept old new).filterMap fun (record, now) =>
        if now.status ≠ record.status then
          some (now.invocationName, record.status, now.status)
        else none
    }

def Diff.isEmpty (report : Diff) : Bool :=
  report.added.isEmpty && report.removed.isEmpty && report.unconfirmedRemovals.isEmpty
    && report.renamed.isEmpty && report.contentChanged.isEmpty
    && report.restrictionChanged.isEmpty && report.statusChanged.isEmpty

-- What became of each id between two snapshots

-- Records by id

def ids (records : List SnapshotRecord) : List String := records.map (·.skillId)

/-- The records of an entry table stand under their ids. -/
def Keyed (table : List (String × SnapshotRecord)) : Prop :=
  ∀ entry ∈ table, entry.2.skillId = entry.1

section

variable (records : List SnapshotRecord)
include records

/-- Taking records into a table keeps its order and its ids, by induction on the records. -/
theorem foldl_insert_ordered {table : List (String × SnapshotRecord)} (ordered : Ordered table)
    (keyed : Keyed table)
    : Ordered (records.foldl (fun table record => insertEntry record.skillId record table) table)
      ∧ Keyed
          (records.foldl (fun table record => insertEntry record.skillId record table) table) := by
  induction records generalizing table with
  | nil => exact ⟨ordered, keyed⟩
  | cons record rest ih =>
      refine ih (ordered.insertEntry record.skillId record) ?_
      intro entry mem
      rcases of_mem_insertEntry mem with rfl | earlier
      · rfl
      · exact keyed entry earlier

/-- A table has the ids it had and those of the records it took. -/
theorem lookup_foldl_insert (table : List (String × SnapshotRecord)) (id : String)
    : (records.foldl (fun table record => insertEntry record.skillId record table) table).lookup
          id = none
      ↔ id ∉ ids records ∧ table.lookup id = none := by
  induction records generalizing table with
  | nil => simp [ids]
  | cons record rest ih =>
      rw [List.foldl_cons, ih, ids, ids, List.map_cons, List.mem_cons]
      rcases eq_or_ne id record.skillId with same | different
      · simp [same]
      · simp [different]

theorem byId_ordered : Ordered (byId records) :=
  (foldl_insert_ordered records List.Pairwise.nil fun _ mem => (List.not_mem_nil mem).elim).1

theorem byId_keyed : Keyed (byId records) :=
  (foldl_insert_ordered records List.Pairwise.nil fun _ mem => (List.not_mem_nil mem).elim).2

end

variable {scan : Snapshot} {id : String}

theorem Snapshot.recordOf_eq_none_iff
    : scan.recordOf id = none ↔ id ∉ ids scan.records := by
  refine (lookup_foldl_insert scan.records [] id).trans ?_
  simp

variable {record : SnapshotRecord}

theorem Snapshot.skillId_recordOf (found : scan.recordOf id = some record)
    : record.skillId = id :=
  byId_keyed scan.records _ (mem_of_lookup found)

/-- The records that another snapshot misses are those of the ids it does not have. -/
theorem Snapshot.mem_missingFrom_iff {other : Snapshot}
    : record ∈ scan.missingFrom other
      ↔ scan.recordOf record.skillId = some record
        ∧ record.skillId ∉ ids other.records := by
  unfold Snapshot.missingFrom
  rw [List.mem_map]
  constructor
  · rintro ⟨⟨id, found⟩, mem, rfl⟩
    obtain ⟨entryMem, absent⟩ := List.mem_filter.mp mem
    have same : found.skillId = id := byId_keyed scan.records _ entryMem
    subst same
    exact ⟨(byId_ordered scan.records).lookup_eq_some_iff.mpr entryMem,
      Snapshot.recordOf_eq_none_iff.mp (Option.isNone_iff_eq_none.mp absent)⟩
  · rintro ⟨found, absent⟩
    refine ⟨(record.skillId, record), List.mem_filter.mpr ⟨mem_of_lookup found, ?_⟩, rfl⟩
    exact Option.isNone_iff_eq_none.mpr (Snapshot.recordOf_eq_none_iff.mpr absent)

theorem Snapshot.mem_ids_missingFrom_iff {other : Snapshot}
    : id ∈ ids (scan.missingFrom other)
      ↔ id ∈ ids scan.records ∧ id ∉ ids other.records := by
  constructor
  · intro mem
    obtain ⟨record, missing, rfl⟩ := List.mem_map.mp mem
    obtain ⟨found, absent⟩ := Snapshot.mem_missingFrom_iff.mp missing
    refine ⟨by_contra fun gone => ?_, absent⟩
    rw [Snapshot.recordOf_eq_none_iff.mpr gone] at found
    cases found
  · rintro ⟨present, absent⟩
    obtain ⟨record, found⟩ := Option.ne_none_iff_exists'.mp
      (mt Snapshot.recordOf_eq_none_iff.mp (not_not_intro present))
    have same : record.skillId = id := Snapshot.skillId_recordOf found
    subst same
    exact List.mem_map.mpr
      ⟨record, Snapshot.mem_missingFrom_iff.mpr ⟨found, absent⟩, rfl⟩

theorem Snapshot.nodup_ids_missingFrom (scan other : Snapshot)
    : (ids (scan.missingFrom other)).Nodup := by
  have names : ids (scan.missingFrom other)
      = ((byId scan.records).filter fun entry => (other.recordOf entry.1).isNone).map
          Prod.fst := by
    unfold Snapshot.missingFrom ids
    rw [List.map_map]
    exact List.map_congr_left fun entry mem =>
      byId_keyed scan.records entry (List.mem_of_mem_filter mem)
  rw [names]
  exact (byId_ordered scan.records).nodup.sublist (List.filter_sublist.map Prod.fst)

-- The departures

namespace Departures

/-- What holds while the missing records are settled: each is in one list, the pairs are alike and
apart, and where one record of a content and a source could be paired a pair stands.
-/
structure Settled (fresh : Snapshot) (added missing : List SnapshotRecord) (state : Departures)
    : Prop where
  all : (state.removed ++ state.unconfirmed ++ state.renamed.map Prod.fst).Perm missing
  claims : state.claimed = state.renamed.map (·.2.skillId)
  apart : state.claimed.Nodup
  alike : ∀ pair ∈ state.renamed,
    pair.2 ∈ added ∧ pair.2.contentHash = pair.1.contentHash ∧ pair.2.source = pair.1.source
  observed : ∀ record ∈ state.removed, fresh.unobserved record.source = false
  pairs : ∀ record ∈ missing, ∀ now ∈ added,
    now.contentHash = record.contentHash → now.source = record.source →
      ∃ pair ∈ state.renamed, pair.1.source = record.source

theorem settled_none (fresh : Snapshot) (added : List SnapshotRecord)
    : Settled fresh added [] none :=
  {
    all := List.Perm.refl []
    claims := rfl
    apart := List.nodup_nil
    alike := fun _ mem => (List.not_mem_nil mem).elim
    observed := fun _ mem => (List.not_mem_nil mem).elim
    pairs := fun _ mem => (List.not_mem_nil mem).elim
  }

variable {now : SnapshotRecord}
variable {added : List SnapshotRecord} {gone : SnapshotRecord}

/-- A counterpart is an added record of the same content and source that no other claims. -/
theorem of_counterpart {state : Departures} (found : counterpart added state gone = some now)
    : now ∈ added ∧ now.contentHash = gone.contentHash ∧ now.source = gone.source
      ∧ now.skillId ∉ state.claimed := by
  have meets := List.find?_some found
  simp only [Bool.and_eq_true, beq_iff_eq, Bool.not_eq_true', List.contains_eq_mem,
    decide_eq_false_iff_not] at meets
  exact ⟨List.mem_of_find?_eq_some found, meets.1.1, meets.1.2, meets.2⟩

/-- Without a counterpart the added records of the same content and source are claimed. -/
theorem claimed_of_no_counterpart {state : Departures}
    (nothing : counterpart added state gone = Option.none) (mem : now ∈ added)
    (content : now.contentHash = gone.contentHash) (source : now.source = gone.source)
    : now.skillId ∈ state.claimed := by
  have fails := List.find?_eq_none.mp nothing now mem
  simpa [content, source] using fails

section Steps

variable {fresh : Snapshot} {added missing : List SnapshotRecord} {state : Departures}
  {gone : SnapshotRecord}

section

variable (settled : Settled fresh added missing state)
include settled

theorem Settled.rename (found : counterpart added state gone = some now)
    : Settled fresh added (missing ++ [gone])
        { state with
          claimed := state.claimed ++ [now.skillId]
          renamed := state.renamed ++ [(gone, now)] } := by
  obtain ⟨mem, content, source, unclaimed⟩ := of_counterpart found
  refine {
    all := ?_
    claims := by simp [settled.claims]
    apart := List.nodup_append.mpr ⟨settled.apart, List.nodup_singleton _, ?_⟩
    alike := ?_
    observed := settled.observed
    pairs := ?_
  }
  · rw [List.map_append, ← List.append_assoc]
    exact settled.all.append_right [gone]
  · intro id claimed other single same
    rw [List.mem_singleton.mp single] at same
    exact unclaimed (same ▸ claimed)
  · intro pair pairMem
    rcases List.mem_append.mp pairMem with earlier | last
    · exact settled.alike pair earlier
    · rw [List.mem_singleton.mp last]
      exact ⟨mem, content, source⟩
  · intro record recordMem other otherMem otherContent otherSource
    rcases List.mem_append.mp recordMem with earlier | last
    · obtain ⟨pair, pairMem, same⟩ :=
        settled.pairs record earlier other otherMem otherContent otherSource
      exact ⟨pair, List.mem_append_left _ pairMem, same⟩
    · rw [List.mem_singleton.mp last]
      exact ⟨(gone, now), List.mem_append_right _ (List.mem_singleton_self _), rfl⟩

/-- Without a counterpart the pairs of the records settled so far serve the next one too: a claimed
record was claimed by one of its source.
-/
theorem Settled.pairs_without (distinct : (ids added).Nodup)
    (nothing : counterpart added state gone = Option.none)
    : ∀ record ∈ missing ++ [gone], ∀ now ∈ added,
        now.contentHash = record.contentHash → now.source = record.source →
          ∃ pair ∈ state.renamed, pair.1.source = record.source := by
  intro record recordMem now mem content source
  rcases List.mem_append.mp recordMem with earlier | last
  · exact settled.pairs record earlier now mem content source
  · rw [List.mem_singleton.mp last] at content source ⊢
    have claimed := claimed_of_no_counterpart nothing mem content source
    rw [settled.claims] at claimed
    obtain ⟨pair, pairMem, sameId⟩ := List.mem_map.mp claimed
    obtain ⟨pairAdded, _, pairSource⟩ := settled.alike pair pairMem
    have same : pair.2 = now := List.inj_on_of_nodup_map distinct pairAdded mem sameId
    exact ⟨pair, pairMem, by rw [← pairSource, same, source]⟩

/-- A record that cannot be confirmed to be gone. -/
theorem Settled.unconfirm (distinct : (ids added).Nodup)
    (nothing : counterpart added state gone = Option.none)
    : Settled fresh added (missing ++ [gone])
        { state with unconfirmed := state.unconfirmed ++ [gone] } := by
  refine {
    all := ?_
    claims := settled.claims
    apart := settled.apart
    alike := settled.alike
    observed := settled.observed
    pairs := settled.pairs_without distinct nothing
  }
  refine List.Perm.trans ?_ (settled.all.append_right [gone])
  simp only [List.append_assoc]
  exact (List.perm_append_comm.append_left _).append_left _

/-- A record whose source was observed. -/
theorem Settled.remove (distinct : (ids added).Nodup)
    (nothing : counterpart added state gone = Option.none)
    (seen : fresh.unobserved gone.source = false)
    : Settled fresh added (missing ++ [gone])
        { state with removed := state.removed ++ [gone] } := by
  refine {
    all := ?_
    claims := settled.claims
    apart := settled.apart
    alike := settled.alike
    observed := ?_
    pairs := settled.pairs_without distinct nothing
  }
  · refine List.Perm.trans ?_ (settled.all.append_right [gone])
    simp only [List.append_assoc]
    rw [← List.append_assoc state.unconfirmed]
    exact List.perm_append_comm.append_left _
  · intro record mem
    rcases List.mem_append.mp mem with earlier | last
    · exact settled.observed record earlier
    · rw [List.mem_singleton.mp last]
      exact seen

theorem Settled.step (distinct : (ids added).Nodup) (gone : SnapshotRecord)
    : Settled fresh added (missing ++ [gone]) (settle fresh added state gone) := by
  unfold settle
  split
  · next now found => exact settled.rename found
  · next nothing =>
      split
      · exact settled.unconfirm distinct nothing
      · next seen => exact settled.remove distinct nothing (Bool.eq_false_iff.mpr seen)

end

/-- The loop settles them all, by induction on the missing records. -/
theorem Settled.foldl (distinct : (ids added).Nodup) (rest : List SnapshotRecord)
    (settled : Settled fresh added missing state)
    : Settled fresh added (missing ++ rest) (rest.foldl (settle fresh added) state) := by
  induction rest generalizing missing state with
  | nil =>
      rw [List.append_nil]
      exact settled
  | cons gone rest ih =>
      have later := ih (settled.step distinct gone)
      rwa [List.append_assoc, List.singleton_append] at later

end Steps

end Departures

theorem departures_settled (old new : Snapshot)
    : Departures.Settled new (new.missingFrom old) (old.missingFrom new) (departures old new) :=
  (Departures.settled_none new (new.missingFrom old)).foldl
    (Snapshot.nodup_ids_missingFrom new old) (old.missingFrom new)

-- The classes of the ids

def renamedFrom (old new : Snapshot) : List SnapshotRecord :=
  (departures old new).renamed.map Prod.fst

def renamedTo (old new : Snapshot) : List SnapshotRecord :=
  (departures old new).renamed.map Prod.snd

def OneOf (one two three : Prop) : Prop :=
  one ∧ ¬two ∧ ¬three ∨ ¬one ∧ two ∧ ¬three ∨ ¬one ∧ ¬two ∧ three

structure Classified (old new : Snapshot) : Prop where
  departed : ∀ id, id ∈ ids old.records → id ∉ ids new.records →
    OneOf (id ∈ ids (departures old new).removed) (id ∈ ids (departures old new).unconfirmed)
      (id ∈ ids (renamedFrom old new))
  arrived : ∀ id, id ∈ ids new.records → id ∉ ids old.records →
    (id ∈ ids (arrivals old new) ∧ id ∉ ids (renamedTo old new)
      ∨ id ∉ ids (arrivals old new) ∧ id ∈ ids (renamedTo old new))
  onlyOld : ∀ id,
    id ∈ ids (departures old new).removed ∨ id ∈ ids (departures old new).unconfirmed
        ∨ id ∈ ids (renamedFrom old new) →
      id ∈ ids old.records ∧ id ∉ ids new.records
  onlyNew : ∀ id, id ∈ ids (arrivals old new) ∨ id ∈ ids (renamedTo old new) →
    id ∈ ids new.records ∧ id ∉ ids old.records
  injectiveFrom : (ids (renamedFrom old new)).Nodup
  injectiveTo : (ids (renamedTo old new)).Nodup
  alike : ∀ pair ∈ (departures old new).renamed,
    pair.2.contentHash = pair.1.contentHash ∧ pair.2.source = pair.1.source

/-- The ids of the departures are the ids that the new snapshot misses, each once. -/
theorem ids_departures_perm (old new : Snapshot)
    : (ids (departures old new).removed
        ++ (ids (departures old new).unconfirmed ++ ids (renamedFrom old new))).Perm
        (ids (old.missingFrom new)) := by
  have all := (departures_settled old new).all.map (·.skillId)
  simpa only [ids, renamedFrom, List.map_append, List.append_assoc] using all

/-- An id of lists that have each id once is in one of them. -/
theorem oneOf_of_nodup {one two three : List String} (distinct : (one ++ (two ++ three)).Nodup)
    (mem : id ∈ one ++ (two ++ three))
    : OneOf (id ∈ one) (id ∈ two) (id ∈ three) := by
  obtain ⟨_, others, apart⟩ := List.nodup_append.mp distinct
  obtain ⟨_, _, apart'⟩ := List.nodup_append.mp others
  have notOne : ∀ later ∈ two ++ three, later ∉ one := fun later mem' first =>
    apart later first later mem' rfl
  have notTwo : ∀ later ∈ three, later ∉ two := fun later mem' first =>
    apart' later first later mem' rfl
  rcases List.mem_append.mp mem with first | rest
  · exact .inl ⟨first, fun second => notOne id (List.mem_append_left _ second) first,
      fun third => notOne id (List.mem_append_right _ third) first⟩
  · rcases List.mem_append.mp rest with second | third
    · exact .inr (.inl ⟨notOne id rest, second, fun third => notTwo id third second⟩)
    · exact .inr (.inr ⟨notOne id rest, notTwo id third, third⟩)

/-- The ids that a renamed record took are those that were claimed. -/
theorem ids_renamedTo (old new : Snapshot)
    : ids (renamedTo old new) = (departures old new).claimed := by
  rw [(departures_settled old new).claims, renamedTo, ids, List.map_map]
  rfl

variable {old new : Snapshot}

theorem mem_ids_arrivals_iff
    : id ∈ ids (arrivals old new)
      ↔ id ∈ ids (new.missingFrom old) ∧ id ∉ ids (renamedTo old new) := by
  rw [ids_renamedTo]
  unfold arrivals Departures.unclaimed ids
  simp only [List.mem_map, List.mem_filter, Bool.not_eq_true', List.contains_eq_mem,
    decide_eq_false_iff_not]
  constructor
  · rintro ⟨record, ⟨mem, unclaimed⟩, rfl⟩
    exact ⟨⟨record, mem, rfl⟩, unclaimed⟩
  · rintro ⟨⟨record, mem, rfl⟩, unclaimed⟩
    exact ⟨record, ⟨mem, unclaimed⟩, rfl⟩

/-- A renamed record took the id of an added one. -/
theorem missing_of_renamedTo (mem : id ∈ ids (renamedTo old new))
    : id ∈ ids (new.missingFrom old) := by
  obtain ⟨record, recordMem, rfl⟩ := List.mem_map.mp mem
  obtain ⟨pair, pairMem, rfl⟩ := List.mem_map.mp recordMem
  exact List.mem_map_of_mem ((departures_settled old new).alike pair pairMem).1

theorem classified (old new : Snapshot) : Classified old new := by
  have settled := departures_settled old new
  have perm := ids_departures_perm old new
  have distinct := perm.nodup_iff.mpr (Snapshot.nodup_ids_missingFrom old new)
  refine {
    departed := fun id present absent =>
      oneOf_of_nodup distinct
        (perm.mem_iff.mpr (Snapshot.mem_ids_missingFrom_iff.mpr ⟨present, absent⟩))
    arrived := ?_
    onlyOld := ?_
    onlyNew := ?_
    injectiveFrom := (List.nodup_append.mp (List.nodup_append.mp distinct).2.1).2.1
    injectiveTo := ids_renamedTo old new ▸ settled.apart
    alike := fun pair mem => (settled.alike pair mem).2
  }
  · intro id present absent
    have added := Snapshot.mem_ids_missingFrom_iff.mpr ⟨present, absent⟩
    by_cases renamed : id ∈ ids (renamedTo old new)
    · exact .inr ⟨fun arrived => (mem_ids_arrivals_iff.mp arrived).2 renamed, renamed⟩
    · exact .inl ⟨mem_ids_arrivals_iff.mpr ⟨added, renamed⟩, renamed⟩
  · intro id listed
    refine Snapshot.mem_ids_missingFrom_iff.mp (perm.mem_iff.mp ?_)
    simpa only [List.mem_append] using listed
  · rintro id (arrived | renamed)
    · exact Snapshot.mem_ids_missingFrom_iff.mp (mem_ids_arrivals_iff.mp arrived).1
    · exact Snapshot.mem_ids_missingFrom_iff.mp (missing_of_renamedTo renamed)

-- A snapshot beside itself

theorem Snapshot.missingFrom_self (scan : Snapshot) : scan.missingFrom scan = [] := by
  refine List.eq_nil_iff_forall_not_mem.mpr fun record mem => ?_
  have ⟨present, absent⟩ := Snapshot.mem_ids_missingFrom_iff.mp (List.mem_map_of_mem mem)
  exact absent present

/-- The records that a snapshot keeps from itself are its records. -/
theorem Snapshot.eq_of_kept_self {pair : SnapshotRecord × SnapshotRecord}
    (mem : pair ∈ Snapshot.kept scan scan)
    : pair.1 = pair.2 := by
  obtain ⟨entry, entryMem, made⟩ := List.mem_filterMap.mp mem
  have found : scan.recordOf entry.1 = some entry.2 :=
    (byId_ordered scan.records).lookup_eq_some_iff.mpr entryMem
  rw [found] at made
  rw [← Option.some.inj made]

theorem diff_self (scan : Snapshot)
    : ∃ report, diff scan scan = .ok report ∧ report.isEmpty = true := by
  have gone : departures scan scan = Departures.none := by
    unfold departures
    rw [Snapshot.missingFrom_self]
    rfl
  have come : arrivals scan scan = [] := by
    unfold arrivals
    rw [Snapshot.missingFrom_self]
    rfl
  refine ⟨_, if_neg (by simp), ?_⟩
  simp only [Diff.isEmpty, gone, come, Departures.none, List.map_nil, List.isEmpty_nil,
    Bool.true_and, Bool.and_eq_true, List.isEmpty_iff, List.filterMap_eq_nil_iff]
  refine ⟨⟨?_, ?_⟩, ?_⟩
  · intro pair mem
    simp [Snapshot.eq_of_kept_self mem]
  · intro pair mem
    simp [Snapshot.eq_of_kept_self mem]
  · intro pair mem
    simp [Snapshot.eq_of_kept_self mem]

-- Sources that were not observed

/-- An id that is missing from a source the fresh scan did not fully observe is neither called
removed nor called renamed.
-/
def Cautious (old new : Snapshot) : Prop :=
  ∀ record ∈ old.missingFrom new, new.unobserved record.source = true →
    record.skillId ∉ ids (departures old new).removed
    ∧ record.skillId ∉ ids (renamedFrom old new)

/-- No record that is missing from such a source has its content and its source in common with a
record of a new id.
-/
def Unmatched (old new : Snapshot) : Prop :=
  ∀ record ∈ old.missingFrom new, new.unobserved record.source = true →
    ∀ now ∈ new.missingFrom old,
      ¬(now.contentHash = record.contentHash ∧ now.source = record.source)

/-- The record of a departure is the missing record of its id. -/
theorem eq_of_skillId_eq {one two : SnapshotRecord} (oneMem : one ∈ old.missingFrom new)
    (twoMem : two ∈ old.missingFrom new) (same : one.skillId = two.skillId)
    : one = two :=
  List.inj_on_of_nodup_map (Snapshot.nodup_ids_missingFrom old new) oneMem twoMem same

theorem missing_of_departed
    (mem : record ∈ (departures old new).removed ∨ record ∈ renamedFrom old new)
    : record ∈ old.missingFrom new := by
  refine (departures_settled old new).all.mem_iff.mp ?_
  rcases mem with removed | renamed
  · exact List.mem_append_left _ (List.mem_append_left _ removed)
  · exact List.mem_append_right _ renamed

/-- A record of a source that was not observed is never called removed. -/
theorem not_removed_of_unobserved (mem : record ∈ old.missingFrom new)
    (unseen : new.unobserved record.source = true)
    : record.skillId ∉ ids (departures old new).removed := by
  intro removed
  obtain ⟨other, otherMem, same⟩ := List.mem_map.mp removed
  have equal : other = record :=
    eq_of_skillId_eq (missing_of_departed (.inl otherMem)) mem same
  rw [equal] at otherMem
  rw [(departures_settled old new).observed record otherMem] at unseen
  cases unseen

/-- The pairing looks at no source's coverage, so that an id missing from a source that was not
observed is called renamed just when some such record has a counterpart.
-/
theorem cautious_iff_unmatched (old new : Snapshot) : Cautious old new ↔ Unmatched old new := by
  have settled := departures_settled old new
  constructor
  · rintro cautious record mem unseen now added ⟨content, source⟩
    obtain ⟨pair, pairMem, same⟩ := settled.pairs record mem now added content source
    have renamed : pair.1 ∈ renamedFrom old new := List.mem_map_of_mem pairMem
    refine (cautious pair.1 (missing_of_departed (.inr renamed)) (same ▸ unseen)).2 ?_
    exact List.mem_map_of_mem renamed
  · intro unmatched record mem unseen
    refine ⟨not_removed_of_unobserved mem unseen, fun renamed => ?_⟩
    obtain ⟨other, otherMem, sameId⟩ := List.mem_map.mp renamed
    have equal : other = record :=
      eq_of_skillId_eq (missing_of_departed (.inr otherMem)) mem sameId
    subst equal
    obtain ⟨pair, pairMem, rfl⟩ := List.mem_map.mp otherMem
    obtain ⟨added, content, source⟩ := settled.alike pair pairMem
    exact unmatched pair.1 mem unseen pair.2 added ⟨content, source⟩

/-- A report that was made names the classes, each id is in its class, the diff of a snapshot with
itself is empty, and ids of sources that were not observed are treated with caution just when
none of their records has a counterpart.
-/
theorem diff_sound_iff_unmatched {old new : Snapshot} {report : Diff}
    (made : diff old new = .ok report)
    : report.removed = (departures old new).removed.map (·.invocationName)
      ∧ report.unconfirmedRemovals = (departures old new).unconfirmed.map (·.invocationName)
      ∧ report.renamed
          = (departures old new).renamed.map
              (fun pair => (pair.1.invocationName, pair.2.invocationName))
      ∧ report.added = (arrivals old new).map (·.invocationName)
      ∧ Classified old new
      ∧ (∀ scan, ∃ same, diff scan scan = .ok same ∧ same.isEmpty = true)
      ∧ (Cautious old new ↔ Unmatched old new) := by
  unfold diff at made
  split at made
  · cases made
  · cases made
    exact ⟨rfl, rfl, rfl, rfl, classified old new, diff_self, cautious_iff_unmatched old new⟩

def projectRecord (id name : String) : SnapshotRecord :=
  {
    skillId := id
    invocationName := name
    source := "project"
    status := "eligible"
    agentInvocable := true
    userInvocable := true
    contentHash := "c0"
  }

def projectScan (incomplete : List String) (records : List SnapshotRecord) : Snapshot :=
  {
    schema := "sr.roster-snapshot.v1"
    observed := { harness := "claude", workspace := "w", home := none }
    snapshot := "s"
    incompleteSources := incomplete
    allSourcesIncomplete := false
    records
  }

def renamedReport : Diff :=
  {
    schema := diffSchema
    oldSnapshot := "s"
    newSnapshot := "s"
    complete := true
    added := []
    removed := []
    unconfirmedRemovals := []
    renamed := [("alpha", "beta")]
    contentChanged := []
    restrictionChanged := []
    statusChanged := []
  }

/-- Witness: a skill of a project that was fully observed has another name now. -/
theorem diff_sound_iff_unmatched_renamed
    : Cautious (projectScan [] [projectRecord "id-alpha" "alpha"])
          (projectScan [] [projectRecord "id-beta" "beta"])
      ↔ Unmatched (projectScan [] [projectRecord "id-alpha" "alpha"])
          (projectScan [] [projectRecord "id-beta" "beta"]) := by
  have made : diff (projectScan [] [projectRecord "id-alpha" "alpha"])
      (projectScan [] [projectRecord "id-beta" "beta"]) = .ok renamedReport := by
    decide +kernel
  exact (diff_sound_iff_unmatched made).2.2.2.2.2.2

/-- A skill in a directory that could not be read is called renamed when a copy of it is new. -/
theorem diff_renames_unobserved
    : (diff (projectScan [] [projectRecord "id-alpha" "alpha"])
          (projectScan ["project"] [projectRecord "id-beta" "beta"])).map (·.renamed)
        = .ok [("alpha", "beta")]
      ∧ (projectScan ["project"] [projectRecord "id-beta" "beta"]).unobserved "project" = true
      ∧ ¬Cautious (projectScan [] [projectRecord "id-alpha" "alpha"])
          (projectScan ["project"] [projectRecord "id-beta" "beta"]) := by
  refine ⟨by decide +kernel, by decide +kernel, ?_⟩
  intro cautious
  have renamed := (cautious (projectRecord "id-alpha" "alpha") (by decide +kernel)
    (by decide +kernel)).2
  exact renamed (by decide +kernel)

end SkillRanker.Roster
