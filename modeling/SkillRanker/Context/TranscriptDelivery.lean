import SkillRanker.Context.TranscriptReads

/-! What repeated observations of a transcript that only grows keep.
A read that finds the record its watermark names goes on from the watermark, and no record is left
out. A read that does not find it takes the transcript for another one.
-/

namespace SkillRanker.Context
open SkillRanker.Library

variable {Value : Type} {format : RecordFormat Value}

-- Runs

structure Observed where
  identity : FileIdentity
  file : Bytes
  cursor : Option JsonlCursor
  snapshots : List JsonlSnapshot

/-- The transcript grows or is read. -/
inductive Observing
  | append (bytes : Bytes)
  | read

namespace Observed

def snapshot (format : RecordFormat Value) (observed : Observed) : JsonlSnapshot :=
  readSnapshot format observed.file observed.identity observed.cursor .observation

def act (format : RecordFormat Value) (observed : Observed) : Observing → Observed
  | .append bytes => { observed with file := observed.file ++ bytes }
  | .read =>
      { observed with
        cursor := some (observed.snapshot format).cursor
        snapshots := observed.snapshots ++ [observed.snapshot format] }

def run (format : RecordFormat Value) (actions : List Observing) (observed : Observed) : Observed :=
  actions.foldl (act format) observed

/-- A transcript that nothing has read yet. -/
def unread (identity : FileIdentity) (file : Bytes) : Observed :=
  { identity, file, cursor := none, snapshots := [] }

end Observed

-- Delivered records

/-- A snapshot has the event of a record, or that there is none and why. -/
def Delivers (format : RecordFormat Value) (snapshot : JsonlSnapshot) (byteOffset : Nat)
    (record : Bytes)
    : Prop :=
  match parseLine format record with
  | .ok event => event ∈ snapshot.events
  | .error kind => { byteOffset, kind } ∈ snapshot.skipped

def DeliveredUntil (format : RecordFormat Value) (file : Bytes) (snapshots : List JsonlSnapshot)
    (offset : Nat)
    : Prop :=
  ∀ index record, (completeLines newline file)[index]? = some record
    → extent ((completeLines newline file).take (index + 1)) ≤ offset
    → ∃ snapshot ∈ snapshots,
        Delivers format snapshot (extent ((completeLines newline file).take index)) record

variable {record : Bytes} {index : Nat} {records : List Bytes}

theorem mem_skippedRecords (byteOffset : Nat) {kind : SkipKind}
    (listed : records[index]? = some record) (parsed : parseLine format record = .error kind)
    : { byteOffset := byteOffset + extent (records.take index), kind }
      ∈ skippedRecords format byteOffset records := by
  induction records generalizing byteOffset index with
  | nil => cases listed
  | cons line rest ih =>
      rw [skippedRecords]
      cases index with
      | zero =>
          cases Option.some.inj listed
          rw [parsed]
          exact List.mem_cons_self
      | succ index =>
          have later := ih (byteOffset + (line.length + 1)) listed
          rw [Nat.add_assoc, ← extent_cons, ← List.take_succ_cons] at later
          split
          · exact later
          · exact List.mem_cons_of_mem _ later

theorem Lists.delivers {snapshot : JsonlSnapshot} {byteOffset : Nat} {before : Option EventId}
    (lists : Lists format snapshot byteOffset records before)
    (listed : records[index]? = some record)
    : Delivers format snapshot (byteOffset + extent (records.take index)) record := by
  unfold Delivers
  cases parsed : parseLine format record with
  | ok event =>
      rw [lists.events]
      exact mem_recordEvents.mpr ⟨record, List.mem_of_getElem? listed, parsed⟩
  | error kind =>
      rw [lists.skipped]
      exact mem_skippedRecords byteOffset listed parsed

-- The records of the file that a read lists

/-- A snapshot lists as many records of the file from a record on. -/
structure ListsRange (format : RecordFormat Value) (file : Bytes) (snapshot : JsonlSnapshot)
    (first count : Nat) (before : Option EventId)
    : Prop where
  within : first + count ≤ (completeLines newline file).length
  lists : Lists format snapshot (extent ((completeLines newline file).take first))
    (((completeLines newline file).drop first).take count) before

variable {file : Bytes} {snapshot : JsonlSnapshot} {before : Option EventId}
variable {count : Nat}

theorem ListsRange.cursor {first : Nat} (range : ListsRange format file snapshot first count before)
    : snapshot.cursor.byteOffset
      = extent ((completeLines newline file).take (first + count)) := by
  rw [range.lists.cursor, ← extent_append, ← List.take_add]

theorem ListsRange.delivers {first : Nat}
    (range : ListsRange format file snapshot first count before)
    (listed : (completeLines newline file)[index]? = some record) (from_first : first ≤ index)
    (to_last : index < first + count)
    : Delivers format snapshot (extent ((completeLines newline file).take index)) record := by
  obtain ⟨place, rfl⟩ := Nat.exists_eq_add_of_le from_first
  have listed : (((completeLines newline file).drop first).take count)[place]? = some record := by
    rw [List.getElem?_take, if_pos (by omega), List.getElem?_drop, listed]
  have delivered := range.lists.delivers listed
  rwa [List.take_take, Nat.min_eq_left (by omega), ← extent_append, ← List.take_add] at delivered

/-- A read whose window starts with records of the file lists a range of them. -/
theorem listsRange_window (start cap passed first : Nat)
    (lists : Lists format snapshot
      (start + extent ((completeLines newline ((file.drop start).take cap)).take passed))
      (((completeLines newline ((file.drop start).take cap)).drop passed).take
        nativeTranscriptTailRecords)
      before)
    (inside : passed ≤ fitting (completeLines newline (file.drop start)) cap)
    (place : start + extent ((completeLines newline (file.drop start)).take passed)
      = extent ((completeLines newline file).take first))
    (same : (completeLines newline (file.drop start)).drop passed
      = (completeLines newline file).drop first)
    (short : first ≤ (completeLines newline file).length)
    : ∃ count, ListsRange format file snapshot first count before := by
  rw [completeLines_take, List.take_take, Nat.min_eq_left inside, place, List.drop_take,
    List.take_take, same] at lists
  refine ⟨min (min nativeTranscriptTailRecords
    (fitting (completeLines newline (file.drop start)) cap - passed))
    ((completeLines newline file).length - first), ?_, ?_⟩
  · omega
  · have listed : ((completeLines newline file).drop first).take (min (min
        nativeTranscriptTailRecords
        (fitting (completeLines newline (file.drop start)) cap - passed))
        ((completeLines newline file).length - first))
        = ((completeLines newline file).drop first).take (min nativeTranscriptTailRecords
          (fitting (completeLines newline (file.drop start)) cap - passed)) := by
      rw [List.take_eq_take_iff, List.length_drop]
      omega
    rw [listed]
    exact lists

variable {start : Nat}

/-- The records before a start and those from there on are those before a boundary. -/
theorem recordsBetween_boundary (short : count ≤ (completeLines newline file).length)
    (behind : start ≤ extent ((completeLines newline file).take count))
    : count = (completeLines newline (file.take start)).length
        + recordsBetween file start (extent ((completeLines newline file).take count)) := by
  have room := extent_completeLines newline file
  have bound := extent_take_le (completeLines newline file) short
  rw [List.take_length] at bound
  have early : start ≤ (file.take (extent ((completeLines newline file).take count))).length := by
    rw [List.length_take]
    omega
  obtain ⟨counts, _⟩ := completeLines_cut newline early
  rwa [List.take_take, Nat.min_eq_left behind, List.drop_take, completeLines_take,
    List.length_take, fitting_extent short, Nat.min_eq_left short] at counts

theorem recordsBetween_pos (short : count ≤ (completeLines newline file).length)
    (behind : start < extent ((completeLines newline file).take count))
    : 0 < recordsBetween file start (extent ((completeLines newline file).take count)) := by
  have counts := recordsBetween_boundary short behind.le
  have room := extent_take_fitting (completeLines newline file) start
  have early : (completeLines newline (file.take start)).length
      = fitting (completeLines newline file) start := by
    rw [completeLines_take, List.length_take, Nat.min_eq_left (fitting_le_length _ _)]
  by_contra none
  rw [early, Nat.eq_zero_of_not_pos none, Nat.add_zero] at counts
  rw [← counts] at room
  omega

/-- Where the offset stands behind some records, a window that rewinds from it passes over no more
than those: it begins with records of the file at or before the offset.
-/
theorem listsRange_rewound {cap passed watermark : Nat}
    (lists : Lists format snapshot
      (start + extent ((completeLines newline ((file.drop start).take cap)).take passed))
      (((completeLines newline ((file.drop start).take cap)).drop passed).take
        nativeTranscriptTailRecords)
      before)
    (short : count ≤ (completeLines newline file).length)
    (boundary : watermark = extent ((completeLines newline file).take count))
    (behind : start ≤ watermark) (reach : watermark ≤ start + cap)
    (aligned : start = 0 ∨ 0 < passed) (few : passed ≤ recordsBetween file start watermark)
    : ∃ first listed, first ≤ count ∧ ListsRange format file snapshot first listed before := by
  subst boundary
  have inFile := extent_completeLines newline file
  have bound := extent_take_le (completeLines newline file) short
  rw [List.take_length] at bound
  have within : start ≤ file.length := by omega
  obtain ⟨lengths, places⟩ := completeLines_cut newline within
  have between := recordsBetween_boundary short behind
  have inside : recordsBetween file start (extent ((completeLines newline file).take count))
      ≤ fitting (completeLines newline (file.drop start)) cap := by
    rw [recordsBetween_eq, le_fitting_iff (fitting_le_length _ _)]
    exact Nat.le_trans (extent_take_fitting _ _) (by omega)
  have enough := fitting_le_length (completeLines newline (file.drop start)) cap
  have begins : start + extent ((completeLines newline (file.drop start)).take passed)
        = extent ((completeLines newline file).take
          ((completeLines newline (file.take start)).length + passed))
      ∧ (completeLines newline (file.drop start)).drop passed
        = (completeLines newline file).drop
          ((completeLines newline (file.take start)).length + passed) := by
    rcases Nat.eq_zero_or_pos passed with none | some
    · have fromStart : start = 0 := aligned.resolve_right (by omega)
      rw [none, fromStart]
      exact ⟨rfl, rfl⟩
    · exact places passed some (by omega)
  obtain ⟨listed, range⟩ := listsRange_window _ _ _ _ lists (by omega) begins.1 begins.2 (by omega)
  exact ⟨_, listed, by omega, range⟩

-- Where a resumed observation goes on

/-- Behind as many records, an offset that is no smaller is behind no fewer. -/
theorem le_of_extent_le {complete : List Bytes} {fewer more : Nat}
    (within : fewer ≤ complete.length)
    (extents : extent (complete.take fewer) ≤ extent (complete.take more))
    : fewer ≤ more := by
  by_contra later
  have further := extent_take_lt complete (Nat.lt_of_not_le later) within
  omega

/-- A rewound window passes over records before the watermark only, and over one that it may
begin in the middle of.
-/
theorem passedOver_rewound {watermark cap : Nat} (named : Bool) (within : watermark - start ≤ cap)
    (some : 0 < start → 0 < recordsBetween file start watermark)
    : (start = 0 ∨ 0 < passedOver ((file.drop start).take cap) start (decide (0 < start))
        (if named then .some watermark else none))
      ∧ passedOver ((file.drop start).take cap) start (decide (0 < start))
          (if named then .some watermark else none)
        ≤ recordsBetween file start watermark := by
  have cut : overlapCut ((file.drop start).take cap) start
      (if named then .some watermark else none) ≤ recordsBetween file start watermark := by
    split
    · rw [overlapCut_eq within]
      exact Nat.sub_le _ _
    · exact Nat.zero_le _
  generalize (if named then Option.some watermark else none) = overlapWatermark at cut ⊢
  unfold passedOver
  by_cases cutSome : 0 < overlapCut ((file.drop start).take cap) start overlapWatermark
  · rw [if_pos cutSome]
    exact ⟨Or.inr cutSome, cut⟩
  · rw [if_neg cutSome]
    rcases Nat.eq_zero_or_pos start with fromStart | rewound
    · rw [fromStart]
      exact ⟨Or.inl rfl, Nat.zero_le _⟩
    · rw [decide_eq_true rewound]
      exact ⟨Or.inr Nat.zero_lt_one, some rewound⟩

/-- An observation that trusts its watermark goes on from there. -/
theorem listsRange_resumed {identity : FileIdentity} {cursor : JsonlCursor}
    (continued : cursor.continues file identity .observation)
    (trusted : ¬Suspected format file cursor) (short : count ≤ (completeLines newline file).length)
    (boundary : cursor.byteOffset = extent ((completeLines newline file).take count))
    : ∃ first listed before, first ≤ count ∧ count ≤ first + listed
      ∧ ListsRange format file
        (readSnapshot format file identity (some cursor) .observation) first listed before := by
  rw [(readSnapshot_resumed format continued).2 trusted]
  split
  · have lists : Lists format (watermarkWindow format file identity cursor .observation) _ _ _ :=
      watermarkWindow_lists cursor
    obtain ⟨listed, range⟩ := listsRange_window cursor.byteOffset observationDeltaBytes 0 count
      (by simpa using lists) (Nat.zero_le _)
      (by rw [List.take_zero, extent_nil, Nat.add_zero, boundary])
      (by rw [List.drop_zero, boundary, completeLines_drop]) short
    exact ⟨count, listed, _, Nat.le_refl _, Nat.le_add_right _ _, range⟩
  · next further =>
    have lists := firstWindow_resumed format continued rfl rfl
    have overlap := overlap_within cursor.byteOffset
    have rewinds : 0 < cursor.byteOffset - observationRepairOverlapBytes
        → 0 < recordsBetween file (cursor.byteOffset - observationRepairOverlapBytes)
          cursor.byteOffset := by
      intro rewound
      have behind : cursor.byteOffset - observationRepairOverlapBytes
          < extent ((completeLines newline file).take count) := by
        have overlapSome : 0 < observationRepairOverlapBytes := by decide
        rw [← boundary]
        omega
      rw [boundary] at behind ⊢
      exact recordsBetween_pos short behind
    obtain ⟨aligned, few⟩ := passedOver_rewound cursor.lastEventId.isSome overlap rewinds
    obtain ⟨first, listed, early, range⟩ :=
      listsRange_rewound lists short boundary (Nat.sub_le _ _) (by omega) aligned few
    refine ⟨first, listed, _, early, ?_, range⟩
    have place := range.cursor
    rcases Nat.eq_zero_or_pos cursor.byteOffset with start | started
    · rw [start] at boundary
      have none : count ≤ 0 := le_of_extent_le short (by rw [← boundary]; exact Nat.zero_le _)
      omega
    · refine le_of_extent_le short ?_
      rw [← boundary, ← place]
      exact (Nat.lt_of_not_le fun stuck => further ⟨started, stuck⟩).le

end SkillRanker.Context
