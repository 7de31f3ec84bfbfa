import SkillRanker.Context.TranscriptReads

/-! When a read of a transcript gets past the record that ends next. -/

namespace SkillRanker.Context
open SkillRanker.Library

variable {Value : Type} {format : RecordFormat Value}
variable {file : Bytes} {snapshot : JsonlSnapshot} {before : Option EventId}

-- Runs

/-- A transcript file, and the cursor that the reads so far have left. -/
structure Transcript where
  identity : FileIdentity
  file : Bytes
  cursor : Option JsonlCursor

/-- What happens to a transcript: another file takes its place, which may be the same one with
more in it, or it is read.
-/
inductive TranscriptAction
  | put (identity : FileIdentity) (file : Bytes)
  | read (kind : CursorKind)

namespace Transcript

def offset (transcript : Transcript) : Nat := transcript.cursor.elim 0 (·.byteOffset)

def read (format : RecordFormat Value) (kind : CursorKind) (transcript : Transcript)
    : Transcript :=
  { transcript with
    cursor := some (readSnapshot format transcript.file transcript.identity transcript.cursor
      kind).cursor }

def act (format : RecordFormat Value) (transcript : Transcript) : TranscriptAction → Transcript
  | .put identity file => { transcript with identity, file }
  | .read kind => transcript.read format kind

def run (format : RecordFormat Value) (actions : List TranscriptAction) (transcript : Transcript)
    : Transcript :=
  actions.foldl (act format) transcript

/-- A transcript that nothing has read yet. -/
def unread (identity : FileIdentity) (file : Bytes) : Transcript :=
  { identity, file, cursor := none }

-- Which records a read can reach

/-- The read gets to an end behind the offset.
A read from the cursor reaches as many bytes as its cap. A read of the whole file reaches the
first bytes and the first records, and one of a tail the first records of the tail.
-/
def Reaches (format : RecordFormat Value) (transcript : Transcript) (kind : CursorKind)
    (recordEnd : Nat)
    : Prop :=
  let file := transcript.file
  let fromStart := recordEnd ≤ observationDeltaBytes
    ∧ recordsBetween file 0 transcript.offset < nativeTranscriptTailRecords
  match transcript.cursor.filter (·.continues file transcript.identity kind), kind with
  | some cursor, .ranking => recordEnd ≤ cursor.byteOffset + nativeTranscriptTailBytes
  | some cursor, .observation =>
      (Suspected format file cursor → fromStart)
      ∧ (¬Suspected format file cursor → recordEnd ≤ cursor.byteOffset + observationDeltaBytes)
  | none, .observation => fromStart
  | none, .ranking =>
      let tail := file.length - nativeTranscriptTailBytes
      tail ≤ transcript.offset
      → recordsBetween file tail transcript.offset
        < nativeTranscriptTailRecords + (if 0 < tail then 1 else 0)

-- A read passes what it reaches

variable {transcript : Transcript} {record : Bytes} {rest : List Bytes}

/-- A record behind an offset lies within the file. -/
theorem next_within {offset : Nat}
    (next : completeLines newline (file.drop offset) = record :: rest)
    : offset + record.length + 1 ≤ file.length := by
  have room := extent_completeLines newline (file.drop offset)
  rw [next, extent_cons, List.length_drop] at room
  omega

/-- The read of a whole file passes what is among its first bytes and its first records. -/
theorem passes_start {offset : Nat}
    (lists : Lists format snapshot 0
      ((completeLines newline (file.take observationDeltaBytes)).take nativeTranscriptTailRecords)
      before)
    (next : completeLines newline (file.drop offset) = record :: rest)
    : offset < snapshot.cursor.byteOffset
      ↔ offset + record.length + 1 ≤ observationDeltaBytes
        ∧ recordsBetween file 0 offset < nativeTranscriptTailRecords := by
  have within := next_within next
  have lists : Lists format snapshot
      (0 + extent ((completeLines newline ((file.drop 0).take observationDeltaBytes)).take 0))
      (((completeLines newline ((file.drop 0).take observationDeltaBytes)).drop 0).take
        nativeTranscriptTailRecords)
      before := by
    simpa using lists
  have passes := lists.passes_iff 0 observationDeltaBytes (Nat.zero_le offset) (by omega) next
  simpa using passes

/-- A read from the offset passes what the cap of its bytes reaches. -/
theorem passes_watermark {offset cap : Nat}
    (lists : Lists format snapshot offset
      ((completeLines newline ((file.drop offset).take cap)).take nativeTranscriptTailRecords)
      before)
    (next : completeLines newline (file.drop offset) = record :: rest)
    : offset < snapshot.cursor.byteOffset ↔ offset + record.length + 1 ≤ offset + cap := by
  have within := next_within next
  have lists : Lists format snapshot
      (offset + extent ((completeLines newline ((file.drop offset).take cap)).take 0))
      (((completeLines newline ((file.drop offset).take cap)).drop 0).take
        nativeTranscriptTailRecords)
      before := by
    simpa using lists
  have passes := lists.passes_iff 0 cap (Nat.le_refl offset) (by omega) next
  rw [passes, recordsBetween_self]
  simp [nativeTranscriptTailRecords]

theorem offset_of_continued {kind : CursorKind} {cursor : JsonlCursor}
    (continued : transcript.cursor.filter
      (·.continues transcript.file transcript.identity kind) = some cursor)
    : transcript.cursor = some cursor
      ∧ cursor.continues transcript.file transcript.identity kind
      ∧ transcript.offset = cursor.byteOffset := by
  obtain ⟨held, continues⟩ := Option.filter_eq_some_iff.mp continued
  refine ⟨held, continues, ?_⟩
  rw [offset, held]
  rfl

/-- A ranking read of a tail passes what is among the first records of the tail. -/
theorem passes_tail {offset tail : Nat} (begins : tail = file.length - nativeTranscriptTailBytes)
    (lists : Lists format snapshot
      (tail + extent ((completeLines newline
        ((file.drop tail).take nativeTranscriptTailBytes)).take (decide (0 < tail)).toNat))
      (((completeLines newline ((file.drop tail).take nativeTranscriptTailBytes)).drop
        (decide (0 < tail)).toNat).take nativeTranscriptTailRecords)
      before)
    (next : completeLines newline (file.drop offset) = record :: rest)
    : offset < snapshot.cursor.byteOffset
      ↔ (tail ≤ offset
        → recordsBetween file tail offset
          < nativeTranscriptTailRecords + (if 0 < tail then 1 else 0)) := by
  have within := next_within next
  have counted : (decide (0 < tail)).toNat = if 0 < tail then 1 else 0 := by
    split <;> simp_all
  by_cases behind : tail ≤ offset
  · rw [lists.passes_iff _ _ behind (by omega) next, counted]
    constructor
    · intro reached _
      omega
    · intro few
      exact ⟨by omega, by have := few behind; omega⟩
  · refine iff_of_true ?_ fun early => absurd early behind
    rw [lists.cursor]
    omega

/-- A read gets past the record that ends next exactly where it reaches the end of it. -/
theorem read_passes_iff (kind : CursorKind)
    (next : completeLines newline (transcript.file.drop transcript.offset) = record :: rest)
    : transcript.offset < (transcript.read format kind).offset
      ↔ Reaches format transcript kind (transcript.offset + record.length + 1) := by
  have left : (transcript.read format kind).offset = (readSnapshot format transcript.file
      transcript.identity transcript.cursor kind).cursor.byteOffset := rfl
  rw [left]
  unfold Reaches
  dsimp only
  cases continued : transcript.cursor.filter
      (·.continues transcript.file transcript.identity kind) with
  | none =>
      rw [readSnapshot_fresh continued]
      cases kind with
      | observation => exact passes_start (firstWindow_fresh continued) next
      | ranking =>
          have begins : transcript.file.length - nativeTranscriptTailBytes
              = transcript.file.length - min transcript.file.length nativeTranscriptTailBytes := by
            omega
          exact passes_tail rfl (firstWindow_tail continued begins) next
  | some cursor =>
      obtain ⟨held, continues, place⟩ := offset_of_continued continued
      cases kind with
      | ranking =>
          rw [held, readSnapshot_ranking]
          rw [place] at next ⊢
          exact passes_watermark (firstWindow_ranking continues) next
      | observation =>
          obtain ⟨starts, resumes⟩ := readSnapshot_resumed format continues
          by_cases suspected : Suspected format transcript.file cursor
          · rw [held, starts suspected]
            simp only [suspected, forall_const, not_true_eq_false, false_implies, and_true]
            exact passes_start (rebuiltWindow_lists cursor) next
          · rw [held, resumes suspected]
            simp only [suspected, false_implies, not_false_eq_true, forall_const, true_and]
            rw [place] at next ⊢
            have within := next_within next
            have passes := (firstWindow_resumed format continues rfl rfl).passes_iff _ _
              (Nat.sub_le _ _) (by omega) next
            split
            · exact passes_watermark (watermarkWindow_lists cursor) next
            · next further =>
              rcases Nat.eq_zero_or_pos cursor.byteOffset with start | started
              · rw [passes, start, Nat.zero_sub, recordsBetween_self]
                simp [nativeTranscriptTailRecords]
              · have past : cursor.byteOffset < (firstWindow format transcript.file
                    transcript.identity (some cursor) .observation).cursor.byteOffset :=
                  Nat.lt_of_not_le fun short => further ⟨started, short⟩
                refine iff_of_true past ?_
                have reached := (passes.mp past).1
                omega

-- Progress

/-- The next read advances the offset if a complete record is behind it. -/
def Progresses (format : RecordFormat Value) (kind : CursorKind) (transcript : Transcript)
    : Prop :=
  ∀ record rest, completeLines newline (transcript.file.drop transcript.offset) = record :: rest
    → transcript.offset < (transcript.read format kind).offset

def ReachesNext (format : RecordFormat Value) (kind : CursorKind) (transcript : Transcript)
    : Prop :=
  ∀ record rest, completeLines newline (transcript.file.drop transcript.offset) = record :: rest
    → Reaches format transcript kind (transcript.offset + record.length + 1)

/-- Reads that each advance come to the end of the complete records.
Every one takes a byte more of the file, by induction on the reads.
-/
theorem reads_finish {kind : CursorKind}
    (progresses : ∀ reads, Progresses format kind ((read format kind)^[reads] transcript))
    : ∃ reads, completeLines newline
        (((read format kind)^[reads] transcript).file.drop
          ((read format kind)^[reads] transcript).offset) = [] := by
  by_contra unfinished
  have same (reads : Nat) : ((read format kind)^[reads] transcript).file = transcript.file := by
    induction reads with
    | zero => rfl
    | succ reads ih => rw [Function.iterate_succ_apply', ← ih, read]
  have pending (reads : Nat) : ∃ record rest,
      completeLines newline (((read format kind)^[reads] transcript).file.drop
        ((read format kind)^[reads] transcript).offset) = record :: rest :=
    List.exists_cons_of_ne_nil fun finished => unfinished ⟨reads, finished⟩
  have advanced (reads : Nat) : reads ≤ ((read format kind)^[reads] transcript).offset := by
    induction reads with
    | zero => exact Nat.zero_le _
    | succ reads ih =>
        obtain ⟨record, rest, next⟩ := pending reads
        have further := progresses reads record rest next
        rw [Function.iterate_succ_apply']
        omega
  obtain ⟨record, rest, next⟩ := pending transcript.file.length
  have within := next_within next
  have behind := advanced transcript.file.length
  rw [same] at within
  omega

/-- In every state of every run the next read advances past a complete record exactly where it
reaches the end of that record, and reads that always reach it come to the last of them.
-/
theorem read_progresses_iff (format : RecordFormat Value) (identity : FileIdentity)
    (file : Bytes) (actions : List TranscriptAction) (kind : CursorKind)
    : (Progresses format kind ((unread identity file).run format actions)
        ↔ ReachesNext format kind ((unread identity file).run format actions))
      ∧ ((∀ reads, ReachesNext format kind
          ((read format kind)^[reads] ((unread identity file).run format actions)))
        → ∃ reads, completeLines newline
            (((read format kind)^[reads] ((unread identity file).run format actions)).file.drop
              ((read format kind)^[reads] ((unread identity file).run format actions)).offset)
          = []) := by
  have every (transcript : Transcript)
      : Progresses format kind transcript ↔ ReachesNext format kind transcript :=
    forall₂_congr fun _ _ => forall_congr' fun next => read_passes_iff kind next
  exact ⟨every _, fun reaches => reads_finish fun reads => (every _).mpr (reaches reads)⟩

/-- An observation does not get past a first record that fills its window. -/
theorem read_stuck (start : transcript.offset = 0)
    (next : completeLines newline transcript.file = record :: rest)
    (long : observationDeltaBytes ≤ record.length)
    : (transcript.read format .observation).offset = 0 := by
  have next : completeLines newline (transcript.file.drop transcript.offset) = record :: rest := by
    rw [start, List.drop_zero, next]
  by_contra moved
  have passed : transcript.offset < (transcript.read format .observation).offset := by omega
  have reached := (read_passes_iff .observation next).mp passed
  unfold Reaches at reached
  dsimp only at reached
  cases continued : transcript.cursor.filter
      (·.continues transcript.file transcript.identity .observation) with
  | none =>
      rw [continued] at reached
      have few := reached.1
      omega
  | some cursor =>
      rw [continued] at reached
      obtain ⟨_, _, place⟩ := offset_of_continued continued
      by_cases suspected : Suspected format transcript.file cursor
      · have few := (reached.1 suspected).1
        omega
      · have few := reached.2 suspected
        omega

/-- A format whose records never hold an event. -/
def wordless : RecordFormat Unit where
  decodeJson := fun _ => .error .invalidJson
  isUnmodeledRecord := fun _ => false
  eventFromValue := fun _ => none

def longLine : Transcript :=
  unread ⟨1, 1⟩ (List.replicate observationDeltaBytes 120 ++ [newline])

theorem lines_single {line : Bytes} (clean : newline ∉ line)
    : completeLines newline (line ++ [newline]) = [line] := by
  rw [completeLines, lines_cons clean]
  rfl

/-- The long line is a complete record, and no number of observations gets past it. -/
theorem longLine_never_read
    : completeLines newline (longLine.file.drop longLine.offset)
        = [List.replicate observationDeltaBytes 120]
      ∧ ∀ reads, ((read wordless .observation)^[reads] longLine).offset = 0 := by
  have clean : newline ∉ List.replicate observationDeltaBytes 120 := by
    rw [List.mem_replicate]
    exact fun listed => absurd listed.2 (by decide)
  have next : completeLines newline longLine.file = [List.replicate observationDeltaBytes 120] :=
    lines_single clean
  have start : longLine.offset = 0 := rfl
  refine ⟨by rw [start, List.drop_zero, next], fun reads => ?_⟩
  have same (reads : Nat)
      : ((read wordless .observation)^[reads] longLine).file = longLine.file := by
    induction reads with
    | zero => rfl
    | succ reads ih => rw [Function.iterate_succ_apply', ← ih, read]
  induction reads with
  | zero => exact start
  | succ reads ih =>
      rw [Function.iterate_succ_apply']
      refine read_stuck ih (by rw [same, next]) ?_
      rw [List.length_replicate]

end Transcript

end SkillRanker.Context
