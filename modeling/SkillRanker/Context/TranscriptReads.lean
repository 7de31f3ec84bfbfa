import SkillRanker.Context.Jsonl

/-! What one bounded read of a transcript lists, and where it leaves its cursor. -/

namespace SkillRanker.Context
open SkillRanker.Library

variable {Value : Type} {format : RecordFormat Value}
variable {offset start : Nat} {previous : Option JsonlCursor} {cursor : JsonlCursor}

def recordEvent (format : RecordFormat Value) (line : Bytes) : Option NormalizedEvent :=
  (parseLine format line).toOption

def skippedRecords (format : RecordFormat Value) : Nat → List Bytes → List SkippedRecord
  | _, [] => []
  | byteOffset, line :: rest =>
      let later := skippedRecords format (byteOffset + (line.length + 1)) rest
      match parseLine format line with
      | .ok _ => later
      | .error kind => { byteOffset, kind } :: later

def lastEventIdAfter (format : RecordFormat Value) (before : Option EventId)
    (records : List Bytes)
    : Option EventId :=
  records.foldl (fun last line => ((recordEvent format line).bind (·.eventId)).or last) before

/-- A snapshot lists records that begin at an offset, and its cursor is behind them. -/
structure Lists (format : RecordFormat Value) (snapshot : JsonlSnapshot) (byteOffset : Nat)
    (records : List Bytes) (before : Option EventId)
    : Prop where
  cursor : snapshot.cursor.byteOffset = byteOffset + extent records
  events : snapshot.events = records.filterMap (recordEvent format)
  skipped : snapshot.skipped = skippedRecords format byteOffset records
  lastEventId : snapshot.cursor.lastEventId = lastEventIdAfter format before records

-- The loop over the records

variable (format)

/-- The loop lists as many records as it has room for, by induction on the records. -/
theorem readRecords_lists {recordCap : Nat} (start room : Nat) (records : List Bytes)
    (read : RecordsRead) (behind : read.completeEnd = start + read.offset)
    (left : read.events.length + read.skipped.length + room = recordCap)
    : (readRecords format recordCap start records read).completeEnd
        = start + read.offset + extent (records.take room)
      ∧ (readRecords format recordCap start records read).events
        = read.events ++ (records.take room).filterMap (recordEvent format)
      ∧ (readRecords format recordCap start records read).skipped
        = read.skipped ++ skippedRecords format (start + read.offset) (records.take room)
      ∧ (readRecords format recordCap start records read).lastEventId
        = lastEventIdAfter format read.lastEventId (records.take room) := by
  induction records generalizing read room with
  | nil => simp [readRecords, skippedRecords, lastEventIdAfter, behind]
  | cons line rest ih =>
      rw [readRecords]
      cases room with
      | zero =>
          rw [if_pos (by omega)]
          simp [skippedRecords, lastEventIdAfter]
      | succ room =>
          rw [if_neg (by omega), List.take_succ_cons, extent_cons, skippedRecords]
          cases parsed : parseLine format line with
          | ok event =>
              have listed : recordEvent format line = some event := by
                rw [recordEvent, parsed]
                rfl
              have counted : ((read.keep event).advance start line.length).events.length
                  + ((read.keep event).advance start line.length).skipped.length + room
                  = recordCap := by
                simp only [RecordsRead.keep, RecordsRead.advance, List.length_append,
                  List.length_singleton]
                omega
              obtain ⟨place, events, skipped, last⟩ :=
                ih room ((read.keep event).advance start line.length) rfl counted
              refine ⟨?_, ?_, ?_, ?_⟩
              · rw [place]
                simp only [RecordsRead.advance, RecordsRead.keep]
                omega
              · rw [events, List.filterMap_cons, listed]
                simp [RecordsRead.advance, RecordsRead.keep]
              · rw [skipped]
                simp [RecordsRead.advance, RecordsRead.keep, Nat.add_assoc]
              · rw [last, lastEventIdAfter, lastEventIdAfter, List.foldl_cons, listed]
                rfl
          | error kind =>
              have listed : recordEvent format line = none := by
                rw [recordEvent, parsed]
                rfl
              have counted : ((read.skip (start + read.offset) kind).advance start
                    line.length).events.length
                  + ((read.skip (start + read.offset) kind).advance start
                    line.length).skipped.length + room
                  = recordCap := by
                simp only [RecordsRead.skip, RecordsRead.advance, List.length_append,
                  List.length_singleton]
                omega
              obtain ⟨place, events, skipped, last⟩ :=
                ih room ((read.skip (start + read.offset) kind).advance start line.length) rfl
                  counted
              refine ⟨?_, ?_, ?_, ?_⟩
              · rw [place]
                simp only [RecordsRead.advance, RecordsRead.skip]
                omega
              · rw [events, List.filterMap_cons, listed]
                rfl
              · rw [skipped]
                simp [RecordsRead.advance, RecordsRead.skip, Nat.add_assoc]
              · rw [last, lastEventIdAfter, lastEventIdAfter, List.foldl_cons, listed]
                rfl

-- Windows

/-- A window lists its records from a record on.
The record starts what is left of the window past an offset.
-/
theorem parseWindow_lists_from (buf : Bytes) (start : Nat) (align : Bool) (context : WindowContext)
    (first : (if align then (buf.idxOf? newline).map (· + 1) else some 0) = some offset)
    : Lists format (parseWindow format buf start align context) (start + offset)
        ((completeLines newline (buf.drop offset)).take nativeTranscriptTailRecords)
        context.lastEventId := by
  obtain ⟨place, events, skipped, last⟩ :=
    readRecords_lists format start nativeTranscriptTailRecords
      (completeLines newline (buf.drop offset))
      ⟨offset, context.lastEventId, [], [], [], [], start + offset, false⟩ rfl
      (Nat.zero_add nativeTranscriptTailRecords)
  unfold parseWindow
  simp only [first]
  exact ⟨place, events, skipped, last⟩

/-- A window that skips a first record that may be cut lists the complete records after it. -/
theorem parseWindow_lists (buf : Bytes) (start : Nat) (align : Bool) (context : WindowContext)
    : Lists format (parseWindow format buf start align context)
        (start + extent ((completeLines newline buf).take align.toNat))
        (((completeLines newline buf).drop align.toNat).take nativeTranscriptTailRecords)
        context.lastEventId := by
  cases align with
  | false =>
      have whole := parseWindow_lists_from format buf start false context rfl
      simpa using whole
  | true =>
      obtain ⟨complete, left, clean, rfl⟩ := exists_lines newline buf
      rw [completeLines.eq_1 newline (_ ++ left), lines_eq clean]
      cases complete with
      | nil =>
          have none : left.idxOf? newline = Option.none := List.idxOf?_eq_none_iff.mpr clean.left
          unfold parseWindow
          simp only [written_nil, List.nil_append, none]
          exact ⟨rfl, rfl, rfl, rfl⟩
      | cons line rest =>
          have ends : (written newline (line :: rest) ++ left).idxOf? newline
              = some line.length := by
            rw [written_cons, List.append_assoc, List.cons_append,
              idxOf?_line (clean.lines line List.mem_cons_self)]
          have past : (written newline (line :: rest) ++ left).drop (line.length + 1)
              = written newline rest ++ left := by
            rw [written_cons, List.append_assoc, List.drop_length_add_append, List.cons_append,
              List.drop_one, List.tail_cons]
          have first : (if true then
              ((written newline (line :: rest) ++ left).idxOf? newline).map (· + 1) else some 0)
              = some (line.length + 1) := by
            rw [ends]
            rfl
          have listed := parseWindow_lists_from format (written newline (line :: rest) ++ left)
            start true context first
          rw [past, completeLines, lines_eq clean.tail] at listed
          simpa using listed

variable {format}

/-- The overlap is cut to its newest records: the others are behind the offset. -/
theorem overlapOffset_eq (buf : Bytes) (overlapLen recordCap : Nat)
    : overlapOffset buf overlapLen recordCap
      = extent ((completeLines newline buf).take
          ((completeLines newline (buf.take overlapLen)).length - recordCap / 2)) := by
  have inside : completeLines newline (buf.take overlapLen) = _ := completeLines_take buf overlapLen
  obtain ⟨complete, left, clean, whole⟩ := exists_lines newline (buf.take overlapLen)
  have listed : completeLines newline (buf.take overlapLen) = complete := by
    rw [whole, completeLines, lines_eq clean]
  rw [listed] at inside ⊢
  have early : (completeLines newline buf).take (complete.length - recordCap / 2)
      = complete.take (complete.length - recordCap / 2) := by
    have size := congrArg List.length inside
    rw [List.length_take] at size
    have short : complete.length - recordCap / 2
        ≤ fitting (completeLines newline buf) overlapLen := by omega
    rw [← Nat.min_eq_left short, ← List.take_take, ← inside, Nat.min_eq_left short]
  rw [early, overlapOffset, whole, separators_eq 0 clean]
  by_cases cut : recordCap / 2 < complete.length
  · obtain ⟨last, found, place⟩ := lineEnds_getElem? 0
      (show complete.length - 1 - recordCap / 2 < complete.length by omega)
    rw [List.getElem?_reverse (by simpa using cut), List.length_map, lineEnds_length,
      List.getElem?_map, found]
    simp only [Option.map_some]
    rw [place, Nat.zero_add]
    congr 2
    omega
  · rw [List.getElem?_eq_none (by simpa using Nat.le_of_not_lt cut),
      Nat.sub_eq_zero_of_le (Nat.le_of_not_lt cut)]
    rfl

def overlapCut (buf : Bytes) (start : Nat) (overlapWatermark : Option Nat) : Nat :=
  overlapWatermark.elim 0 fun watermark =>
    (completeLines newline (buf.take (watermark - start))).length - nativeTranscriptTailRecords / 2

/-- How many records a window passes over: those that are cut from the overlap, or a first one
that it may not begin with.
-/
def passedOver (buf : Bytes) (start : Nat) (align : Bool) (overlapWatermark : Option Nat)
    : Nat :=
  if 0 < overlapCut buf start overlapWatermark then overlapCut buf start overlapWatermark
  else align.toNat

variable {buf : Bytes}

theorem parseWindow_lists_cut {align : Bool} (overlapWatermark : Option Nat)
    {context : WindowContext}
    (cut : offset = extent ((completeLines newline buf).take
      (overlapCut buf start overlapWatermark)))
    : Lists format
        (parseWindow format (buf.drop offset) (start + offset) (decide (offset = 0) && align)
          context)
        (start + extent ((completeLines newline buf).take
          (passedOver buf start align overlapWatermark)))
        (((completeLines newline buf).drop (passedOver buf start align overlapWatermark)).take
          nativeTranscriptTailRecords)
        context.lastEventId := by
  unfold passedOver
  split
  · next some =>
    have within : overlapCut buf start overlapWatermark ≤ (completeLines newline buf).length := by
      cases overlapWatermark with
      | none => exact Nat.zero_le _
      | some watermark =>
          rw [overlapCut, Option.elim_some, completeLines_take, List.length_take]
          omega
    have behind := extent_take_lt (completeLines newline buf) some within
    have started : decide (offset = 0) = false := by
      rw [List.take_zero, extent_nil, ← cut] at behind
      exact decide_eq_false behind.ne'
    have listed := parseWindow_lists format (buf.drop offset) (start + offset) false context
    rw [cut, completeLines_drop, ← cut] at listed
    rw [started, Bool.false_and, ← cut]
    simpa using listed
  · next none =>
    rw [Nat.eq_zero_of_not_pos none, List.take_zero, extent_nil] at cut
    rw [cut, decide_eq_true rfl, Bool.true_and, List.drop_zero, Nat.add_zero]
    exact parseWindow_lists format buf start align context

variable {overlapWatermark : Option Nat} {window : ReadWindow}
variable {file : Bytes}

/-- A read lists the records of its window that it does not pass over. -/
theorem readWindow_lists (current : window.snapshotLen = file.length)
    (bytes : buf = (file.drop window.start).take window.cap)
    (overlap : overlapWatermark.isSome → window.kind = .observation)
    : Lists format (readWindow format file window overlapWatermark)
        (window.start + extent ((completeLines newline buf).take
          (passedOver buf window.start window.alignToRecord overlapWatermark)))
        (((completeLines newline buf).drop
          (passedOver buf window.start window.alignToRecord overlapWatermark)).take
            nativeTranscriptTailRecords)
        window.lastEventId := by
  have whole : (file.drop window.start).take (min (window.snapshotLen - window.start) window.cap)
      = buf := by
    rw [bytes, current, ← List.length_drop, List.take_eq_take_iff]
    omega
  unfold readWindow
  simp only [whole]
  refine parseWindow_lists_cut overlapWatermark ?_
  cases overlapWatermark with
  | none => simp [overlapCut]
  | some watermark =>
      have same : buf.take (min (watermark - window.start) buf.length)
          = buf.take (watermark - window.start) := by
        rw [List.take_eq_take_iff]
        omega
      rw [overlap rfl]
      simp only [overlapOffset_eq, same, overlapCut, Option.elim_some, CursorKind.recordCap]

-- How far a read gets

def recordsBetween (file : Bytes) (start finish : Nat) : Nat :=
  (completeLines newline ((file.drop start).take (finish - start))).length

theorem recordsBetween_eq (file : Bytes) (start finish : Nat)
    : recordsBetween file start finish
      = fitting (completeLines newline (file.drop start)) (finish - start) := by
  rw [recordsBetween, completeLines_take, List.length_take,
    Nat.min_eq_left (fitting_le_length _ _)]

@[simp]
theorem recordsBetween_self (file : Bytes) (offset : Nat) : recordsBetween file offset offset = 0 := by
  simp [recordsBetween, completeLines, lines]

variable {snapshot : JsonlSnapshot} {before : Option EventId}

/-- A read that lists the records of its window stops behind the last of them. -/
theorem Lists.cursor_eq {passed cap : Nat} {lines : List Bytes}
    (lists : Lists format snapshot
      (start + extent ((lines.take (fitting lines cap)).take passed))
      (((lines.take (fitting lines cap)).drop passed).take nativeTranscriptTailRecords) before)
    : snapshot.cursor.byteOffset = start
        + extent (lines.take (min (passed + nativeTranscriptTailRecords) (fitting lines cap))) := by
  rw [lists.cursor, Nat.add_assoc, ← extent_append, ← List.take_add, List.take_take]

/-- The record that ends next behind an offset, among the lines from an earlier start. -/
theorem extent_next {record : Bytes} {rest : List Bytes} (behind : start ≤ offset)
    (within : offset ≤ file.length)
    (next : completeLines newline (file.drop offset) = record :: rest)
    : recordsBetween file start offset < (completeLines newline (file.drop start)).length
      ∧ start + extent ((completeLines newline (file.drop start)).take
          (recordsBetween file start offset + 1))
        = offset + record.length + 1 := by
  have inside : offset - start ≤ (file.drop start).length := by
    rw [List.length_drop]
    omega
  obtain ⟨lengths, places⟩ := completeLines_cut newline inside
  rw [List.drop_drop, Nat.add_sub_cancel' behind, next] at lengths places
  obtain ⟨place, _⟩ := places 1 (Nat.zero_lt_one) (by simp)
  rw [List.take_succ_cons, List.take_zero, extent_cons, extent_nil] at place
  rw [List.length_cons] at lengths
  unfold recordsBetween
  omega

/-- A read gets past an offset where the record that ends next is among those it lists:
it ends within the window, and the cap of the records leaves room for it.
-/
theorem Lists.passes_iff (passed cap : Nat) {record : Bytes} {rest : List Bytes}
    (behind : start ≤ offset) (within : offset ≤ file.length)
    (lists : Lists format snapshot
      (start + extent ((completeLines newline ((file.drop start).take cap)).take passed))
      (((completeLines newline ((file.drop start).take cap)).drop passed).take
        nativeTranscriptTailRecords)
      before)
    (next : completeLines newline (file.drop offset) = record :: rest)
    : offset < snapshot.cursor.byteOffset
      ↔ offset + record.length + 1 ≤ start + cap
        ∧ recordsBetween file start offset < passed + nativeTranscriptTailRecords := by
  obtain ⟨short, place⟩ := extent_next behind within next
  rw [completeLines_take] at lists
  rw [lists.cursor_eq]
  have short' := fitting_le_length (completeLines newline (file.drop start)) cap
  have listed : _ ≤ fitting _ (offset - start) ↔ _ := le_fitting_iff
    (Nat.le_trans (Nat.min_le_right (passed + nativeTranscriptTailRecords) _) short')
  rw [← recordsBetween_eq] at listed
  have fits : _ ≤ fitting _ cap ↔ _ := le_fitting_iff (Nat.succ_le_of_lt short)
  rw [Nat.succ_eq_add_one] at fits
  omega

-- What a snapshot reads

/-- The records that a resumed observation lists first. The one that the overlap may begin in
the middle of is passed over, and so are all but the newest before the watermark.
-/
def rereadRecords (file : Bytes) (watermark : Nat) : List Bytes :=
  let start := watermark - observationRepairOverlapBytes
  let window := completeLines newline ((file.drop start).take observationDeltaBytes)
  let newest := recordsBetween file start watermark - nativeTranscriptTailRecords / 2
  (window.drop (max 1 newest)).take nativeTranscriptTailRecords

/-- The file is taken for another one: the record that the watermark names is not found. -/
def Suspected (format : RecordFormat Value) (file : Bytes) (cursor : JsonlCursor) : Prop :=
  observationRepairOverlapBytes < cursor.byteOffset
  ∧ ∃ expected, cursor.lastEventId = some expected
    ∧ ∀ record ∈ rereadRecords file cursor.byteOffset, ∀ event,
      parseLine format record = .ok event → event.eventId ≠ some expected

variable {file : Bytes} {identity : FileIdentity} {kind : CursorKind}

theorem readSnapshot_ranking (previous : Option JsonlCursor)
    : readSnapshot format file identity previous .ranking
      = firstWindow format file identity previous .ranking := by
  unfold readSnapshot
  rfl

/-- A read without a cursor to continue is its first window. -/
theorem readSnapshot_fresh
    (fresh : previous.filter (fun cursor => cursor.continues file identity kind) = none)
    : readSnapshot format file identity previous kind
      = firstWindow format file identity previous kind := by
  cases kind with
  | ranking => exact readSnapshot_ranking previous
  | observation =>
      have start : readStart file identity previous .observation
          = (0, previous.isSome, false) := by
        unfold readStart
        rw [fresh]
      unfold readSnapshot
      rw [start]
      cases previous <;> rfl

theorem readWindow_ranking (ranking : window.kind = .ranking)
    : readWindow format file window overlapWatermark = readWindow format file window none := by
  unfold readWindow
  rw [ranking]

/-- A ranking read from a cursor lists the records behind it. -/
theorem firstWindow_ranking (continued : cursor.continues file identity .ranking)
    : Lists format (firstWindow format file identity (some cursor) .ranking) cursor.byteOffset
        ((completeLines newline
          ((file.drop cursor.byteOffset).take nativeTranscriptTailBytes)).take
            nativeTranscriptTailRecords)
        cursor.lastEventId := by
  have kept : (some cursor).filter (fun cursor => cursor.continues file identity .ranking)
      = some cursor := Option.filter_some_pos continued
  have start : readStart file identity (some cursor) .ranking
      = (cursor.byteOffset, false, false) := by
    unfold readStart
    rw [kept]
  unfold firstWindow
  rw [start]
  dsimp only
  rw [readWindow_ranking rfl]
  exact readWindow_lists rfl rfl fun some => nomatch some

/-- An observation without a cursor to continue lists the first records. -/
theorem firstWindow_fresh
    (fresh : previous.filter (fun cursor => cursor.continues file identity .observation) = none)
    : Lists format (firstWindow format file identity previous .observation) 0
        ((completeLines newline (file.take observationDeltaBytes)).take
          nativeTranscriptTailRecords)
        none := by
  have start : readStart file identity previous .observation = (0, previous.isSome, false) := by
    unfold readStart
    rw [fresh]
  unfold firstWindow
  rw [start]
  cases previous with
  | none => exact readWindow_lists rfl (List.drop_zero ▸ rfl) (fun some => nomatch some)
  | some cursor => exact readWindow_lists rfl (List.drop_zero ▸ rfl) (fun some => nomatch some)

/-- A ranking read without a cursor to continue lists records of the tail. -/
theorem firstWindow_tail {tail : Nat}
    (fresh : previous.filter (fun cursor => cursor.continues file identity .ranking) = none)
    (begins : tail = file.length - min file.length nativeTranscriptTailBytes)
    : Lists format (firstWindow format file identity previous .ranking)
        (tail + extent ((completeLines newline
          ((file.drop tail).take nativeTranscriptTailBytes)).take (decide (0 < tail)).toNat))
        (((completeLines newline ((file.drop tail).take nativeTranscriptTailBytes)).drop
          (decide (0 < tail)).toNat).take nativeTranscriptTailRecords)
        none := by
  have start : readStart file identity previous .ranking
      = (tail, previous.isSome, decide (0 < tail)) := by
    unfold readStart
    rw [fresh, begins]
    rfl
  unfold firstWindow
  rw [start]
  cases previous with
  | none => exact readWindow_lists rfl rfl (fun some => nomatch some)
  | some cursor => exact readWindow_lists rfl rfl (fun some => nomatch some)

theorem readStart_resumed (continued : cursor.continues file identity .observation)
    : readStart file identity (some cursor) .observation
      = (cursor.byteOffset - observationRepairOverlapBytes, false,
        decide (0 < cursor.byteOffset - observationRepairOverlapBytes)) := by
  have kept : (some cursor).filter (fun cursor => cursor.continues file identity .observation)
      = some cursor := Option.filter_some_pos continued
  unfold readStart
  rw [kept]

/-- The first window of a resumed observation passes over the start of a record and over what
is cut from the overlap.
-/
theorem firstWindow_resumed (format : RecordFormat Value)
    (continued : cursor.continues file identity .observation)
    (begins : start = cursor.byteOffset - observationRepairOverlapBytes)
    (bytes : buf = (file.drop start).take observationDeltaBytes)
    : let passed := passedOver buf start (decide (0 < start))
        (if cursor.lastEventId.isSome then some cursor.byteOffset else none)
      Lists format (firstWindow format file identity (some cursor) .observation)
        (start + extent ((completeLines newline buf).take passed))
        (((completeLines newline buf).drop passed).take nativeTranscriptTailRecords)
        cursor.lastEventId := by
  have watermark : ((some cursor).filter fun cursor => !false && cursor.lastEventId.isSome).map
      (·.byteOffset) = if cursor.lastEventId.isSome then some cursor.byteOffset else none := by
    cases named : cursor.lastEventId <;> simp [named]
  unfold firstWindow
  rw [readStart_resumed continued, ← begins]
  simp only [watermark]
  exact readWindow_lists rfl bytes fun _ => rfl

/-- The read of a suspected file lists its first records. -/
theorem rebuiltWindow_lists (cursor : JsonlCursor)
    : Lists format (rebuiltWindow format file identity cursor .observation) 0
        ((completeLines newline (file.take observationDeltaBytes)).take
          nativeTranscriptTailRecords)
        none :=
  readWindow_lists rfl (List.drop_zero ▸ rfl) (fun some => absurd some Bool.false_ne_true)

theorem watermarkWindow_lists (cursor : JsonlCursor)
    : Lists format (watermarkWindow format file identity cursor .observation) cursor.byteOffset
        ((completeLines newline ((file.drop cursor.byteOffset).take observationDeltaBytes)).take
          nativeTranscriptTailRecords)
        cursor.lastEventId :=
  readWindow_lists rfl rfl (fun some => absurd some Bool.false_ne_true)

theorem overlapCut_eq {watermark cap : Nat} (within : watermark - start ≤ cap)
    : overlapCut ((file.drop start).take cap) start (some watermark)
      = recordsBetween file start watermark - nativeTranscriptTailRecords / 2 := by
  rw [overlapCut, Option.elim_some, List.take_take, Nat.min_eq_left within, recordsBetween]

theorem overlap_within (watermark : Nat)
    : watermark - (watermark - observationRepairOverlapBytes) ≤ observationDeltaBytes := by
  unfold observationRepairOverlapBytes observationDeltaBytes
  omega

/-- A resumed observation that skips the start of a record lists records again. -/
theorem firstWindow_events {expected : EventId}
    (continued : cursor.continues file identity .observation)
    (named : cursor.lastEventId = some expected)
    (rewound : observationRepairOverlapBytes < cursor.byteOffset)
    : (firstWindow format file identity (some cursor) .observation).events
      = (rereadRecords file cursor.byteOffset).filterMap (recordEvent format) := by
  have lists := (firstWindow_resumed format continued rfl rfl).events
  rw [named, Option.isSome_some, if_pos rfl, passedOver, overlapCut_eq (overlap_within _),
    decide_eq_true (Nat.sub_pos_of_lt rewound), Bool.toNat_true] at lists
  have passed : (if 0 < recordsBetween file (cursor.byteOffset - observationRepairOverlapBytes)
        cursor.byteOffset - nativeTranscriptTailRecords / 2 then
        recordsBetween file (cursor.byteOffset - observationRepairOverlapBytes) cursor.byteOffset
          - nativeTranscriptTailRecords / 2
      else 1)
      = max 1 (recordsBetween file (cursor.byteOffset - observationRepairOverlapBytes)
        cursor.byteOffset - nativeTranscriptTailRecords / 2) := by
    split <;> omega
  rw [lists, passed]
  rfl

theorem mem_recordEvents {records : List Bytes} {event : NormalizedEvent}
    : event ∈ records.filterMap (recordEvent format)
      ↔ ∃ record ∈ records, parseLine format record = .ok event := by
  rw [List.mem_filterMap]
  refine exists_congr fun record => and_congr_right fun _ => ?_
  unfold recordEvent
  cases parseLine format record <;> simp [Except.toOption]

variable (format)

/-- A resumed observation starts over where the file is suspected, and starts at the watermark
where its first window gets no further.
-/
theorem readSnapshot_resumed (continued : cursor.continues file identity .observation)
    : (Suspected format file cursor
        → readSnapshot format file identity (some cursor) .observation
          = rebuiltWindow format file identity cursor .observation)
      ∧ (¬Suspected format file cursor
        → readSnapshot format file identity (some cursor) .observation
          = if 0 < cursor.byteOffset
                ∧ (firstWindow format file identity (some cursor)
                  .observation).cursor.byteOffset ≤ cursor.byteOffset then
              watermarkWindow format file identity cursor .observation
            else firstWindow format file identity (some cursor) .observation) := by
  have guard : (0 < cursor.byteOffset - observationRepairOverlapBytes
        ∧ (cursor.lastEventId.any fun expected =>
          !(firstWindow format file identity (some cursor) .observation).events.any
            fun event => event.eventId == some expected) = true)
      ↔ Suspected format file cursor := by
    unfold Suspected
    rw [Nat.sub_pos_iff_lt]
    refine and_congr_right fun rewound => ?_
    cases named : cursor.lastEventId with
    | none => simp
    | some expected =>
        rw [Option.any_some, firstWindow_events continued named rewound]
        simp only [Bool.not_eq_true', List.any_eq_false, mem_recordEvents, beq_iff_eq,
          Option.some.injEq, exists_eq_left', forall_exists_index, and_imp]
        exact ⟨fun unknown record listed event parsed => unknown event record listed parsed,
          fun unknown event record listed parsed => unknown record listed event parsed⟩
  unfold readSnapshot
  rw [readStart_resumed continued]
  dsimp only
  constructor
  · intro suspected
    rw [if_pos (guard.mpr suspected)]
  · intro trusted
    rw [if_neg fun found => trusted (guard.mp found)]

-- What a window covers

/-- What becomes of each record, with the offset where it begins. -/
def outcomes (format : RecordFormat Value)
    : Nat → List Bytes → List (Nat × Except SkipKind NormalizedEvent)
  | _, [] => []
  | byteOffset, line :: rest =>
      (byteOffset, parseLine format line) :: outcomes format (byteOffset + (line.length + 1)) rest

def skippedRecord (outcome : Nat × Except SkipKind NormalizedEvent) : Option SkippedRecord :=
  match outcome.2 with
  | .ok _ => none
  | .error kind => some { byteOffset := outcome.1, kind := kind }

theorem outcomes_getElem? (byteOffset : Nat) (records : List Bytes) (index : Nat)
    : (outcomes format byteOffset records)[index]?
      = records[index]?.map fun line =>
          (byteOffset + extent (records.take index), parseLine format line) := by
  induction records generalizing byteOffset index with
  | nil => rfl
  | cons line rest ih =>
      cases index with
      | zero => simp [outcomes]
      | succ index =>
          rw [outcomes, List.getElem?_cons_succ, ih, List.getElem?_cons_succ,
            List.take_succ_cons, extent_cons, Nat.add_assoc]

/-- The events are those outcomes that are events, and the others are skipped. -/
theorem outcomes_split (byteOffset : Nat) (records : List Bytes)
    : (outcomes format byteOffset records).filterMap (fun outcome => outcome.2.toOption)
        = records.filterMap (recordEvent format)
      ∧ (outcomes format byteOffset records).filterMap skippedRecord
        = skippedRecords format byteOffset records
      ∧ (records.filterMap (recordEvent format)).length
          + (skippedRecords format byteOffset records).length
        = records.length := by
  induction records generalizing byteOffset with
  | nil => exact ⟨rfl, rfl, rfl⟩
  | cons line rest ih =>
      obtain ⟨events, skipped, counted⟩ := ih (byteOffset + (line.length + 1))
      rw [outcomes, skippedRecords]
      cases parsed : parseLine format line with
      | ok event =>
          have listed : recordEvent format line = some event := by
            rw [recordEvent, parsed]
            rfl
          refine ⟨?_, ?_, ?_⟩
          · rw [List.filterMap_cons_some listed]
            exact congrArg (event :: ·) events
          · exact skipped
          · rw [List.filterMap_cons_some listed, List.length_cons, List.length_cons]
            dsimp only
            omega
      | error kind =>
          have listed : recordEvent format line = none := by
            rw [recordEvent, parsed]
            rfl
          refine ⟨?_, ?_, ?_⟩
          · rw [List.filterMap_cons_none listed]
            exact events
          · exact congrArg ({ byteOffset := byteOffset, kind := kind } :: ·) skipped
          · rw [List.filterMap_cons_none listed, List.length_cons, List.length_cons]
            omega

variable {format}

/-- A snapshot covers lines of a window: a first one that may be cut is passed over, others are
not read yet, and what is left behind the last newline is incomplete.
-/
structure Covers (format : RecordFormat Value) (buf : Bytes) (start : Nat) (align : Bool)
    (snapshot : JsonlSnapshot) (passed covered unread : List Bytes) (left : Bytes)
    : Prop where
  bytes
    : buf
      = written newline passed ++ written newline covered ++ written newline unread ++ left
  lines : ∀ line ∈ passed ++ covered ++ unread, newline ∉ line
  incomplete : newline ∉ left
  first : passed.length ≤ align.toNat
  cursor
    : snapshot.cursor.byteOffset
      = start + (written newline passed ++ written newline covered).length
  boundary
    : snapshot.cursor.byteOffset = start
      ∨ ∃ position,
          buf[position]? = some newline
          ∧ snapshot.cursor.byteOffset = start + (position + 1)
  events
    : snapshot.events
      = (outcomes format (start + (written newline passed).length) covered).filterMap
          fun outcome => outcome.2.toOption
  skipped
    : snapshot.skipped
      = (outcomes format (start + (written newline passed).length) covered).filterMap
          skippedRecord
  each : snapshot.events.length + snapshot.skipped.length = covered.length
  few : covered.length ≤ nativeTranscriptTailRecords
  stopped : unread = [] ∨ covered.length = nativeTranscriptTailRecords

theorem written_boundary (records : List Bytes) (rest : Bytes)
    : extent records = 0
      ∨ ∃ position,
          (written newline records ++ rest)[position]? = some newline
          ∧ extent records = position + 1 := by
  rcases List.eq_nil_or_concat' records with rfl | ⟨others, line, rfl⟩
  · exact .inl rfl
  · refine .inr ⟨extent others + line.length, ?_, ?_⟩
    · have front : written newline (others ++ [line]) ++ rest
          = (written newline others ++ line) ++ newline :: rest := by
        simp
      have size : extent others + line.length = (written newline others ++ line).length := by
        rw [List.length_append, written_length]
      rw [front, size, List.getElem?_append_right (Nat.le_refl _), Nat.sub_self]
      rfl
    · rw [extent_append, extent_cons, extent_nil]
      omega

/-- Each window is covered up to its cursor: every complete line gives one event or one skipped
record, in order and at its own offset, and an incomplete last line is left.
-/
theorem parseWindow_covers (format : RecordFormat Value) (buf : Bytes) (start : Nat)
    (align : Bool) (context : WindowContext)
    : ∃ passed covered unread left,
        Covers format buf start align (parseWindow format buf start align context) passed covered
            unread left
        ∧ ∀ index line,
            covered[index]? = some line
            → (outcomes format (start + (written newline passed).length) covered)[index]?
              = some
                  (
                    start + (written newline passed).length + extent (covered.take index),
                    parseLine format line
                  ) := by
  obtain ⟨complete, left, clean, whole⟩ := exists_lines newline buf
  have listed : completeLines newline buf = complete := by
    rw [whole, completeLines, lines_eq clean]
  have lists := parseWindow_lists format buf start align context
  rw [listed] at lists
  have rejoined : complete
      = complete.take align.toNat
        ++ (complete.drop align.toNat).take nativeTranscriptTailRecords
        ++ (complete.drop align.toNat).drop nativeTranscriptTailRecords := by
    rw [List.append_assoc, List.take_append_drop, List.take_append_drop]
  have bytes : buf
      = written newline (complete.take align.toNat)
        ++ written newline ((complete.drop align.toNat).take nativeTranscriptTailRecords)
        ++ written newline ((complete.drop align.toNat).drop nativeTranscriptTailRecords)
        ++ left := by
    rw [← written_append, ← written_append, ← rejoined, whole]
  have cursor := lists.cursor
  rw [Nat.add_assoc, ← extent_append] at cursor
  obtain ⟨events, skipped, counted⟩ := outcomes_split format
    (start + (written newline (complete.take align.toNat)).length)
    ((complete.drop align.toNat).take nativeTranscriptTailRecords)
  rw [written_length] at events skipped counted
  refine ⟨_, _, _, left, ⟨bytes, ?_, clean.left, ?_, ?_, ?_, ?_, ?_, ?_, ?_, ?_⟩, ?_⟩
  · rw [← rejoined]
    exact clean.lines
  · exact List.length_take_le _ _
  · rw [← written_append, written_length]
    exact cursor
  · rw [cursor, bytes, ← written_append, List.append_assoc]
    rcases written_boundary
      (complete.take align.toNat
        ++ (complete.drop align.toNat).take nativeTranscriptTailRecords) _ with none | found
    · exact .inl (by omega)
    · obtain ⟨position, ends, place⟩ := found
      exact .inr ⟨position, ends, by omega⟩
  · rw [lists.events, written_length, events]
  · rw [lists.skipped, written_length, skipped]
  · rw [lists.events, lists.skipped, counted]
  · exact List.length_take_le _ _
  · rw [List.length_take]
    rcases Nat.le_total (complete.drop align.toNat).length nativeTranscriptTailRecords
      with short | long
    · exact .inl (List.drop_eq_nil_of_le short)
    · exact .inr (Nat.min_eq_left long)
  · intro index line found
    rw [outcomes_getElem?, found, Option.map_some]

end SkillRanker.Context
