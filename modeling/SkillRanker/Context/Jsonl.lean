import SkillRanker.Library.Lines
import SkillRanker.Context.Events

/-! Bounded snapshots of a transcript of JSON lines, and the cursor a later one resumes from. -/

namespace SkillRanker.Context
open SkillRanker.Library

abbrev Bytes := List UInt8

def newline : UInt8 := 10

def parserVersion : Nat := 3

def observationRepairOverlapBytes : Nat := 1024 * 1024

def nativeTranscriptTailBytes : Nat := 2 * (1024 * 1024)

def nativeTranscriptTailRecords : Nat := 2000

def oneTranscriptRecordBytes : Nat := 256 * 1024

def observationDeltaBytes : Nat := 8 * (1024 * 1024)

inductive CursorKind
  | ranking
  | observation
deriving DecidableEq, Repr

namespace CursorKind

def byteCap : CursorKind → Nat
  | ranking => nativeTranscriptTailBytes
  | observation => observationDeltaBytes

def recordCap (_ : CursorKind) : Nat := nativeTranscriptTailRecords

end CursorKind

structure FileIdentity where
  dev : Nat
  ino : Nat
deriving DecidableEq, Repr

structure JsonlCursor where
  kind : CursorKind
  identity : FileIdentity
  generation : Nat
  byteOffset : Nat
  lastEventId : Option EventId
  parserVersion : Nat
deriving DecidableEq

inductive SkipKind
  | oversize
  | corrupt
  | duplicateKey
  | unmodeled
deriving DecidableEq, Repr

structure SkippedRecord where
  byteOffset : Nat
  kind : SkipKind
deriving DecidableEq, Repr

structure JsonlSnapshot where
  cursor : JsonlCursor
  events : List NormalizedEvent
  incompleteTail : Bool
  truncatedHistory : Bool
  missingToolCounterpart : Bool
  unreadBacklog : Bool
  rebuilt : Bool
  skipped : List SkippedRecord
deriving DecidableEq

-- Records

/-- What the decoding of JSON answers instead of a value. -/
inductive AdapterError
  | invalidJson
  | duplicateKey
  | limitExceeded
deriving DecidableEq, Repr

structure RecordFormat (Value : Type) where
  decodeJson : Bytes → Except AdapterError Value
  isUnmodeledRecord : Value → Bool
  eventFromValue : Value → Option NormalizedEvent

variable {Value : Type} (format : RecordFormat Value)

def parseLine (line : Bytes) : Except SkipKind NormalizedEvent :=
  if oneTranscriptRecordBytes < line.length then .error .oversize
  else if line.isEmpty then .error .corrupt
  else
    match format.decodeJson line with
    | .error .duplicateKey => .error .duplicateKey
    | .error _ => .error .corrupt
    | .ok value =>
        if format.isUnmodeledRecord value then .error .unmodeled
        else
          match format.eventFromValue value with
          | some event => .ok event
          | none => .error .corrupt

structure RecordsRead where
  /-- How much of the window is read. -/
  offset : Nat
  lastEventId : Option EventId
  events : List NormalizedEvent
  skipped : List SkippedRecord
  invocations : List ToolCallId
  results : List ToolCallId
  completeEnd : Nat
  hitRecordCap : Bool

namespace RecordsRead

/-- A record is kept as an event, which may be half of a pair of a call and its result. -/
def keep (read : RecordsRead) (event : NormalizedEvent) : RecordsRead :=
  let call := event.tool.bind (·.callId)
  { read with
    invocations :=
      if event.kind = .toolInvocation then read.invocations ++ call.toList else read.invocations
    results := if event.kind = .toolResult then read.results ++ call.toList else read.results
    lastEventId := event.eventId.or read.lastEventId
    events := read.events ++ [event] }

def skip (read : RecordsRead) (byteOffset : Nat) (kind : SkipKind) : RecordsRead :=
  { read with skipped := read.skipped ++ [{ byteOffset, kind }] }

/-- A record of as many bytes is behind. -/
def advance (read : RecordsRead) (start length : Nat) : RecordsRead :=
  { read with
    offset := read.offset + (length + 1)
    completeEnd := start + (read.offset + (length + 1)) }

end RecordsRead

/-- The loop of `parse_window` over the complete lines that are left. -/
def readRecords (recordCap start : Nat) : List Bytes → RecordsRead → RecordsRead
  | [], read => read
  | line :: rest, read =>
      if recordCap ≤ read.events.length + read.skipped.length then
        { read with hitRecordCap := true, completeEnd := start + read.offset }
      else
        let listed :=
          match parseLine format line with
          | .ok event => read.keep event
          | .error kind => read.skip (start + read.offset) kind
        readRecords recordCap start rest (listed.advance start line.length)

-- Windows

structure WindowContext where
  identity : FileIdentity
  kind : CursorKind
  generation : Nat
  lastEventId : Option EventId
  truncatedHistory : Bool
  unreadBacklog : Bool
  rebuilt : Bool

def parseWindow (buf : Bytes) (start : Nat) (alignToRecord : Bool) (context : WindowContext)
    : JsonlSnapshot :=
  let cursor : JsonlCursor :=
    { kind := context.kind
      identity := context.identity
      generation := context.generation
      byteOffset := start
      lastEventId := context.lastEventId
      parserVersion := parserVersion }
  let first := if alignToRecord then (buf.idxOf? newline).map (· + 1) else some 0
  match first with
  | none =>
      { cursor
        events := []
        incompleteTail := !buf.isEmpty
        truncatedHistory := context.truncatedHistory
        missingToolCounterpart := false
        unreadBacklog := context.unreadBacklog
        rebuilt := context.rebuilt
        skipped := [] }
  | some offset =>
      let read := readRecords format context.kind.recordCap start
        (completeLines newline (buf.drop offset))
        { offset
          lastEventId := context.lastEventId
          events := []
          skipped := []
          invocations := []
          results := []
          completeEnd := start + offset
          hitRecordCap := false }
      { cursor :=
          { cursor with byteOffset := read.completeEnd, lastEventId := read.lastEventId }
        events := read.events
        incompleteTail := decide (read.offset < buf.length) && !read.hitRecordCap
        truncatedHistory := context.truncatedHistory
        missingToolCounterpart := read.results.any fun id => !read.invocations.contains id
        unreadBacklog := context.unreadBacklog || read.hitRecordCap
        rebuilt := context.rebuilt
        skipped := read.skipped }

structure ReadWindow where
  identity : FileIdentity
  kind : CursorKind
  snapshotLen : Nat
  cap : Nat
  start : Nat
  alignToRecord : Bool
  generation : Nat
  lastEventId : Option EventId
  rebuilt : Bool

/-- Where the newest records of the overlap begin in what is read.
Half of the records of a read are left for what comes after the overlap.
-/
def overlapOffset (buf : Bytes) (overlapLen recordCap : Nat) : Nat :=
  let newlines := (buf.take overlapLen).zipIdx.filter fun entry => entry.1 == newline
  match newlines.reverse[recordCap / 2]? with
  | some (_, index) => index + 1
  | none => 0

def readWindow (file : Bytes) (window : ReadWindow) (overlapWatermark : Option Nat)
    : JsonlSnapshot :=
  let available := window.snapshotLen - window.start
  let toRead := min available window.cap
  let buf := (file.drop window.start).take toRead
  let offset :=
    match window.kind, overlapWatermark with
    | .observation, some watermark =>
        overlapOffset buf (min (watermark - window.start) buf.length) window.kind.recordCap
    | _, _ => 0
  parseWindow format (buf.drop offset) (window.start + offset)
    (decide (offset = 0) && window.alignToRecord)
    { identity := window.identity
      kind := window.kind
      generation := window.generation
      lastEventId := window.lastEventId
      truncatedHistory := decide (0 < window.start) || decide (0 < offset)
      unreadBacklog := decide (toRead < available)
      rebuilt := window.rebuilt }

def generationAfter (previous : Option JsonlCursor) (rebuilt : Bool) : Nat :=
  match previous with
  | some cursor =>
      if rebuilt then max (saturatingAdd cursor.generation 1) 1 else max cursor.generation 1
  | none => 1

-- Snapshots

/-- The cursor is of this file, this parser and this kind of read. -/
def JsonlCursor.continues (cursor : JsonlCursor) (file : Bytes) (identity : FileIdentity)
    (kind : CursorKind)
    : Bool :=
  cursor.parserVersion = Context.parserVersion ∧ cursor.identity = identity ∧ cursor.kind = kind
    ∧ cursor.byteOffset ≤ file.length

/-- Where a read starts, whether it rebuilds, and whether it skips a first partial record. -/
def readStart (file : Bytes) (identity : FileIdentity) (previous : Option JsonlCursor)
    (kind : CursorKind)
    : Nat × Bool × Bool :=
  match previous.filter fun cursor => cursor.continues file identity kind, kind with
  | some cursor, .observation =>
      let start := cursor.byteOffset - observationRepairOverlapBytes
      (start, false, decide (0 < start))
  | some cursor, .ranking => (cursor.byteOffset, false, false)
  | none, .ranking =>
      let start := file.length - min file.length kind.byteCap
      (start, previous.isSome, decide (0 < start))
  | none, .observation => (0, previous.isSome, false)

def firstWindow (file : Bytes) (identity : FileIdentity) (previous : Option JsonlCursor)
    (kind : CursorKind)
    : JsonlSnapshot :=
  let (start, rebuilt, alignToRecord) := readStart file identity previous kind
  readWindow format file
    { identity
      kind
      snapshotLen := file.length
      cap := kind.byteCap
      start
      alignToRecord
      generation := generationAfter previous rebuilt
      lastEventId := if rebuilt then none else previous.bind (·.lastEventId)
      rebuilt := rebuilt && previous.isSome }
    ((previous.filter fun cursor => !rebuilt && cursor.lastEventId.isSome).map (·.byteOffset))

/-- The read of a file that the watermark does not seem to describe. -/
def rebuiltWindow (file : Bytes) (identity : FileIdentity) (cursor : JsonlCursor)
    (kind : CursorKind)
    : JsonlSnapshot :=
  readWindow format file
    { identity
      kind
      snapshotLen := file.length
      cap := kind.byteCap
      start := 0
      alignToRecord := false
      generation := max (saturatingAdd cursor.generation 1) 1
      lastEventId := none
      rebuilt := true }
    none

def watermarkWindow (file : Bytes) (identity : FileIdentity) (cursor : JsonlCursor)
    (kind : CursorKind)
    : JsonlSnapshot :=
  readWindow format file
    { identity
      kind
      snapshotLen := file.length
      cap := kind.byteCap
      start := cursor.byteOffset
      alignToRecord := false
      generation := generationAfter (some cursor) false
      lastEventId := cursor.lastEventId
      rebuilt := false }
    none

def readSnapshot (file : Bytes) (identity : FileIdentity) (previous : Option JsonlCursor)
    (kind : CursorKind)
    : JsonlSnapshot :=
  let (start, rebuilt, _) := readStart file identity previous kind
  let snapshot := firstWindow format file identity previous kind
  match kind, rebuilt, previous with
  | .observation, false, some cursor =>
      let unknown := cursor.lastEventId.any fun expected =>
        !snapshot.events.any fun event => event.eventId == some expected
      if 0 < start ∧ unknown then rebuiltWindow format file identity cursor kind
      else if 0 < cursor.byteOffset ∧ snapshot.cursor.byteOffset ≤ cursor.byteOffset then
        watermarkWindow format file identity cursor kind
      else snapshot
  | _, _, _ => snapshot

end SkillRanker.Context
