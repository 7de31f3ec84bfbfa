import Mathlib.Data.List.Induction
import SkillRanker.Context.TranscriptDelivery

/-! Runs of observations: the reads that go on from their watermark, and the one that does not. -/

namespace SkillRanker.Context
open SkillRanker.Library

variable {Value : Type} {format : RecordFormat Value}

-- The cursor of a read

theorem readWindow_cursor (file : Bytes) (window : ReadWindow) (overlapWatermark : Option Nat)
    : (readWindow format file window overlapWatermark).cursor.generation = window.generation
      ∧ (readWindow format file window overlapWatermark).cursor.identity = window.identity
      ∧ (readWindow format file window overlapWatermark).cursor.kind = window.kind
      ∧ (readWindow format file window overlapWatermark).cursor.parserVersion
        = parserVersion := by
  unfold readWindow
  dsimp only
  unfold parseWindow
  dsimp only
  split <;> exact ⟨rfl, rfl, rfl, rfl⟩

variable {file : Bytes} {identity : FileIdentity}

theorem readSnapshot_first_generation
    : (readSnapshot format file identity none .observation).cursor.generation = 1 := by
  rw [readSnapshot_fresh rfl]
  exact (readWindow_cursor _ _ _).1

/-- A resumed observation changes the generation just where it suspects the file. -/
theorem readSnapshot_generation {cursor : JsonlCursor}
    (continued : cursor.continues file identity .observation) (first : cursor.generation = 1)
    : (Suspected format file cursor
        → (readSnapshot format file identity (some cursor) .observation).cursor.generation = 2)
      ∧ (¬Suspected format file cursor
        → (readSnapshot format file identity (some cursor) .observation).cursor.generation
          = 1) := by
  obtain ⟨starts, resumes⟩ := readSnapshot_resumed format continued
  constructor
  · intro suspected
    rw [starts suspected, rebuiltWindow, (readWindow_cursor _ _ _).1, first]
    change max (saturatingAdd 1 1) 1 = 2
    decide
  · intro trusted
    rw [resumes trusted]
    split
    · rw [watermarkWindow, (readWindow_cursor _ _ _).1, generationAfter, first]
      rfl
    · rw [firstWindow, readStart_resumed continued]
      dsimp only
      rw [(readWindow_cursor _ _ _).1, generationAfter, first]
      rfl

theorem firstWindow_cursor (previous : Option JsonlCursor)
    : (firstWindow format file identity previous .observation).cursor.identity = identity
      ∧ (firstWindow format file identity previous .observation).cursor.kind = .observation
      ∧ (firstWindow format file identity previous .observation).cursor.parserVersion
        = parserVersion := by
  unfold firstWindow
  generalize readStart file identity previous .observation = begins
  exact (readWindow_cursor _ _ _).2

theorem readSnapshot_cursor (format : RecordFormat Value) (file : Bytes)
    (identity : FileIdentity) (previous : Option JsonlCursor)
    : (readSnapshot format file identity previous .observation).cursor.identity = identity
      ∧ (readSnapshot format file identity previous .observation).cursor.kind = .observation
      ∧ (readSnapshot format file identity previous .observation).cursor.parserVersion
        = parserVersion := by
  cases continued : previous.filter (·.continues file identity .observation) with
  | none =>
      rw [readSnapshot_fresh continued]
      exact firstWindow_cursor previous
  | some cursor =>
      obtain ⟨rfl, continues⟩ := Option.filter_eq_some_iff.mp continued
      obtain ⟨starts, resumes⟩ := readSnapshot_resumed format continues
      by_cases suspected : Suspected format file cursor
      · rw [starts suspected]
        exact (readWindow_cursor _ _ _).2
      · rw [resumes suspected]
        split
        · exact (readWindow_cursor _ _ _).2
        · exact firstWindow_cursor _

-- What the reads so far have left

namespace Observed

/-- The cursor stands behind records of the file that are all delivered. -/
structure Follows (format : RecordFormat Value) (observed : Observed) (cursor : JsonlCursor)
    (count : Nat)
    : Prop where
  version : cursor.parserVersion = parserVersion
  identity : cursor.identity = observed.identity
  kind : cursor.kind = .observation
  generation : cursor.generation = 1
  within : count ≤ (completeLines newline observed.file).length
  boundary : cursor.byteOffset = extent ((completeLines newline observed.file).take count)
  delivered : ∀ index record, index < count
    → (completeLines newline observed.file)[index]? = some record
    → ∃ snapshot ∈ observed.snapshots,
        Delivers format snapshot (extent ((completeLines newline observed.file).take index)) record

def Following (format : RecordFormat Value) (observed : Observed) : Prop :=
  ∀ cursor, observed.cursor = some cursor → ∃ count, observed.Follows format cursor count

/-- The next read does not take the file for another one. -/
def Recognised (format : RecordFormat Value) (observed : Observed) : Prop :=
  ∀ cursor, observed.cursor = some cursor → ¬Suspected format observed.file cursor

/-- The next read goes on where the last one has stopped, and no record is left out. -/
structure Faithful (format : RecordFormat Value) (observed : Observed) : Prop where
  offset : ∀ cursor, observed.cursor = some cursor
    → cursor.byteOffset ≤ (observed.snapshot format).cursor.byteOffset
  generation : ∀ cursor, observed.cursor = some cursor
    → (observed.snapshot format).cursor.generation = cursor.generation
  delivered : DeliveredUntil format observed.file
    (observed.snapshots ++ [observed.snapshot format])
    (observed.snapshot format).cursor.byteOffset

variable {observed : Observed} {cursor : JsonlCursor} {count : Nat}

/-- What grows keeps its lines where they are. -/
theorem Follows.append (follows : observed.Follows format cursor count) (bytes : Bytes)
    : (observed.act format (.append bytes)).Follows format cursor count := by
  obtain ⟨more, longer⟩ := completeLines_append newline observed.file bytes
  have same {prior : Nat} (early : prior ≤ count)
      : (completeLines newline (observed.file ++ bytes)).take prior
        = (completeLines newline observed.file).take prior := by
    rw [← longer, List.take_append_of_le_length (Nat.le_trans early follows.within)]
  refine ⟨follows.version, follows.identity, follows.kind, follows.generation, ?_, ?_, ?_⟩
  · change count ≤ (completeLines newline (observed.file ++ bytes)).length
    rw [← longer, List.length_append]
    exact Nat.le_trans follows.within (Nat.le_add_right _ _)
  · change _ = extent ((completeLines newline (observed.file ++ bytes)).take count)
    rw [same (Nat.le_refl _), follows.boundary]
  · intro index record early listed
    change (completeLines newline (observed.file ++ bytes))[index]? = some record at listed
    rw [← longer, List.getElem?_append_left (Nat.lt_of_lt_of_le early follows.within)] at listed
    change ∃ snapshot ∈ observed.snapshots, Delivers format snapshot
      (extent ((completeLines newline (observed.file ++ bytes)).take index)) record
    rw [same early.le]
    exact follows.delivered index record early listed

theorem Follows.continues (follows : observed.Follows format cursor count)
    : cursor.continues observed.file observed.identity .observation := by
  have room := extent_completeLines newline observed.file
  have bound := extent_take_le (completeLines newline observed.file) follows.within
  rw [List.take_length] at bound
  have within : cursor.byteOffset ≤ observed.file.length := by
    rw [follows.boundary]
    omega
  exact decide_eq_true ⟨follows.version, follows.identity, follows.kind, within⟩

/-- What the next read lists starts no later than where the last one has stopped. -/
structure Resumes (format : RecordFormat Value) (observed : Observed) (first listed count : Nat)
    : Prop where
  range : ∃ before, ListsRange format observed.file (observed.snapshot format) first listed before
  early : first ≤ count
  further : count ≤ first + listed
  generation : (observed.snapshot format).cursor.generation = 1
  cursor : ∀ cursor, observed.cursor = some cursor → observed.Follows format cursor count
  delivered : ∀ index record, index < count
    → (completeLines newline observed.file)[index]? = some record
    → ∃ snapshot ∈ observed.snapshots,
        Delivers format snapshot (extent ((completeLines newline observed.file).take index)) record

/-- A recognised file is read on from where the last read has stopped. -/
theorem Following.resumes (following : observed.Following format)
    (recognised : observed.Recognised format)
    : ∃ first listed count, observed.Resumes format first listed count := by
  cases held : observed.cursor with
  | none =>
      have fresh : observed.snapshot format
          = firstWindow format observed.file observed.identity none .observation := by
        rw [snapshot, held, readSnapshot_fresh rfl]
      have lists : Lists format
          (firstWindow format observed.file observed.identity none .observation) 0 _ none :=
        firstWindow_fresh rfl
      obtain ⟨listed, range⟩ := listsRange_window 0 observationDeltaBytes 0 0
        (by simpa using lists) (Nat.zero_le _) rfl rfl (Nat.zero_le _)
      rw [← fresh] at range
      refine ⟨0, listed, 0, ⟨_, range⟩, Nat.le_refl _, Nat.zero_le _, ?_, ?_, ?_⟩
      · rw [snapshot, held, readSnapshot_first_generation]
      · rw [held]
        exact fun _ none => nomatch none
      · exact fun _ _ early => absurd early (Nat.not_lt_zero _)
  | some cursor =>
      obtain ⟨count, follows⟩ := following cursor held
      have trusted := recognised cursor held
      obtain ⟨first, listed, before, early, further, range⟩ :=
        listsRange_resumed follows.continues trusted follows.within follows.boundary
      have same : observed.snapshot format
          = readSnapshot format observed.file observed.identity (some cursor) .observation := by
        rw [snapshot, held]
      rw [← same] at range
      refine ⟨first, listed, count, ⟨before, range⟩, early, further, ?_, ?_, follows.delivered⟩
      · rw [same, (readSnapshot_generation follows.continues follows.generation).2 trusted]
      · rw [held]
        exact fun _ some => Option.some.inj some ▸ follows

section

variable {first listed : Nat} (resumes : observed.Resumes format first listed count)
include resumes

/-- What is behind the next cursor is delivered, before or by the next snapshot. -/
theorem Resumes.all_delivered {index : Nat} {record : Bytes} (earlier : index < first + listed)
    (found : (completeLines newline observed.file)[index]? = some record)
    : ∃ snapshot ∈ observed.snapshots ++ [observed.snapshot format],
        Delivers format snapshot (extent ((completeLines newline observed.file).take index))
          record := by
  obtain ⟨before, range⟩ := resumes.range
  by_cases known : index < count
  · obtain ⟨snapshot, mem, delivers⟩ := resumes.delivered index record known found
    exact ⟨snapshot, List.mem_append_left _ mem, delivers⟩
  · have from_first : first ≤ index := Nat.le_trans resumes.early (Nat.le_of_not_lt known)
    exact ⟨_, List.mem_append_right _ List.mem_cons_self, range.delivers found from_first earlier⟩

/-- A read that goes on leaves a cursor that follows the file. -/
theorem Resumes.following
    : (observed.act format .read).Following format := by
  intro cursor held
  cases Option.some.inj held
  obtain ⟨before, range⟩ := resumes.range
  obtain ⟨identity, kind, version⟩ := readSnapshot_cursor format observed.file
    observed.identity observed.cursor
  exact ⟨first + listed, version, identity, kind, resumes.generation, range.within, range.cursor,
    fun index record earlier found => resumes.all_delivered earlier found⟩

theorem Resumes.faithful
    : observed.Faithful format := by
  obtain ⟨before, range⟩ := resumes.range
  refine ⟨?_, ?_, ?_⟩
  · intro cursor held
    rw [(resumes.cursor cursor held).boundary, range.cursor]
    exact extent_take_le _ resumes.further
  · intro cursor held
    rw [resumes.generation, (resumes.cursor cursor held).generation]
  · intro index record found behind
    rw [range.cursor] at behind
    obtain ⟨within, _⟩ := List.getElem?_eq_some_iff.mp found
    exact resumes.all_delivered (le_of_extent_le (Nat.succ_le_of_lt within) behind) found

end

-- Runs

def EveryRead (format : RecordFormat Value) (condition : Observed → Prop)
    (actions : List Observing) (observed : Observed)
    : Prop :=
  ∀ earlier later, actions = earlier ++ .read :: later → condition (observed.run format earlier)

theorem run_snoc (actions : List Observing) (action : Observing)
    : observed.run format (actions ++ [action]) = (observed.run format actions).act format action := by
  rw [run, run, List.foldl_append, List.foldl_cons, List.foldl_nil]

/-- While every read recognises the file the cursor follows it, by induction on the actions. -/
theorem run_following (actions : List Observing)
    (recognised : EveryRead format (Recognised format) actions (unread identity file))
    : ((unread identity file).run format actions).Following format := by
  induction actions using List.reverseRecOn with
  | nil => exact fun _ none => nomatch none
  | append_singleton actions action ih =>
      have earlier : EveryRead format (Recognised format) actions (unread identity file) := by
        intro earlier later split
        exact recognised earlier (later ++ [action]) (by rw [split]; simp)
      rw [run_snoc]
      cases action with
      | append bytes =>
          intro cursor held
          obtain ⟨count, follows⟩ := ih earlier cursor held
          exact ⟨count, follows.append bytes⟩
      | read =>
          obtain ⟨_, _, _, resumes⟩ := (ih earlier).resumes (recognised actions [] rfl)
          exact resumes.following

/-- A read that suspects a file it follows is not faithful: it starts another generation. -/
theorem Following.recognised (following : observed.Following format)
    (faithful : observed.Faithful format)
    : observed.Recognised format := by
  intro cursor held suspected
  obtain ⟨count, follows⟩ := following cursor held
  have changed := (readSnapshot_generation follows.continues follows.generation).1 suspected
  have same := faithful.generation cursor held
  rw [snapshot, held, changed, follows.generation] at same
  exact absurd same (by decide)

/-- In every run of appends and observations every read goes on where the last one has stopped,
in the same generation and with no complete record left out, if and only if every read recognises
the file: the record that its watermark names is among those that it lists again.
-/
theorem observations_faithful_iff (format : RecordFormat Value) (identity : FileIdentity)
    (file : Bytes) (actions : List Observing)
    : EveryRead format (Faithful format) actions (unread identity file)
      ↔ EveryRead format (Recognised format) actions (unread identity file) := by
  constructor
  · intro faithful earlier later split
    -- The first read that does not recognise the file has a cursor that follows it.
    induction size : earlier.length using Nat.strong_induction_on generalizing earlier later with
    | _ size ih =>
      refine Following.recognised (run_following earlier ?_) (faithful earlier later split)
      intro prior between splitPrior
      refine ih prior.length ?_ prior (between ++ .read :: later) ?_ rfl
      · rw [← size, splitPrior, List.length_append, List.length_cons]
        omega
      · rw [split, splitPrior, List.append_assoc, List.cons_append]
  · intro recognised earlier later split
    have before : EveryRead format (Recognised format) earlier (unread identity file) := by
      intro prior between splitPrior
      exact recognised prior (between ++ .read :: later)
        (by rw [split, splitPrior, List.append_assoc, List.cons_append])
    obtain ⟨_, _, _, resumes⟩ :=
      (run_following earlier before).resumes (recognised earlier later split)
    exact resumes.faithful

-- A watermark that is not found

/-- A record with an identity, and behind it a line that is too long for a record.
The line is as long as the overlap.
-/
structure Hides (format : RecordFormat Value) (named long : Bytes) (event : NormalizedEvent)
    (id : EventId)
    : Prop where
  namedClean : newline ∉ named
  longClean : newline ∉ long
  parsed : parseLine format named = .ok event
  eventId : event.eventId = some id
  size : long.length = observationRepairOverlapBytes
  room : named.length + 1 + (observationRepairOverlapBytes + 1) ≤ observationDeltaBytes

/-- The second read of an unchanged file does not find the record that the first has named last:
the overlap starts behind it.
-/
theorem Hides.unfaithful {named long : Bytes} {event : NormalizedEvent} {id : EventId}
    (hides : Hides format named long event id) (identity : FileIdentity)
    : ¬EveryRead format (Faithful format) [.read, .read]
        (unread identity (named ++ newline :: (long ++ [newline]))) := by
  intro faithful
  let file : Bytes := named ++ newline :: (long ++ [newline])
  have two : completeLines newline file = [named, long] := by
    rw [completeLines, lines_cons hides.namedClean, completeLines, lines_cons hides.longClean]
    rfl
  have whole : extent [named, long] = file.length := by
    rw [extent_cons, extent_cons, extent_nil, List.length_append, List.length_cons,
      List.length_append, List.length_singleton]
    omega
  have oversize : recordEvent format long = none := by
    have above : oneTranscriptRecordBytes < long.length := by
      rw [hides.size]
      decide
    rw [recordEvent, parseLine, if_pos above]
    rfl
  have within : file.length ≤ observationDeltaBytes := by
    have room := hides.room
    rw [← whole, extent_cons, extent_cons, extent_nil, hides.size]
    omega
  have first : Lists format ((unread identity file).snapshot format) 0 [named, long] none := by
    have lists : Lists format ((unread identity file).snapshot format) 0
        ((completeLines newline (file.take observationDeltaBytes)).take
          nativeTranscriptTailRecords)
        none := by
      rw [snapshot, readSnapshot_fresh rfl]
      exact firstWindow_fresh rfl
    have few : [named, long].take nativeTranscriptTailRecords = [named, long] := rfl
    rwa [List.take_of_length_le within, two, few] at lists
  have following : ((unread identity file).run format [.read]).Following format := by
    refine run_following [.read] ?_
    intro earlier later split cursor held
    have start : earlier = [] := by
      cases earlier with
      | nil => rfl
      | cons action earlier => simp at split
    rw [start] at held
    cases held
  have place : ((unread identity file).snapshot format).cursor.byteOffset = file.length := by
    rw [first.cursor, whole, Nat.zero_add]
  have last : ((unread identity file).snapshot format).cursor.lastEventId = some id := by
    have listed : recordEvent format named = some event := by
      rw [recordEvent, hides.parsed]
      rfl
    rw [first.lastEventId, lastEventIdAfter, List.foldl_cons, List.foldl_cons, List.foldl_nil,
      listed, oversize, Option.bind_some, hides.eventId]
    rfl
  have recognised := Following.recognised following (faithful [.read] [] rfl)
  refine recognised _ rfl ⟨?_, id, last, ?_⟩
  · rw [place, ← whole, extent_cons, extent_cons, hides.size]
    omega
  · change ∀ record ∈ rereadRecords file
      ((unread identity file).snapshot format).cursor.byteOffset, _
    have none : rereadRecords file file.length = [] := by
      have start : file.length - observationRepairOverlapBytes = named.length + 2 := by
        rw [← whole, extent_cons, extent_cons, extent_nil, hides.size]
        omega
      have left : file.drop (named.length + 2) = long.drop 1 ++ [newline] := by
        have some : 1 ≤ long.length := by
          rw [hides.size]
          decide
        rw [List.drop_length_add_append, List.drop_succ_cons, List.drop_append_of_le_length some]
      have clean : newline ∉ long.drop 1 := fun mem => hides.longClean (List.mem_of_mem_drop mem)
      have cut : completeLines newline (long.drop 1 ++ [newline]) = [long.drop 1] := by
        rw [completeLines, lines_cons clean]
        rfl
      unfold rereadRecords
      dsimp only
      rw [start, left, completeLines_take, cut, List.drop_eq_nil_of_le, List.take_nil]
      rw [List.length_take, List.length_singleton]
      exact Nat.le_trans (Nat.min_le_right _ _) (Nat.le_max_left _ _)
    rw [place, none]
    intro _ listed
    cases listed

def systemRecord : Bytes := utf8 "\x7b\"uuid\":\"e1\",\"type\":\"system\"\x7d"

def systemId : EventId := { text := "e1", valid := by decide +kernel }

def systemEvent : NormalizedEvent where
  eventId := some systemId
  parentId := none
  turnId := none
  agentId := none
  branchId := none
  role := .system
  kind := .message
  timestampUnixMs := none
  text := ""
  tool := none

def systemFormat : RecordFormat Unit where
  decodeJson := fun line => if line = systemRecord then .ok () else .error .invalidJson
  isUnmodeledRecord := fun _ => false
  eventFromValue := fun _ => some systemEvent

/-- A line of a megabyte hides the record, and the unchanged file is taken for another one. -/
theorem long_line_restarts
    : ¬EveryRead systemFormat (Faithful systemFormat) [.read, .read]
        (unread ⟨1, 1⟩ (systemRecord ++ newline ::
          (List.replicate observationRepairOverlapBytes 120 ++ [newline]))) := by
  have hides : Hides systemFormat systemRecord (List.replicate observationRepairOverlapBytes 120)
      systemEvent systemId := by
    refine ⟨?_, ?_, ?_, rfl, ?_, ?_⟩
    · decide +kernel
    · rw [List.mem_replicate]
      exact fun listed => absurd listed.2 (by decide)
    · have short : ¬oneTranscriptRecordBytes < systemRecord.length := by decide +kernel
      have some : systemRecord.isEmpty = false := by decide +kernel
      rw [parseLine, if_neg short, some]
      simp [systemFormat]
    · rw [List.length_replicate]
    · decide +kernel
  exact hides.unfaithful ⟨1, 1⟩

end Observed

end SkillRanker.Context
