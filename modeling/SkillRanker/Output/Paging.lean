import SkillRanker.Output.Trace

/-! Pages of a trace: following the cursors gives every entry once and in order, in pages that
pass their own validation.
-/

namespace SkillRanker.Output

open SkillRanker.Library

-- Tokens

theorem dot_not_mem_digest (digest : ContentHash) : '.' ∉ digest.text.toList := by
  intro mem
  rcases digest.digest.2 '.' mem with digit | ⟨low, _⟩
  · exact absurd digit (by decide)
  · exact absurd low (by decide)

/-- A machine number is read back from its digits. -/
theorem parseU64_decimal (value : UInt64) : parseU64 (decimal 0 value.toNat) = some value := by
  have bounded : value.toNat ≤ u64Max := Nat.le_sub_one_of_lt value.toNat_lt
  have unsigned (rest : List Char) : decimal 0 value.toNat ≠ '+' :: rest := by
    intro signed
    have digit := isDigit_of_mem_decimal (signed ▸ List.mem_cons_self)
    exact absurd digit (by decide)
  unfold parseU64
  split
  next rest signed => exact absurd signed (unsigned rest)
  next => simp [readDigits_decimal, bounded]

theorem parse_text (digest : ContentHash) : ContentHash.parse digest.text = .ok digest := by
  rw [ContentHash.parse, dif_pos digest.digest]

theorem splitOn_toToken (cursor : TraceCursor)
    : cursor.toToken.toList.splitOn '.'
      = [
          TraceCursor.tokenWord.toList,
          cursor.snapshotId.text.toList,
          cursor.queryId.text.toList,
          decimal 0 cursor.offset.toNat
        ] := by
  have offset : '.' ∉ decimal 0 cursor.offset.toNat :=
    fun mem => absurd (isDigit_of_mem_decimal mem) (by decide)
  have word : '.' ∉ TraceCursor.tokenWord.toList := by decide +kernel
  rw [TraceCursor.toToken, String.toList_ofList, List.append_assoc, List.cons_append,
    List.append_assoc, List.cons_append, splitOn_append word,
    splitOn_append (dot_not_mem_digest _), splitOn_append (dot_not_mem_digest _),
    splitOn_of_not_mem offset]

/-- The token of a cursor of this version gives the cursor back. -/
theorem fromToken_toToken {cursor : TraceCursor} (current : cursor.schemaVersion = schemaVersion)
    : TraceCursor.fromToken cursor.toToken = .ok cursor := by
  obtain ⟨version, snapshot, query, offset⟩ := cursor
  rw [TraceCursor.fromToken, splitOn_toToken]
  simp only at current
  simp [ensure, parse_text, parseU64_decimal, require, Except.mapError, bind, Except.bind,
    pure, Except.pure, current]

-- Entries

/-- An entry as the stages build it: a stage that was evaluated names its reason, and one that
was not has nothing to report.
-/
structure TraceEntry.WellFormed (entry : TraceEntry) : Prop where
  reasoned
    : entry.status = .passed ∨ entry.status = .excluded
      → ∃ reason, entry.reason = some reason ∧ validateId reason = .ok ()
  bare
    : entry.status = .notEvaluated ∨ entry.status = .notInSnapshot
      → entry.value = none ∧ entry.threshold = none ∧ entry.reason = none

theorem wellFormed_passed (skillId : SkillId) (stage : TraceStage) {reason : String}
    (valid : validateId reason = .ok ()) (value threshold : Option Double)
    : (TraceEntry.passed skillId stage reason value threshold).WellFormed where
  reasoned _ := ⟨reason, rfl, valid⟩
  bare other := by rcases other with other | other <;> cases other

theorem wellFormed_notEvaluated (skillId : SkillId) (stage : TraceStage)
    : (TraceEntry.notEvaluated skillId stage).WellFormed where
  reasoned other := by rcases other with other | other <;> cases other
  bare _ := ⟨rfl, rfl, rfl⟩

theorem text_of_valid {value : String} (valid : validateId value = .ok ())
    : text (.string value) = .ok value := by
  obtain ⟨nonempty, size, allowed⟩ := validateId_eq_ok.mp valid
  have short : value.utf8ByteSize ≤ maxTextBytes := size.trans (by decide)
  have plain : value.toList.any isControl = false := by
    rw [List.any_eq_false] at allowed ⊢
    intro char mem control
    exact allowed char mem (by simp [forbiddenIdentityCharacter, control])
  simp [text, Value.asStr, require, ensure, nonempty, short, plain, bind, Except.bind, pure,
    Except.pure]

variable {members : List (String × Value)}

/-- A machine number that may be absent is read from what is written of it. -/
theorem nullableNumber_ofOption {key : String} {value : Option Double}
    (written : members.lookup key = some (.ofOption .ofDouble value))
    : ∃ read, nullableNumber members key = .ok read ∧ (value = none → read = none) := by
  rcases value with none | (value | _)
  · exact ⟨none, by simp [nullableNumber, field, written, require, Value.ofOption, Value.isNull,
      bind, Except.bind, pure, Except.pure], fun _ => rfl⟩
  · refine ⟨some (.finite value), ?_, fun absent => absurd absent (Option.some_ne_none _)⟩
    simp [nullableNumber, field, written, require, Value.ofOption, Value.ofDouble, Value.isNull,
      Value.asF64, ensure, bind, Except.bind, pure, Except.pure]
  · exact ⟨none, by simp [nullableNumber, field, written, require, Value.ofOption,
      Value.ofDouble, Value.isNull, bind, Except.bind, pure, Except.pure], fun _ => rfl⟩

theorem text_stage (stage : TraceStage)
    : text (.string stage.asStr) = .ok stage.asStr
      ∧ stage.asStr ∈ stages.map TraceStage.asStr := by
  cases stage <;> exact ⟨by decide +kernel, by decide +kernel⟩

theorem text_status (status : TraceStatus)
    : text (.string status.asStr) = .ok status.asStr
      ∧ status.asStr ∈ statuses.map TraceStatus.asStr := by
  cases status <;> exact ⟨by decide +kernel, by decide +kernel⟩

theorem identifier_of_valid {value : String} (valid : validateId value = .ok ())
    : identifier (.string value) = .ok () := by
  simp [identifier, text_of_valid valid, valid, Except.mapError, bind, Except.bind]

theorem validateEntry_written {entry : TraceEntry}
    (skillId : members.lookup "skill_id" = some (.string entry.skillId.text))
    (stage : members.lookup "stage" = some (.string entry.stage.asStr))
    (status : members.lookup "status" = some (.string entry.status.asStr))
    (value : members.lookup "value" = some (.ofOption .ofDouble entry.value))
    (threshold : members.lookup "threshold" = some (.ofOption .ofDouble entry.threshold))
    (reason : members.lookup "reason" = some (.ofOption .string entry.reason))
    (well : entry.WellFormed)
    : validateEntry (.object members) = .ok () := by
  have named : validateId entry.skillId.text = .ok () := by
    have valid := entry.skillId.valid
    simp only [validateSkillId, bind_eq_ok] at valid
    obtain ⟨_, named, _⟩ := valid
    exact named
  obtain ⟨operand, readValue, noValue⟩ := nullableNumber_ofOption value
  obtain ⟨limit, readThreshold, noThreshold⟩ := nullableNumber_ofOption threshold
  simp only [validateEntry, asObject, Value.asObject, field, skillId, stage, status, reason,
    require, text_of_valid named, (text_stage _).1, (text_status _).1, bind_eq_ok, ensure_eq_ok,
    mapError_eq_ok, Except.ok.injEq, exists_eq_left']
  refine ⟨(), entry.skillId.valid, (), (text_stage _).2, (), (text_status _).2, operand,
    readValue, limit, readThreshold, ?_⟩
  cases is : entry.status with
  | passed =>
      obtain ⟨reason, given, valid⟩ := well.reasoned (.inl is)
      simp [TraceStatus.asStr, given, Value.ofOption, identifier_of_valid valid]
  | excluded =>
      obtain ⟨reason, given, valid⟩ := well.reasoned (.inr is)
      simp [TraceStatus.asStr, given, Value.ofOption, identifier_of_valid valid]
  | notEvaluated =>
      obtain ⟨bareValue, bareThreshold, bareReason⟩ := well.bare (.inl is)
      simp [TraceStatus.asStr, noValue bareValue, noThreshold bareThreshold, bareReason,
        Value.ofOption, Value.isNull, ensure]
  | notInSnapshot =>
      obtain ⟨bareValue, bareThreshold, bareReason⟩ := well.bare (.inr is)
      simp [TraceStatus.asStr, noValue bareValue, noThreshold bareThreshold, bareReason,
        Value.ofOption, Value.isNull, ensure]

theorem validateEntry_toValue {entry : TraceEntry} (well : entry.WellFormed)
    : validateEntry entry.toValue = .ok () :=
  validateEntry_written rfl rfl rfl rfl rfl rfl well

-- Pages

section Pages

variable (snapshot query : ContentHash) (entries : List TraceEntry)

def cursorAt (offset : Nat) : TraceCursor :=
  {
    schemaVersion := schemaVersion
    snapshotId := snapshot
    queryId := query
    offset := .ofNat offset
  }

def pageAt (size start : Nat) : StageTrace :=
  let stop := min (start + size) entries.length
  let next := if stop < entries.length then some stop else none
  {
    cursor := cursorAt snapshot query start
    total := entries.length
    nextOffset := next
    nextCursor := next.map (fun offset => (cursorAt snapshot query offset).toToken)
    entries := (entries.take stop).drop start
  }

variable {snapshot query entries}

/-- An offset within the bound of traces keeps its number. -/
theorem toNat_offset {offset : Nat} (bounded : offset ≤ maxTraceItems)
    : (UInt64.ofNat offset).toNat = offset := by
  have small : offset < 2 ^ 64 := bounded.trans_lt (by decide)
  rw [UInt64.toNat_ofNat', Nat.mod_eq_of_lt small]

theorem pageOf_none (size : Nat)
    : pageOf size none snapshot query entries = .ok (pageAt snapshot query entries size 0) := by
  simp [pageOf, pageAt, cursorAt, bind, Except.bind, pure, Except.pure]

variable {size : Nat}

/-- A cursor within the entries has the page from its offset on. -/
theorem pageOf_some {start : Nat} (within : start ≤ entries.length)
    (few : entries.length ≤ maxTraceItems)
    : pageOf size (some (cursorAt snapshot query start)) snapshot query entries
      = .ok (pageAt snapshot query entries size start) := by
  have offset := toNat_offset (within.trans few)
  simp [pageOf, pageAt, cursorAt, TraceCursor.resume, ensure, within, few, offset,
    Except.mapError, bind, Except.bind, pure, Except.pure]

/-- A cursor of another snapshot or query is refused. -/
theorem pageOf_other {cursor : TraceCursor}
    (other : cursor.snapshotId ≠ snapshot ∨ cursor.queryId ≠ query)
    : ∃ failure,
        pageOf size (some cursor) snapshot query entries = .error failure
        ∧ (cursor.schemaVersion = schemaVersion → failure = refusedCursor .snapshotChanged) := by
  have apart : ¬ (cursor.snapshotId = snapshot ∧ cursor.queryId = query) := by
    rintro ⟨sameSnapshot, sameQuery⟩
    exact other.elim (fun ne => ne sameSnapshot) (fun ne => ne sameQuery)
  by_cases current : cursor.schemaVersion = schemaVersion
  · refine ⟨refusedCursor .snapshotChanged, ?_, fun _ => rfl⟩
    simp [pageOf, TraceCursor.resume, ensure, current, apart, Except.mapError, bind, Except.bind]
  · refine ⟨refusedCursor .unsupportedVersion, ?_, fun same => absurd same current⟩
    simp [pageOf, TraceCursor.resume, ensure, current, Except.mapError, bind, Except.bind]

theorem readCursor_toValue (cursor : TraceCursor) : readCursor cursor.toValue = some cursor := by
  have version := Value.asU64_natCast cursor.schemaVersion.toNat_lt
  have offset := Value.asU64_natCast cursor.offset.toNat_lt
  have parts
      : cursorParts cursor.toValue
        = some (.whole cursor.schemaVersion.toNat, .string cursor.snapshotId.text,
            .string cursor.queryId.text, .whole cursor.offset.toNat) := by
    simp [cursorParts, TraceCursor.toValue, List.lookup_cons]
  simp [readCursor, parts, version, offset, Value.asStr, parse_text, Except.toOption]

theorem length_pageAt {start : Nat} (within : start ≤ entries.length)
    : start + (pageAt snapshot query entries size start).entries.length
      = min (start + size) entries.length := by
  simp only [pageAt, List.length_drop, List.length_take]
  omega

/-- A written page passes its validation: its cursor is within the total, its entries are
well formed, and the next offset is where they end, unless that is the end of them all.
-/
theorem validateTrace_written {page : StageTrace} {members : List (String × Value)} {stop : Nat}
    (cursor : members.lookup "cursor" = some page.cursor.toValue)
    (total : members.lookup "total" = some (.whole page.total))
    (next
      : members.lookup "next_offset"
        = some (.ofOption (fun offset : Nat => .whole offset) page.nextOffset))
    (entries : members.lookup "entries" = some (.array (page.entries.map TraceEntry.toValue)))
    (current : page.cursor.schemaVersion = schemaVersion)
    (few : page.total ≤ maxTraceItems) (within : page.cursor.offset.toNat ≤ page.total)
    (short : page.entries.length ≤ maxTracePageItems)
    (ends : page.cursor.offset.toNat + page.entries.length = stop) (inside : stop ≤ page.total)
    (nextIs : page.nextOffset = if stop < page.total then some stop else none)
    (onward : stop < page.total → page.entries ≠ [])
    (well : ∀ entry ∈ page.entries, entry.WellFormed)
    : validateTrace members = .ok () := by
  have small {count : Nat} (bounded : count ≤ page.total) : count < UInt64.size :=
    (bounded.trans few).trans_lt (by decide)
  have resumed
      : page.cursor.resume page.cursor.snapshotId page.cursor.queryId page.total
        = .ok page.cursor.offset := by
    simp [TraceCursor.resume, ensure, current, within, few, bind, Except.bind, pure, Except.pure]
  have added : checkedAdd page.cursor.offset.toNat page.entries.length = some stop := by
    have bounded : stop ≤ u64Max := Nat.le_sub_one_of_lt (small inside)
    rw [checkedAdd, ends, if_pos bounded]
  have written : (page.entries.map TraceEntry.toValue).forM validateEntry = .ok () := by
    refine forM_eq_ok.mpr (fun value member => ?_)
    obtain ⟨entry, listed, rfl⟩ := List.mem_map.mp member
    exact validateEntry_toValue (well entry listed)
  simp only [validateTrace, field, count, array, cursor, total, next, entries, require,
    readCursor_toValue, Value.asU64_natCast (small (Nat.le_refl _)), resumed, Value.asArray,
    List.length_map, bind_eq_ok, ensure_eq_ok, pure_eq_ok, Except.ok.injEq,
    exists_eq_left', short]
  refine ⟨_, ⟨(), trivial, rfl⟩, stop, by rw [List.length_map, added], (), inside, ?_⟩
  by_cases more : stop < page.total
  · rw [nextIs, if_pos more, if_pos more]
    refine bind_eq_ok.mpr ⟨(), ensure_eq_ok.mpr ⟨?_, ?_⟩, written⟩
    · exact fun none => onward more (List.map_eq_nil_iff.mp none)
    · exact Value.asU64_natCast (small inside)
  · rw [nextIs, if_neg more, if_neg more]
    exact bind_eq_ok.mpr ⟨(), ensure_eq_ok.mpr rfl, written⟩

/-- A page of well-formed entries, no longer than pages may be, passes its validation. -/
theorem validateTrace_pageAt {start : Nat} (positive : 0 < size)
    (admissible : size ≤ maxTracePageItems) (within : start ≤ entries.length)
    (few : entries.length ≤ maxTraceItems) (well : ∀ entry ∈ entries, entry.WellFormed)
    : ∃ members,
        (pageAt snapshot query entries size start).toValue = .object members
        ∧ validateTrace members = .ok () := by
  have offset := toNat_offset (within.trans few)
  have stop := @length_pageAt snapshot query entries size start within
  have atStart
      : (pageAt snapshot query entries size start).cursor.offset.toNat = start := offset
  have ends
      : (pageAt snapshot query entries size start).cursor.offset.toNat
          + (pageAt snapshot query entries size start).entries.length
        = min (start + size) entries.length := by
    rw [atStart, stop]
  refine ⟨_, rfl,
    validateTrace_written rfl rfl rfl rfl rfl few ?_ ?_ ends (Nat.min_le_right _ _) rfl ?_ ?_⟩
  · rw [atStart]
    exact within
  · omega
  · intro more none
    rw [none, List.length_nil] at stop
    have : (pageAt snapshot query entries size start).total = entries.length := rfl
    omega
  · intro entry member
    exact well entry (List.mem_of_mem_take (List.mem_of_mem_drop member))

-- Runs

def follow (page : Option TraceCursor → Except PipelineFailure StageTrace)
    : Nat → Option TraceCursor → Option (List StageTrace)
  | 0, _ => none
  | fuel + 1, cursor =>
      match page cursor with
      | .error _ => none
      | .ok trace =>
          match trace.nextCursor with
          | none => some [trace]
          | some token =>
              match TraceCursor.fromToken token with
              | .error _ => none
              | .ok next => (follow page fuel (some next)).map (trace :: ·)

/-- The pages from an offset on, by induction on the entries that may be left. -/
theorem follow_from (positive : 0 < size) (few : entries.length ≤ maxTraceItems) (left : Nat)
    {start : Nat} {cursor : Option TraceCursor} (within : start ≤ entries.length)
    (enough : entries.length ≤ left + start)
    (found
      : pageOf size cursor snapshot query entries
        = .ok (pageAt snapshot query entries size start))
    : ∃ pages,
        (∀ fuel,
          left < fuel
          → follow (fun cursor => pageOf size cursor snapshot query entries) fuel cursor
            = some pages)
        ∧ pages.flatMap StageTrace.entries = entries.drop start
        ∧ ∀ page ∈ pages, ∃ offset ≤ entries.length,
            page = pageAt snapshot query entries size offset := by
  let first := pageAt snapshot query entries size start
  have beyond (rest : List StageTrace)
      (later
        : ∀ page ∈ rest, ∃ offset ≤ entries.length,
            page = pageAt snapshot query entries size offset)
      : ∀ page ∈ first :: rest, ∃ offset ≤ entries.length,
          page = pageAt snapshot query entries size offset :=
    List.forall_mem_cons.mpr ⟨⟨start, within, rfl⟩, later⟩
  by_cases more : start + size < entries.length
  · have inside := Nat.le_of_lt more
    have token : first.nextCursor = some (cursorAt snapshot query (start + size)).toToken := by
      simp [first, pageAt, more, inside]
    have parsed
        : TraceCursor.fromToken (cursorAt snapshot query (start + size)).toToken
          = .ok (cursorAt snapshot query (start + size)) :=
      fromToken_toToken rfl
    cases left with
    | zero => omega
    | succ left =>
        obtain ⟨pages, followed, rest, pagesAt⟩ :=
          follow_from positive few left inside (by omega) (pageOf_some inside few)
        refine ⟨first :: pages, ?_, ?_, beyond pages pagesAt⟩
        · intro fuel enough
          cases fuel with
          | zero => cases enough
          | succ fuel =>
              simp only [follow, found, token, parsed, first,
                followed fuel (Nat.lt_of_succ_lt_succ enough), Option.map_some]
        · rw [List.flatMap_cons, rest]
          simp only [first, pageAt, Nat.min_eq_left inside]
          rw [List.drop_take, Nat.add_sub_cancel_left, ← List.drop_drop, List.take_append_drop]
  · have last : entries.length ≤ start + size := Nat.le_of_not_lt more
    have noToken : first.nextCursor = none := by simp [first, pageAt, last]
    refine ⟨[first], ?_, by simp [first, pageAt, last], beyond [] nofun⟩
    intro fuel enough
    cases fuel with
    | zero => cases enough
    | succ fuel => simp only [follow, found, noToken, first]

variable (snapshot query entries)

/-- Pages of any admissible size: whoever follows the cursors from none comes to an end, with
every entry once and in order, in pages that pass their validation. The token of a cursor of
this version gives it back, and a cursor of another snapshot or query is refused.
-/
theorem pages_lawful (few : entries.length ≤ maxTraceItems)
    (well : ∀ entry ∈ entries, entry.WellFormed) {size : Nat} (positive : 0 < size)
    (admissible : size ≤ maxTracePageItems)
    : (∃ pages,
        (∀ fuel,
          entries.length < fuel
          → follow (fun cursor => pageOf size cursor snapshot query entries) fuel none
            = some pages)
        ∧ pages.flatMap StageTrace.entries = entries
        ∧ ∀ page ∈ pages, ∃ members,
            page.toValue = .object members ∧ validateTrace members = .ok ())
      ∧ (∀ cursor : TraceCursor,
          cursor.schemaVersion = schemaVersion
          → TraceCursor.fromToken cursor.toToken = .ok cursor)
      ∧ ∀ cursor : TraceCursor,
          cursor.snapshotId ≠ snapshot ∨ cursor.queryId ≠ query
          → ∃ failure,
              pageOf size (some cursor) snapshot query entries = .error failure
              ∧ (cursor.schemaVersion = schemaVersion
                → failure = refusedCursor .snapshotChanged) := by
  obtain ⟨pages, followed, all, pagesAt⟩ :=
    follow_from positive few entries.length (Nat.zero_le _) (Nat.le_refl _)
      (@pageOf_none snapshot query entries size)
  refine ⟨⟨pages, followed, all, ?_⟩, fun _ current => fromToken_toToken current,
    fun _ other => pageOf_other other⟩
  intro page member
  obtain ⟨offset, within, rfl⟩ := pagesAt page member
  exact validateTrace_pageAt positive admissible within few well

end Pages

-- Cases

def sampleDigest : ContentHash :=
  { text := String.ofList (List.replicate 64 '0'), digest := by decide +kernel }

def sampleSkill : SkillId := { text := "review", valid := by decide +kernel }

def sampleEntries : List TraceEntry :=
  [.passed sampleSkill .discovery "discovered" none none, .notEvaluated sampleSkill .visibility]

/-- The two stages on a page each. -/
theorem samplePages_lawful
    : ∃ pages,
        (∀ fuel,
          2 < fuel
          → follow (fun cursor => pageOf 1 cursor sampleDigest sampleDigest sampleEntries) fuel none
            = some pages)
        ∧ pages.flatMap StageTrace.entries = sampleEntries := by
  have well : ∀ entry ∈ sampleEntries, entry.WellFormed :=
    List.forall_mem_cons.mpr ⟨wellFormed_passed _ _ (by decide +kernel) _ _,
      List.forall_mem_singleton.mpr (wellFormed_notEvaluated _ _)⟩
  obtain ⟨⟨pages, followed, all, _⟩, _⟩ :=
    pages_lawful sampleDigest sampleDigest sampleEntries (by decide) well Nat.one_pos (by decide)
  exact ⟨pages, followed, all⟩

def otherVersion : TraceCursor :=
  { schemaVersion := 2, snapshotId := sampleDigest, queryId := sampleDigest, offset := 0 }

/-- A stage that passed without a reason. -/
def unreasoned : TraceEntry :=
  { TraceEntry.notEvaluated sampleSkill .discovery with status := .passed }

/-- A cursor of another version is not given back, and a page of an entry without its reason
does not pass.
-/
theorem pages_not_always_lawful
    : TraceCursor.fromToken otherVersion.toToken ≠ .ok otherVersion
      ∧ [unreasoned].length ≤ maxTraceItems
      ∧ ∃ page members,
          pageOf maxTracePageItems none sampleDigest sampleDigest [unreasoned] = .ok page
          ∧ page.toValue = .object members
          ∧ validateTrace members ≠ .ok () := by
  refine ⟨by decide +kernel, by decide, _, _, pageOf_none _, rfl, ?_⟩
  decide +kernel

end SkillRanker.Output
