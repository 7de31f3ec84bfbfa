import SkillRanker.Library.Chunks
import SkillRanker.Storage.Cutoffs

/-! Hook invocations counted at entry: one record of a fixed size is appended for each, and records
are found again by chunks of that size from the start of the file.
-/

namespace SkillRanker.Storage
open SkillRanker.Library

-- Records

/-- `RECORD_LEN`: a time of twenty digits, a space, a token and a newline. -/
def recordLen : Nat := 54

def tokenHex : Nat := 32

def hookEntriesMaxBytes : Nat := 1024 * 1024

def space : UInt8 := 32

def newline : UInt8 := 10

def isHex (byte : UInt8) : Bool := (48 ≤ byte ∧ byte ≤ 57) ∨ (97 ≤ byte ∧ byte ≤ 102)

/-- What an invocation records: its time, as an `i64`, and a random token. -/
structure HookRecord where
  nowUnixMs : Int
  token : List UInt8
  fits : fits64 nowUnixMs = true
  token_length : token.length = tokenHex
  token_hex : token.all isHex = true

namespace HookRecord

def time (record : HookRecord) : Int := max record.nowUnixMs 0

/-- The bytes of a record before its newline. -/
def line (record : HookRecord) : List UInt8 :=
  (padded 20 record.time).map (fun char => UInt8.ofNat char.toNat) ++ space :: record.token

def bytes (record : HookRecord) : List UInt8 := record.line ++ [newline]

end HookRecord

def parseRecord (record : List UInt8) : Option Int :=
  if record.length ≠ recordLen ∨ record[20]? ≠ some space ∨ record[recordLen - 1]? ≠ some newline
  then none
  else if ((record.take (recordLen - 1)).drop 21).all isHex then
    parseI64 ((record.take 20).map fun byte => Char.ofNat byte.toNat)
  else none

-- The counter

abbrev HookFile : Type := Option (List UInt8)

def HookFile.content (file : HookFile) : List UInt8 := file.getD []

def hasRoom (file : HookFile) : Bool :=
  ¬ file.content.length + recordLen > hookEntriesMaxBytes

/-- `try_record`, by what the write leaves in the file: the whole record, or what came before it was
torn.
-/
def tryRecord (file : HookFile) (written : List UInt8) : HookFile :=
  if hasRoom file then some (file.content ++ written) else file

def readEntries (file : HookFile) : Option (List UInt8) :=
  file.map (List.take (hookEntriesMaxBytes + recordLen))

structure HookEntryCount where
  entries : Nat := 0
  firstEntryUnixMs : Option Int := none
  full : Bool := false
  unreadable : Nat := 0
deriving DecidableEq, Repr

def HookEntryCount.add (since til : Int) (count : HookEntryCount) (record : List UInt8)
    : HookEntryCount :=
  match parseRecord record with
  | some time =>
      { count with
        firstEntryUnixMs := some ((count.firstEntryUnixMs.map fun first => min first time).getD time)
        entries := if since ≤ time ∧ time ≤ til then count.entries + 1 else count.entries }
  | none => { count with unreadable := count.unreadable + 1 }

def countHookEntries (file : HookFile) (since til : Int) : HookEntryCount :=
  match readEntries file with
  | none => {}
  | some bytes =>
      (chunks recordLen bytes).foldl (HookEntryCount.add since til)
        { full := bytes.length + recordLen > hookEntriesMaxBytes }

def expiredRecord (cutoff : Int) (record : List UInt8) : Bool :=
  match parseRecord record with
  | some time => time < cutoff
  | none => false

/-- `prune_hook_entries`: the file it leaves and how many records were removed. -/
def pruneHookEntries (file : HookFile) (cutoff : Int) : HookFile × Nat :=
  match readEntries file with
  | none => (file, 0)
  | some bytes =>
      let records := chunks recordLen bytes
      let kept := (records.filter fun record => !expiredRecord cutoff record).flatten
      let removed := (records.filter (expiredRecord cutoff)).length
      (if removed > 0 then some kept else file, removed)

-- Runs

/-- What happens to a counter. -/
inductive HookOp
  /-- A whole record is appended. -/
  | append (record : HookRecord)
  /-- The append of a record is torn: only a part from its start is written. -/
  | tear (record : HookRecord) (written : Nat) (short : written < recordLen)
  | prune (cutoff : Int)

/-- A counter with its history: the whole records that were appended and not pruned, and what torn
appends have written.
-/
structure HookRun where
  file : HookFile
  wholes : List HookRecord
  tears : List (List UInt8)

/-- The counter before its first record. -/
def HookRun.start : HookRun := { file := none, wholes := [], tears := [] }

/-- What an operation does to the file; the history has only what was really written. -/
def HookRun.step (run : HookRun) : HookOp → HookRun
  | .append record =>
      { run with
        file := tryRecord run.file record.bytes
        wholes := if hasRoom run.file then run.wholes ++ [record] else run.wholes }
  | .tear record written _ =>
      { run with
        file := tryRecord run.file (record.bytes.take written)
        tears :=
          if hasRoom run.file then run.tears ++ [record.bytes.take written] else run.tears }
  | .prune cutoff =>
      { run with
        file := (pruneHookEntries run.file cutoff).1
        wholes := run.wholes.filter fun record => cutoff ≤ record.time }

def HookRun.count (run : HookRun) : HookEntryCount :=
  countHookEntries run.file (-(2 ^ 63)) (2 ^ 63 - 1)

/-- Every whole record is counted, and no more is unreadable than there were torn appends. -/
def HookRun.Faithful (run : HookRun) : Prop :=
  run.count.entries = run.wholes.length ∧ run.count.unreadable ≤ run.tears.length

instance (run : HookRun) : Decidable run.Faithful := inferInstanceAs (Decidable (_ ∧ _))

/-- A torn append makes one more record unreadable at most, and hides none. -/
def HookRun.CheapTear (run : HookRun) (op : HookOp) : Prop :=
  match op with
  | .tear _ _ _ =>
      (run.step op).count.entries = run.count.entries
        ∧ (run.step op).count.unreadable ≤ run.count.unreadable + 1
  | _ => True

/-- A whole record that is written now is written where a record may start: what torn appends have
left before it is worth whole records.
-/
def HookRun.Aligned (run : HookRun) : HookOp → Prop
  | .append _ => hasRoom run.file = true → recordLen ∣ (run.tears.map List.length).sum
  | _ => True

-- Reading records

theorem hex_ne_newline {byte : UInt8} (hex : isHex byte = true) : byte ≠ newline := by
  rintro rfl
  exact absurd hex (by decide)

namespace HookRecord

variable (record : HookRecord)

theorem time_nonneg : 0 ≤ record.time := le_max_right _ _

theorem fits_time : fits64 record.time = true := by
  have fits := record.fits
  unfold fits64 at fits ⊢
  unfold time
  simp only [decide_eq_true_eq] at fits ⊢
  omega

theorem padded_time
    : padded 20 record.time = decimal 20 record.time.natAbs := by
  unfold padded
  rw [if_neg (by have := record.time_nonneg; omega)]

theorem length_padded : (padded 20 record.time).length = 20 := by
  have fits := record.fits_time
  have nonneg := record.time_nonneg
  unfold fits64 at fits
  simp only [decide_eq_true_eq] at fits
  rw [padded_time]
  exact length_decimal (by decide) (by omega)

/-- The newline of a record is its last byte. -/
theorem length_line : record.line.length = recordLen - 1 := by
  unfold line
  rw [List.length_append, List.length_map, List.length_cons, length_padded, record.token_length]
  rfl

theorem length_bytes : record.bytes.length = recordLen := by
  unfold bytes
  rw [List.length_append, length_line]
  rfl

theorem newline_not_mem_line : newline ∉ record.line := by
  unfold line
  intro mem
  rcases List.mem_append.mp mem with time | rest
  · obtain ⟨char, mem, byte⟩ := List.mem_map.mp time
    rw [padded_time] at mem
    have bounds := digit_bounds (isDigit_of_mem_decimal mem)
    have value := congrArg UInt8.toNat byte
    rw [UInt8.toNat_ofNat', Nat.mod_eq_of_lt (by omega)] at value
    change char.toNat = 10 at value
    omega
  · rcases List.mem_cons.mp rest with space | token
    · exact absurd space (by decide)
    · exact hex_ne_newline (List.all_eq_true.mp record.token_hex newline token) rfl

theorem charOf_byte {char : Char} (digit : char.isDigit = true)
    : Char.ofNat (UInt8.ofNat char.toNat).toNat = char := by
  have bounds := digit_bounds digit
  rw [UInt8.toNat_ofNat', Nat.mod_eq_of_lt (by omega), Char.ofNat_toNat]

theorem parseRecord_bytes
    : parseRecord record.bytes = some record.time := by
  have digits := record.length_padded
  have shape : record.bytes
      = (padded 20 record.time).map (fun char => UInt8.ofNat char.toNat)
        ++ space :: (record.token ++ [newline]) := by
    unfold bytes line
    rw [List.append_assoc, List.cons_append]
  have spaced : record.bytes[20]? = some space := by
    rw [shape, List.getElem?_append_right (by rw [List.length_map, digits]), List.length_map, digits]
    rfl
  have ended : record.bytes[recordLen - 1]? = some newline := by
    unfold bytes
    rw [List.getElem?_append_right (by rw [length_line]), length_line, Nat.sub_self]
    rfl
  have token : (record.bytes.take (recordLen - 1)).drop 21 = record.token := by
    unfold bytes
    rw [← length_line, List.take_left]
    unfold line
    rw [List.drop_append, List.drop_eq_nil_of_le (by rw [List.length_map, digits]; decide),
      List.length_map, digits]
    rfl
  have time : (record.bytes.take 20).map (fun byte => Char.ofNat byte.toNat)
      = padded 20 record.time := by
    rw [shape, List.take_append_of_le_length (by rw [List.length_map, digits]),
      List.take_of_length_le (by rw [List.length_map, digits]), List.map_map]
    refine (List.map_congr_left fun char mem => ?_).trans (List.map_id _)
    rw [padded_time] at mem
    exact charOf_byte (isDigit_of_mem_decimal mem)
  unfold parseRecord
  rw [if_neg (by simp [length_bytes, spaced, ended]), token, if_pos record.token_hex, time,
    padded_time]
  have fits := record.fits_time
  have value : (record.time.natAbs : Int) = record.time := Int.natAbs_of_nonneg record.time_nonneg
  unfold parseI64
  rw [readInteger_decimal, Option.bind_some, value]
  unfold checked64
  rw [if_pos fits]

end HookRecord

variable {record : List UInt8}

/-- What is read as a record is as long as one, and ends with a newline. -/
theorem parseRecord_eq_some {time : Int} (read : parseRecord record = some time)
    : record.length = recordLen ∧ record[recordLen - 1]? = some newline := by
  unfold parseRecord at read
  split at read
  · cases read
  · next shape =>
    simp only [not_or, not_not] at shape
    exact ⟨shape.1, shape.2.2⟩

theorem parseRecord_fits {time : Int} (read : parseRecord record = some time)
    : -(2 ^ 63) ≤ time ∧ time ≤ 2 ^ 63 - 1 := by
  unfold parseRecord at read
  split at read
  · cases read
  · split at read
    · unfold parseI64 at read
      obtain ⟨value, _, checked⟩ := Option.bind_eq_some_iff.mp read
      unfold checked64 fits64 at checked
      split at checked
      · next fits =>
        simp only [decide_eq_true_eq] at fits
        obtain rfl := Option.some.inj checked
        omega
      · cases checked
    · cases read

-- Counting

def readable (bytes : List UInt8) : List Int := (chunks recordLen bytes).filterMap parseRecord

/-- How many chunks of a file are no records. -/
def unreadable (bytes : List UInt8) : Nat :=
  ((chunks recordLen bytes).filter fun record => (parseRecord record).isNone).length

/-- The count of some records, by induction on them. -/
theorem foldl_add (since til : Int) (records : List (List UInt8)) (count : HookEntryCount)
    : let total := records.foldl (HookEntryCount.add since til) count
      total.entries
          = count.entries
            + ((records.filterMap parseRecord).filter fun time => since ≤ time ∧ time ≤ til).length
        ∧ total.unreadable
          = count.unreadable + (records.filter fun record => (parseRecord record).isNone).length := by
  induction records generalizing count with
  | nil => exact ⟨rfl, rfl⟩
  | cons first rest ih =>
      obtain ⟨entries, unread⟩ := ih (count.add since til first)
      dsimp only at entries unread ⊢
      rw [List.foldl_cons, entries, unread]
      cases read : parseRecord first with
      | none =>
          unfold HookEntryCount.add
          rw [read, List.filterMap_cons_none read, List.filter_cons_of_pos (by rw [read]; rfl),
            List.length_cons]
          exact ⟨rfl, by dsimp only; omega⟩
      | some time =>
          have others
              : (first :: rest).filter (fun record => (parseRecord record).isNone)
                = rest.filter fun record => (parseRecord record).isNone :=
            List.filter_cons_of_neg (by rw [read]; exact Bool.false_ne_true)
          unfold HookEntryCount.add
          rw [read, List.filterMap_cons_some read, others, List.filter_cons]
          refine ⟨?_, rfl⟩
          dsimp only
          by_cases inside : since ≤ time ∧ time ≤ til
          · rw [if_pos inside, if_pos (decide_eq_true inside), List.length_cons]
            omega
          · rw [if_neg inside, if_neg (by rw [decide_eq_true_eq]; exact inside)]

variable {file : HookFile}

/-- Over the whole time range every readable record is counted. -/
theorem countHookEntries_whole (bounded : file.content.length ≤ hookEntriesMaxBytes)
    : let count := countHookEntries file (-(2 ^ 63)) (2 ^ 63 - 1)
      count.entries = (readable file.content).length
        ∧ count.unreadable = unreadable file.content := by
  cases file with
  | none => exact ⟨by simp [countHookEntries, readEntries, readable, HookFile.content],
      by simp [countHookEntries, readEntries, unreadable, HookFile.content]⟩
  | some bytes =>
      change bytes.length ≤ _ at bounded
      have whole : readEntries (some bytes) = some bytes := by
        change some (bytes.take _) = _
        rw [List.take_of_length_le (by omega)]
      obtain ⟨entries, unread⟩ := foldl_add (-(2 ^ 63)) (2 ^ 63 - 1) (chunks recordLen bytes)
        { full := bytes.length + recordLen > hookEntriesMaxBytes }
      have all : ((chunks recordLen bytes).filterMap parseRecord).filter
            (fun time => -(2 ^ 63) ≤ time ∧ time ≤ 2 ^ 63 - 1)
          = readable bytes := by
        refine List.filter_eq_self.mpr fun time mem => ?_
        obtain ⟨record, _, read⟩ := List.mem_filterMap.mp mem
        exact decide_eq_true (parseRecord_fits read)
      unfold countHookEntries
      rw [whole]
      dsimp only at entries unread ⊢
      rw [entries, unread, all]
      exact ⟨Nat.zero_add _, Nat.zero_add _⟩

-- Appending

theorem recordLen_pos : 0 < recordLen := by decide

/-- A file splits into whole chunks and a rest that is no record. -/
theorem exists_rest (bytes : List UInt8)
    : ∃ (pieces : List (List UInt8)) (rest : List UInt8), bytes = pieces.flatten ++ rest
      ∧ (∀ piece ∈ pieces, piece.length = recordLen) ∧ rest.length = bytes.length % recordLen :=
  exists_chunked recordLen_pos bytes

/-- The chunks after whole ones are read for themselves. -/
theorem readable_append {pieces : List (List UInt8)}
    (whole : ∀ piece ∈ pieces, piece.length = recordLen) (rest : List UInt8)
    : readable (pieces.flatten ++ rest) = pieces.filterMap parseRecord ++ readable rest
      ∧ unreadable (pieces.flatten ++ rest)
        = (pieces.filter fun record => (parseRecord record).isNone).length + unreadable rest := by
  unfold readable unreadable
  rw [chunks_flatten_append recordLen_pos whole, List.filterMap_append, List.filter_append,
    List.length_append]
  exact ⟨rfl, rfl⟩

/-- What is too short for a record, or does not end with a newline, is unreadable. -/
theorem readable_of_no_record {bytes : List UInt8} (short : bytes.length ≤ recordLen)
    (noRecord : parseRecord bytes = none)
    : readable bytes = [] ∧ unreadable bytes = if bytes = [] then 0 else 1 := by
  unfold readable unreadable
  by_cases empty : bytes = []
  · subst empty
    simp
  · rw [chunks_of_short empty short, if_neg empty]
    simp [noRecord]

theorem parseRecord_of_short {bytes : List UInt8} (short : bytes.length < recordLen)
    : parseRecord bytes = none := by
  cases read : parseRecord bytes with
  | none => rfl
  | some time =>
      have length := (parseRecord_eq_some read).1
      omega

/-- Bytes without a newline where a record would end are never read, whatever comes before them, and
make one more chunk unreadable at most.
-/
theorem readable_append_quiet (bytes : List UInt8) {more : List UInt8}
    (short : more.length ≤ recordLen)
    (quiet : newline ∉ more.take (recordLen - bytes.length % recordLen))
    : readable (bytes ++ more) = readable bytes
      ∧ unreadable (bytes ++ more) ≤ unreadable bytes + 1 := by
  obtain ⟨pieces, rest, rfl, whole, length⟩ := exists_rest bytes
  have partial' : rest.length < recordLen := length ▸ Nat.mod_lt _ recordLen_pos
  rw [← length] at quiet
  obtain ⟨readBefore, unreadBefore⟩ := readable_append whole rest
  obtain ⟨readAfter, unreadAfter⟩ := readable_append whole (rest ++ more)
  obtain ⟨restRead, restUnread⟩ :=
    readable_of_no_record (Nat.le_of_lt partial') (parseRecord_of_short partial')
  rw [List.append_assoc, readBefore, readAfter, unreadBefore, unreadAfter, restRead, restUnread]
  by_cases within : (rest ++ more).length ≤ recordLen
  · -- all of it is in one chunk
    have noRecord : parseRecord (rest ++ more) = none := by
      cases read : parseRecord (rest ++ more) with
      | none => rfl
      | some time =>
          obtain ⟨full, last⟩ := parseRecord_eq_some read
          rw [List.length_append] at full within
          rw [List.getElem?_append_right (by omega)] at last
          rw [List.take_of_length_le (by omega)] at quiet
          exact absurd (List.mem_of_getElem? last) quiet
    obtain ⟨moreRead, moreUnread⟩ := readable_of_no_record within noRecord
    rw [moreRead, moreUnread]
    refine ⟨rfl, ?_⟩
    split <;> omega
  · -- one chunk is filled up and another one begun
    rw [List.length_append] at within
    obtain ⟨filled, begun, moreIs, filledIs⟩
        : ∃ filled begun, more = filled ++ begun ∧ filled.length = recordLen - rest.length :=
      ⟨more.take (recordLen - rest.length), more.drop (recordLen - rest.length),
        (List.take_append_drop _ _).symm, by rw [List.length_take]; omega⟩
    subst moreIs
    rw [List.length_append] at within short
    rw [← filledIs, List.take_left] at quiet
    have full : (rest ++ filled).length = recordLen := by
      rw [List.length_append]
      omega
    have noRecord : parseRecord (rest ++ filled) = none := by
      cases read : parseRecord (rest ++ filled) with
      | none => rfl
      | some time =>
          have last := (parseRecord_eq_some read).2
          rw [List.getElem?_append_right (by omega)] at last
          exact absurd (List.mem_of_getElem? last) quiet
    have restNonempty : rest ≠ [] := List.length_pos_iff.mp (by omega)
    have fullNonempty : rest ++ filled ≠ [] := List.append_ne_nil_of_left_ne_nil restNonempty _
    obtain ⟨filledRead, filledUnread⟩ := readable_of_no_record (Nat.le_of_eq full) noRecord
    have begunShort : begun.length < recordLen := by
      have := List.length_pos_iff.mpr restNonempty
      omega
    obtain ⟨begunRead, begunUnread⟩ :=
      readable_of_no_record (Nat.le_of_lt begunShort) (parseRecord_of_short begunShort)
    have single : ∀ piece ∈ [rest ++ filled], piece.length = recordLen := by
      intro piece mem
      rw [List.mem_singleton] at mem
      exact mem ▸ full
    obtain ⟨moreRead, moreUnread⟩ := readable_append single begun
    rw [List.flatten_singleton, List.append_assoc] at moreRead moreUnread
    rw [moreRead, moreUnread, begunRead, begunUnread, if_neg restNonempty]
    refine ⟨by simp [noRecord], ?_⟩
    have one : ([rest ++ filled].filter fun record => (parseRecord record).isNone).length ≤ 1 :=
      List.length_filter_le _ _
    split <;> omega

/-- A whole record where one may start is read, and nothing else changes. -/
theorem readable_append_record {bytes : List UInt8} (aligned : recordLen ∣ bytes.length)
    (record : HookRecord)
    : readable (bytes ++ record.bytes) = readable bytes ++ [record.time]
      ∧ unreadable (bytes ++ record.bytes) = unreadable bytes := by
  obtain ⟨pieces, rest, rfl, whole, length⟩ := exists_rest bytes
  rw [Nat.mod_eq_zero_of_dvd aligned, List.length_eq_zero_iff] at length
  subst length
  rw [List.append_nil]
  obtain ⟨read, unread⟩ := readable_append whole record.bytes
  obtain ⟨readBefore, unreadBefore⟩ := readable_append whole []
  rw [List.append_nil] at readBefore unreadBefore
  have nonempty : record.bytes ≠ [] :=
    List.length_pos_iff.mp (by rw [record.length_bytes]; exact recordLen_pos)
  have single : chunks recordLen record.bytes = [record.bytes] :=
    chunks_of_short nonempty (Nat.le_of_eq record.length_bytes)
  rw [read, unread, readBefore, unreadBefore]
  unfold readable unreadable
  rw [single]
  simp [record.parseRecord_bytes]

/-- A whole record where none may start is not read. -/
theorem readable_append_misaligned {bytes : List UInt8} (misaligned : ¬ recordLen ∣ bytes.length)
    (record : HookRecord)
    : readable (bytes ++ record.bytes) = readable bytes := by
  refine (readable_append_quiet bytes (Nat.le_of_eq record.length_bytes) ?_).1
  have positive : bytes.length % recordLen ≠ 0 := fun zero => misaligned (Nat.dvd_of_mod_eq_zero zero)
  intro mem
  unfold HookRecord.bytes at mem
  rw [List.take_append_of_le_length (by rw [record.length_line]; omega)] at mem
  exact record.newline_not_mem_line (List.mem_of_mem_take mem)

theorem newline_not_mem_torn (record : HookRecord) {written : Nat} (short : written < recordLen)
    : newline ∉ record.bytes.take written := by
  intro mem
  unfold HookRecord.bytes at mem
  rw [List.take_append_of_le_length (by rw [record.length_line]; omega)] at mem
  exact record.newline_not_mem_line (List.mem_of_mem_take mem)

-- Pruning

theorem expiredRecord_eq_true {cutoff : Int} (expired : expiredRecord cutoff record = true)
    : ∃ time, parseRecord record = some time ∧ time < cutoff := by
  unfold expiredRecord at expired
  cases read : parseRecord record with
  | none =>
      rw [read] at expired
      cases expired
  | some time =>
      rw [read] at expired
      exact ⟨time, rfl, of_decide_eq_true expired⟩

/-- What is kept of some chunks is what is readable from the cutoff on and all that is unreadable, by
induction on the chunks.
-/
theorem readable_kept (cutoff : Int) (records : List (List UInt8))
    : let kept := records.filter fun record => !expiredRecord cutoff record
      kept.filterMap parseRecord
          = (records.filterMap parseRecord).filter (fun time => cutoff ≤ time)
        ∧ kept.filter (fun record => (parseRecord record).isNone)
          = records.filter (fun record => (parseRecord record).isNone)
        ∧ records.flatten.length
          = kept.flatten.length + recordLen * (records.filter (expiredRecord cutoff)).length := by
  induction records with
  | nil => exact ⟨rfl, rfl, rfl⟩
  | cons first rest ih =>
      obtain ⟨read, unread, length⟩ := ih
      dsimp only at read unread length ⊢
      by_cases expired : expiredRecord cutoff first = true
      · obtain ⟨time, timeIs, old⟩ := expiredRecord_eq_true expired
        have size := (parseRecord_eq_some timeIs).1
        rw [List.filter_cons_of_neg (by rw [expired]; exact Bool.false_ne_true),
          List.filter_cons_of_pos expired, List.filterMap_cons_some timeIs,
          List.filter_cons_of_neg (by rw [decide_eq_true_eq]; omega),
          List.filter_cons_of_neg (by rw [timeIs]; exact Bool.false_ne_true),
          List.flatten_cons, List.length_append, length, size, List.length_cons, Nat.mul_succ]
        exact ⟨read, unread, by omega⟩
      · rw [List.filter_cons_of_pos (by simpa using expired), List.filter_cons_of_neg expired,
          List.flatten_cons, List.flatten_cons, List.length_append, List.length_append, length]
        refine ⟨?_, ?_, by omega⟩
        · cases timeIs : parseRecord first with
          | none => rw [List.filterMap_cons_none timeIs, List.filterMap_cons_none timeIs, read]
          | some time =>
              have recent : cutoff ≤ time := by
                by_contra old
                refine expired ?_
                unfold expiredRecord
                rw [timeIs]
                exact decide_eq_true (by omega)
              have stays
                  : (time :: rest.filterMap parseRecord).filter (fun time => cutoff ≤ time)
                    = time :: (rest.filterMap parseRecord).filter (fun time => cutoff ≤ time) :=
                List.filter_cons_of_pos (decide_eq_true recent)
              rw [List.filterMap_cons_some timeIs, List.filterMap_cons_some timeIs, read, stays]
        · rw [List.filter_cons, List.filter_cons, unread]

/-- A prune leaves the records from the cutoff on, all that is unreadable, and every record where it
may start.
-/
theorem pruneHookEntries_spec (bounded : file.content.length ≤ hookEntriesMaxBytes) (cutoff : Int)
    : let pruned := (pruneHookEntries file cutoff).1.content
      readable pruned = (readable file.content).filter (fun time => cutoff ≤ time)
        ∧ unreadable pruned = unreadable file.content
        ∧ pruned.length % recordLen = file.content.length % recordLen
        ∧ pruned.length ≤ file.content.length := by
  cases file with
  | none =>
      have empty : readable [] = [] := by
        unfold readable
        rw [chunks_nil]
        rfl
      refine ⟨?_, rfl, rfl, Nat.le_refl _⟩
      change readable [] = (readable []).filter _
      rw [empty]
      rfl
  | some bytes =>
      change bytes.length ≤ _ at bounded
      have whole : readEntries (some bytes) = some bytes := by
        change some (bytes.take _) = _
        rw [List.take_of_length_le (by omega)]
      obtain ⟨cut, joined⟩ := chunked_chunks recordLen_pos bytes
      obtain ⟨read, unread, length⟩ := readable_kept cutoff (chunks recordLen bytes)
      have keptCut := cut.filter fun record => !expiredRecord cutoff record
      have keptChunks := keptCut.chunks_flatten
      rw [joined] at length
      -- the file is the kept records also when nothing was removed
      have left : (pruneHookEntries (some bytes) cutoff).1.content
          = ((chunks recordLen bytes).filter fun record => !expiredRecord cutoff record).flatten := by
        unfold pruneHookEntries
        rw [whole]
        dsimp only
        split
        · rfl
        · next none =>
          have all : (chunks recordLen bytes).filter (fun record => !expiredRecord cutoff record)
              = chunks recordLen bytes := by
            refine List.filter_eq_self.mpr fun record mem => ?_
            have empty : (chunks recordLen bytes).filter (expiredRecord cutoff) = [] :=
              List.length_eq_zero_iff.mp (by omega)
            have kept := List.filter_eq_nil_iff.mp empty record mem
            simpa using kept
          rw [all, joined]
          rfl
      dsimp only at read unread length ⊢
      rw [left]
      change _ ∧ _ ∧ _ = bytes.length % recordLen ∧ _ ≤ bytes.length
      refine ⟨?_, ?_, ?_, by omega⟩
      · unfold readable
        rw [keptChunks, read]
        rfl
      · unfold unreadable
        rw [keptChunks, unread]
        rfl
      · rw [length, Nat.add_mul_mod_self_left]

-- What a run keeps

/-- The whole records are what is readable, and no more is unreadable than was torn. -/
structure HookRun.Sound (run : HookRun) : Prop where
  bounded : run.file.content.length ≤ hookEntriesMaxBytes
  readable_eq : readable run.file.content = run.wholes.map HookRecord.time
  unreadable_le : unreadable run.file.content ≤ run.tears.length
  place : run.file.content.length % recordLen = (run.tears.map List.length).sum % recordLen

variable {run : HookRun}

theorem HookRun.Sound.faithful (sound : run.Sound) : run.Faithful := by
  obtain ⟨entries, unread⟩ := countHookEntries_whole sound.bounded
  unfold Faithful count
  refine ⟨?_, ?_⟩
  · rw [entries, sound.readable_eq, List.length_map]
  · rw [unread]
    exact sound.unreadable_le

theorem tryRecord_content (room : hasRoom file = true) (written : List UInt8)
    : (tryRecord file written).content = file.content ++ written := by
  unfold tryRecord
  rw [if_pos room]
  rfl

theorem tryRecord_full (full : ¬ hasRoom file = true) (written : List UInt8)
    : tryRecord file written = file := by
  unfold tryRecord
  rw [if_neg full]

theorem length_le_of_hasRoom (room : hasRoom file = true) {written : List UInt8}
    (short : written.length ≤ recordLen)
    : (file.content ++ written).length ≤ hookEntriesMaxBytes := by
  unfold hasRoom at room
  simp only [decide_eq_true_eq] at room
  rw [List.length_append]
  omega

section

variable (sound : run.Sound)
include sound

/-- A torn append costs no more than itself. -/
theorem HookRun.Sound.tear (record : HookRecord) (written : Nat) (short : written < recordLen)
    : (run.step (.tear record written short)).Sound := by
  by_cases room : hasRoom run.file = true
  · have length : (record.bytes.take written).length ≤ recordLen := by
      rw [List.length_take]
      omega
    have quiet
        : newline
          ∉ (record.bytes.take written).take
            (recordLen - run.file.content.length % recordLen) :=
      fun mem => newline_not_mem_torn record short (List.mem_of_mem_take mem)
    obtain ⟨read, unread⟩ := readable_append_quiet run.file.content length quiet
    unfold step
    dsimp only
    rw [if_pos room]
    constructor <;> dsimp only <;> rw [tryRecord_content room]
    · exact length_le_of_hasRoom room length
    · rw [read, sound.readable_eq]
    · rw [List.length_append, List.length_singleton]
      have before := sound.unreadable_le
      omega
    · rw [List.length_append, List.map_append, List.sum_append, List.map_singleton,
        List.sum_singleton, Nat.add_mod, sound.place, ← Nat.add_mod]
  · unfold step
    dsimp only
    rw [if_neg room, tryRecord_full room]
    exact sound

/-- A whole record is counted if it is written where a record may start. -/
theorem HookRun.Sound.append (record : HookRecord) (aligned : run.Aligned (.append record))
    : (run.step (.append record)).Sound := by
  by_cases room : hasRoom run.file = true
  · have divides : recordLen ∣ run.file.content.length :=
      Nat.dvd_of_mod_eq_zero (sound.place.trans (Nat.mod_eq_zero_of_dvd (aligned room)))
    obtain ⟨read, unread⟩ := readable_append_record divides record
    unfold step
    dsimp only
    rw [if_pos room]
    constructor <;> dsimp only <;> rw [tryRecord_content room]
    · exact length_le_of_hasRoom room (Nat.le_of_eq record.length_bytes)
    · rw [read, sound.readable_eq, List.map_append, List.map_singleton]
    · rw [unread]
      exact sound.unreadable_le
    · rw [List.length_append, record.length_bytes, Nat.add_mod_right, sound.place]
  · unfold step
    dsimp only
    rw [if_neg room, tryRecord_full room]
    exact sound

/-- A whole record is hidden if it is written where no record may start. -/
theorem HookRun.Sound.not_faithful_append (record : HookRecord)
    (misaligned : ¬ run.Aligned (.append record))
    : ¬ (run.step (.append record)).Faithful := by
  obtain ⟨room, partway⟩ := Classical.not_imp.mp misaligned
  have unaligned : ¬ recordLen ∣ run.file.content.length := fun divides =>
    partway (Nat.dvd_of_mod_eq_zero (sound.place.symm.trans (Nat.mod_eq_zero_of_dvd divides)))
  have bounded := length_le_of_hasRoom room (Nat.le_of_eq record.length_bytes)
  have read := readable_append_misaligned unaligned record
  intro faithful
  obtain ⟨counted, _⟩ := faithful
  unfold step count at counted
  dsimp only at counted
  rw [if_pos room] at counted
  rw [← tryRecord_content room] at bounded read
  rw [(countHookEntries_whole bounded).1, read, sound.readable_eq, List.length_map,
    List.length_append] at counted
  simp at counted

/-- A prune removes the records before its cutoff. -/
theorem HookRun.Sound.prune (cutoff : Int)
    : (run.step (.prune cutoff)).Sound := by
  obtain ⟨read, unread, place, length⟩ := pruneHookEntries_spec sound.bounded cutoff
  constructor
  · exact Nat.le_trans length sound.bounded
  · unfold step
    dsimp only
    rw [read, sound.readable_eq, List.filter_map]
    rfl
  · unfold step
    dsimp only
    rw [unread]
    exact sound.unreadable_le
  · unfold step
    dsimp only
    rw [place, sound.place]

omit sound in
theorem HookRun.start_sound : HookRun.start.Sound :=
  ⟨Nat.zero_le _, rfl, Nat.zero_le _, rfl⟩

/-- Every operation keeps a run sound, as long as whole records are written where one may start. -/
theorem HookRun.Sound.step {op : HookOp} (aligned : run.Aligned op)
    : (run.step op).Sound := by
  cases op with
  | append record => exact sound.append record aligned
  | tear record written short => exact sound.tear record written short
  | prune cutoff => exact sound.prune cutoff

/-- An operation that is not aligned is an append, and hides its record. -/
theorem HookRun.Sound.not_faithful_step {op : HookOp} (misaligned : ¬ run.Aligned op)
    : ¬ (run.step op).Faithful := by
  cases op with
  | append record => exact sound.not_faithful_append record misaligned
  | tear record written short => exact absurd trivial misaligned
  | prune cutoff => exact absurd trivial misaligned

/-- Whole records that are written where one may start leave a sound run, by induction on the
operations.
-/
theorem HookRun.Sound.foldl {ops : List HookOp}
    (aligned : ∀ done op, done ++ [op] <+: ops → (done.foldl HookRun.step run).Aligned op)
    : (ops.foldl HookRun.step run).Sound := by
  induction ops generalizing run with
  | nil => exact sound
  | cons first rest ih =>
      have now := aligned [] first (List.cons_prefix_cons.mpr ⟨rfl, List.nil_prefix⟩)
      refine ih (sound.step now) fun done op part => ?_
      exact aligned (first :: done) op (List.cons_prefix_cons.mpr ⟨rfl, part⟩)

/-- The first whole record that is not written where one may start is hidden: if every count is right
there is none, by induction on the operations.
-/
theorem HookRun.Sound.aligned_of_faithful {ops : List HookOp}
    (faithful : ∀ done, done <+: ops → (done.foldl HookRun.step run).Faithful)
    : ∀ done op, done ++ [op] <+: ops → (done.foldl HookRun.step run).Aligned op := by
  induction ops generalizing run with
  | nil =>
      intro done op part
      have empty := List.eq_nil_of_prefix_nil part
      exact absurd empty (List.append_ne_nil_of_right_ne_nil _ (List.cons_ne_nil _ _))
  | cons first rest ih =>
      have now : run.Aligned first := by
        by_contra misaligned
        refine sound.not_faithful_step misaligned ?_
        exact faithful [first] (List.cons_prefix_cons.mpr ⟨rfl, List.nil_prefix⟩)
      have later := ih (sound.step now) fun done part =>
        faithful (first :: done) (List.cons_prefix_cons.mpr ⟨rfl, part⟩)
      intro done op part
      cases done with
      | nil =>
          obtain ⟨rfl, _⟩ := List.cons_prefix_cons.mp part
          exact now
      | cons head more =>
          obtain ⟨rfl, inside⟩ := List.cons_prefix_cons.mp part
          exact later more op inside

/-- A torn append of a sound run makes one more chunk unreadable at most, and hides no record. -/
theorem HookRun.Sound.cheap (op : HookOp)
    : run.CheapTear op := by
  cases op with
  | append record => exact trivial
  | prune cutoff => exact trivial
  | tear record written short =>
      obtain ⟨entries, unread⟩ := countHookEntries_whole sound.bounded
      have after := (sound.tear record written short).bounded
      obtain ⟨entriesAfter, unreadAfter⟩ := countHookEntries_whole after
      unfold CheapTear count
      dsimp only at entries unread entriesAfter unreadAfter ⊢
      rw [entries, unread, entriesAfter, unreadAfter]
      unfold HookRun.step
      dsimp only
      by_cases room : hasRoom run.file = true
      · have length : (record.bytes.take written).length ≤ recordLen := by
          rw [List.length_take]
          omega
        have quiet
            : newline
              ∉ (record.bytes.take written).take
                (recordLen - run.file.content.length % recordLen) :=
          fun mem => newline_not_mem_torn record short (List.mem_of_mem_take mem)
        obtain ⟨read, more⟩ := readable_append_quiet run.file.content length quiet
        rw [tryRecord_content room, read]
        exact ⟨rfl, more⟩
      · rw [tryRecord_full room]
        exact ⟨rfl, Nat.le_succ _⟩

end

/-- Every count of a counter is right, and every torn append costs no more than itself, exactly if
every whole record is written where a record may start.
-/
theorem hookEntries_faithful_iff (ops : List HookOp)
    : ((∀ done, done <+: ops → (done.foldl HookRun.step .start).Faithful)
        ∧ ∀ done op, done ++ [op] <+: ops → (done.foldl HookRun.step .start).CheapTear op)
      ↔ ∀ done op, done ++ [op] <+: ops → (done.foldl HookRun.step .start).Aligned op := by
  constructor
  · rintro ⟨faithful, _⟩
    exact HookRun.start_sound.aligned_of_faithful faithful
  · intro aligned
    have sound (done : List HookOp) (part : done <+: ops)
        : (done.foldl HookRun.step .start).Sound :=
      HookRun.start_sound.foldl fun before op inside => aligned before op (inside.trans part)
    refine ⟨fun done part => (sound done part).faithful, fun done op part => ?_⟩
    exact (sound done ((List.prefix_append _ _).trans part)).cheap op

def sampleRecord : HookRecord where
  nowUnixMs := 1000
  token := List.replicate tokenHex 97
  fits := by decide
  token_length := by decide
  token_hex := by decide

/-- Four bytes of a torn record hide the whole record after them. -/
theorem torn_hides_next
    : ¬ ([.tear sampleRecord 4 (by decide), .append sampleRecord].foldl HookRun.step
        HookRun.start).Faithful := by
  decide +kernel

end SkillRanker.Storage
