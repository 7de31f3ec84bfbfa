import SkillRanker.Context.Cleaning
import SkillRanker.Library.Offsets

/-! Cuts at byte offsets, as the source makes them, and the cuts between characters that they come
to.
-/

namespace SkillRanker.Context

open SkillRanker.Library SkillRanker.Privacy

section

variable (text : List Char)

-- The cuts of the source

def byteAt (chars : Nat) : Nat := byteSize (text.take chars)

/-- `&text[..place]`, unless the place is no boundary of characters. -/
def upTo (place : Nat) : Option (List Char) := sliceTo Char.utf8Size place text

def onFrom (place : Nat) : Option (List Char) := sliceFrom Char.utf8Size place text

/-- The places of the markers, `match_indices`. -/
def markerPlaces : List Nat := (occurrences redactionMarker 0 0 text).map (byteAt text)

/-- Where the marker at a place ends, with the quote that closes it where one does. -/
def markerEndPlace (start : Nat) : Option Nat := do
  let stop := start + byteSize redactionMarker
  let before ← upTo text start
  let after ← onFrom text stop
  match before.getLast?, after.head? with
  | some opening, some closing =>
      some (if isQuote opening && closing = opening then stop + 1 else stop)
  | _, _ => some stop

def markerLeadPlace (start : Nat) : Option Nat :=
  (upTo text start).map fun before =>
    byteSize (before.rdropWhile fun char => isWhitespace char || isQuote char)

/-- One byte on from the start of the last white space, `rfind(..).map_or(0, |space| space + 1)`. -/
def behindSpacePlace (before : List Char) : Nat :=
  match before.rdropWhile fun char => !isWhitespace char with
  | [] => 0
  | first :: rest => byteSize (first :: rest).dropLast + 1

def headEndPlaceFrom (place limit : Nat) : List Nat → Option Nat
  | [] => some place
  | start :: later => do
      let stop ← markerEndPlace text start
      let lead ← markerLeadPlace text start
      if place < lead then some place
      else if place < stop then
        if stop ≤ limit then some stop else (upTo text lead).map behindSpacePlace
      else headEndPlaceFrom place limit later

def redactedHeadEndPlace (place limit : Nat) : Option Nat :=
  headEndPlaceFrom text place limit (markerPlaces text)

def tailStartPlaceFrom (place : Nat) : List Nat → Nat
  | [] => place
  | start :: later =>
      if place ≤ start then place
      else if place < start + byteSize redactionMarker then start + byteSize redactionMarker
      else tailStartPlaceFrom place later

def redactedTailStartPlace (place : Nat) : Nat := tailStartPlaceFrom place (markerPlaces text)

/-- A head and a tail of so many characters together, as the places between which the text is cut
out.
-/
def placesAround (head budget : Nat) : Option (Nat × Nat) := do
  let headEnd ← redactedHeadEndPlace text (byteAt text head) (byteAt text budget)
  let kept ← upTo text headEnd
  let tailChars ← checkedSub budget kept.length
  let skipped ← checkedSub text.length tailChars
  some (headEnd, max (redactedTailStartPlace text (byteAt text skipped)) headEnd)

def ellipsizedPlaces (maxChars : Nat) : Option (List Char) :=
  match maxChars with
  | 0 => some []
  | kept + 1 => do
      let stop ← redactedHeadEndPlace text (byteAt text kept) (byteAt text kept)
      let head ← upTo text stop
      if ¬redactionMarker.isSuffixOf head then some (head ++ ['…'])
      else if head.length + 2 ≤ kept + 1 then some (head ++ [' ', '…'])
      else do
        let place ← checkedSub stop 1
        let stop ← redactedHeadEndPlace text place place
        (upTo text stop).map (· ++ ['…'])

/-- `head_tail_truncate`, or none where the source panics. -/
def headTailTruncatePlaces (maxChars : Nat) : Option (List Char) :=
  if text.length ≤ maxChars then some text
  else if maxChars ≤ noteLength text then ellipsizedPlaces text maxChars
  else do
    let budget ← checkedSub maxChars (noteLength text)
    let (headEnd, tailStart) ← placesAround text (budget / 2) budget
    let omitted ← slice Char.utf8Size headEnd tailStart text
    let head ← upTo text headEnd
    let tail ← onFrom text tailStart
    some (head ++ omissionNote (decimal 0 omitted.length) ++ tail)

def excerptPlaces (maxScalars : Nat) : Option (Nat × Nat) := do
  if maxScalars ≤ excerptJoin.length then
    let stop := byteAt text maxScalars
    let headEnd ← redactedHeadEndPlace text stop stop
    some (headEnd, byteSize text)
  else
    let budget ← checkedSub maxScalars excerptJoin.length
    placesAround text ((budget + 1) / 2) budget

/-- The text with a join in place of what is between two places, where a tail is left, and the
number of characters between them.
-/
def joinedAt (places : Nat × Nat) : Option (List Char × Nat) := do
  let omitted ← slice Char.utf8Size places.1 places.2 text
  let join := if places.2 < byteSize text then excerptJoin else []
  let head ← upTo text places.1
  let tail ← onFrom text places.2
  some (head ++ join ++ tail, omitted.length)

def redactFieldExcerptPlaces (scanner : Scanner) (redactor : Redactor) (field : List Char)
    (maxScalars : Nat)
    : Panicking RedactionError RedactedField := do
  returned (ensure (maxScalars ≤ maxRedactedExcerptScalars) .excerptTooLong)
  let result ← returned (redactor.redactField scanner field)
  if result.text.length ≤ maxScalars then return result
  else
    let places ← present (excerptPlaces result.text maxScalars)
    let (excerpt, omitted) ← present (joinedAt result.text places)
    return { result with
      text := excerpt
      omittedScalars := omitted
    }

-- Places and characters

variable {text}

theorem upTo_byteAt (chars : Nat) : upTo text (byteAt text chars) = some (text.take chars) :=
  sliceTo_take Char.utf8Size_pos text chars

theorem onFrom_byteAt (chars : Nat) : onFrom text (byteAt text chars) = some (text.drop chars) :=
  sliceFrom_take Char.utf8Size_pos text chars

theorem byteAt_lt_iff {one two : Nat} (first : one ≤ text.length) (second : two ≤ text.length)
    : byteAt text one < byteAt text two ↔ one < two :=
  room_take_lt_iff Char.utf8Size_pos first second

theorem byteAt_le_iff {one two : Nat} (first : one ≤ text.length) (second : two ≤ text.length)
    : byteAt text one ≤ byteAt text two ↔ one ≤ two :=
  room_take_le_iff Char.utf8Size_pos first second

/-- Behind more characters, by the room that those take. -/
theorem byteAt_add (chars more : Nat)
    : byteAt text (chars + more) = byteAt text chars + byteSize ((text.drop chars).take more) := by
  rw [byteAt, List.take_add, byteSize_append]
  rfl

/-- The place behind a part of the text that begins it. -/
theorem byteSize_of_isPrefix {front : List Char} (begins : front <+: text)
    : byteSize front = byteAt text front.length := by
  rw [byteAt, ← List.prefix_iff_eq_take.mp begins]

variable {start : Nat}

section

variable (mem : start ∈ occurrences redactionMarker 0 0 text)
include mem

theorem marker_at
    : ∃ after, text.drop start = redactionMarker ++ after
        ∧ start + redactionMarker.length ≤ text.length := by
  obtain ⟨before, after, rfl, rfl⟩ := of_mem_occurrences mem
  refine ⟨after, ?_, ?_⟩
  · rw [Nat.zero_add, List.append_assoc, List.drop_left]
  · rw [List.length_append, List.length_append]
    omega

theorem byteAt_marker
    : byteAt text (start + redactionMarker.length)
      = byteAt text start + byteSize redactionMarker := by
  obtain ⟨after, stands, _⟩ := marker_at mem
  rw [byteAt_add, stands, List.take_left]

omit mem in
theorem utf8Size_of_isQuote {char : Char} (quote : isQuote char = true) : char.utf8Size = 1 := by
  rcases Bool.or_eq_true_iff.mp quote with double | single
  · rw [of_decide_eq_true double]
    rfl
  · rw [of_decide_eq_true single]
    rfl

theorem markerEndPlace_byteAt
    : markerEndPlace text (byteAt text start) = some (byteAt text (markerEnd text start))
      ∧ markerEnd text start ≤ text.length := by
  obtain ⟨after, stands, inside⟩ := marker_at mem
  unfold markerEndPlace markerEnd
  simp only [← byteAt_marker mem, upTo_byteAt, onFrom_byteAt, Option.bind_eq_bind,
    Option.bind_some]
  cases last : (text.take start).getLast? with
  | none => exact ⟨rfl, inside⟩
  | some opening =>
      cases first : (text.drop (start + redactionMarker.length)).head? with
      | none => exact ⟨rfl, inside⟩
      | some closing =>
          dsimp only
          by_cases quoted : (isQuote opening && decide (closing = opening)) = true
          · rw [if_pos quoted, if_pos quoted]
            obtain ⟨quote, same⟩ := Bool.and_eq_true_iff.mp quoted
            obtain ⟨rest, behind⟩ := List.head?_eq_some_iff.mp first
            have one : closing.utf8Size = 1 := by
              rw [of_decide_eq_true same]
              exact utf8Size_of_isQuote quote
            have more := congrArg List.length behind
            rw [List.length_drop, List.length_cons] at more
            refine ⟨?_, by omega⟩
            have one_on := @byteAt_add text (start + redactionMarker.length) 1
            rw [behind] at one_on
            exact congrArg some ((congrArg (_ + ·) one.symm).trans one_on.symm)
          · rw [if_neg quoted, if_neg quoted]
            exact ⟨rfl, inside⟩

end

theorem markerLeadPlace_byteAt (start : Nat)
    : markerLeadPlace text (byteAt text start) = some (byteAt text (markerLead text start)) := by
  rw [markerLeadPlace, upTo_byteAt, Option.map_some, markerLead, Option.some.injEq]
  exact byteSize_of_isPrefix ((List.rdropWhile_prefix _ _).trans (List.take_prefix _ _))

/-- A place of the source is the place of a character, or no place to cut at. -/
def PlaceOf (text : List Char) (place : Nat) : Option Nat → Prop
  | some chars => chars ≤ text.length ∧ place = byteAt text chars
  | none => upTo text place = none

theorem behindSpacePlace_of (before : List Char) (begins : before <+: text)
    : PlaceOf text (behindSpacePlace before) (behindLastSpace before) := by
  have shorter := List.rdropWhile_prefix (fun char => !isWhitespace char) before
  unfold behindSpacePlace behindLastSpace
  dsimp only
  cases kept : before.rdropWhile fun char => !isWhitespace char with
  | nil => exact ⟨Nat.zero_le _, rfl⟩
  | cons first rest =>
      rw [kept] at shorter
      have inside := (shorter.trans begins).length_le
      have whole := List.dropLast_append_getLast (List.cons_ne_nil first rest)
      have size := congrArg byteSize whole
      rw [byteSize_append, byteSize_of_isPrefix (shorter.trans begins)] at size
      rw [List.getLast?_eq_some_getLast (List.cons_ne_nil first rest)]
      dsimp only
      have alone : byteSize [(first :: rest).getLast (List.cons_ne_nil first rest)]
          = ((first :: rest).getLast (List.cons_ne_nil first rest)).utf8Size := Nat.add_zero _
      split
      next one => exact ⟨inside, by omega⟩
      next wide =>
          have some := Char.utf8Size_pos ((first :: rest).getLast (List.cons_ne_nil first rest))
          have early : byteSize (first :: rest).dropLast = byteAt text rest.length := by
            have begun := (List.dropLast_prefix (first :: rest)).trans (shorter.trans begins)
            rw [byteSize_of_isPrefix begun, List.length_dropLast, List.length_cons]
            rfl
          rw [List.length_cons] at inside size
          cases found : upTo text (byteSize (first :: rest).dropLast + 1) with
          | none => exact found
          | some front =>
              obtain ⟨cut, held, rfl⟩ := Option.map_eq_some_iff.mp found
              obtain ⟨parts, taken⟩ := (cutAt_eq_some Char.utf8Size_pos).mp held
              have begun : cut.1 <+: text := ⟨cut.2, parts.symm⟩
              have place := byteSize_of_isPrefix begun
              rw [show byteSize cut.1 = _ from taken, early] at place
              have below := (byteAt_lt_iff (show rest.length ≤ text.length by omega)
                begun.length_le).mp (by omega)
              have above := (byteAt_lt_iff begun.length_le inside).mp (by omega)
              omega

variable {cut : Nat}

theorem headEndPlaceFrom_of {limit : Nat} {markers : List Nat} (cutInside : cut ≤ text.length)
    (limitInside : limit ≤ text.length)
    (all : ∀ start ∈ markers, start ∈ occurrences redactionMarker 0 0 text)
    : ∃ stop,
        headEndPlaceFrom text (byteAt text cut) (byteAt text limit) (markers.map (byteAt text))
          = some stop
        ∧ PlaceOf text stop (headEndFrom text cut limit markers) := by
  induction markers with
  | nil => exact ⟨_, rfl, cutInside, rfl⟩
  | cons start later ih =>
      obtain ⟨ending, endInside⟩ := markerEndPlace_byteAt (all start List.mem_cons_self)
      have leadInside := @markerLead_le text start
      simp only [List.map_cons, headEndPlaceFrom, ending, markerLeadPlace_byteAt, headEndFrom,
        Option.bind_eq_bind, Option.bind_some, byteAt_lt_iff cutInside leadInside,
        byteAt_lt_iff cutInside endInside, byteAt_le_iff endInside limitInside]
      split
      · exact ⟨_, rfl, cutInside, rfl⟩
      · split
        · split
          · exact ⟨_, rfl, endInside, rfl⟩
          · rw [upTo_byteAt]
            exact ⟨_, rfl, behindSpacePlace_of _ (List.take_prefix _ _)⟩
        · exact ih fun other mem => all other (List.mem_cons_of_mem _ mem)

theorem redactedHeadEndPlace_of {limit : Nat} (cutInside : cut ≤ text.length)
    (limitInside : limit ≤ text.length)
    : ∃ stop,
        redactedHeadEndPlace text (byteAt text cut) (byteAt text limit) = some stop
        ∧ PlaceOf text stop (redactedHeadEnd text cut limit) :=
  headEndPlaceFrom_of cutInside limitInside fun _ mem => mem

theorem tailStartPlaceFrom_byteAt {markers : List Nat} (inside : cut ≤ text.length)
    (all : ∀ start ∈ markers, start ∈ occurrences redactionMarker 0 0 text)
    : tailStartPlaceFrom (byteAt text cut) (markers.map (byteAt text))
      = byteAt text (tailStartFrom cut markers) := by
  induction markers with
  | nil => rfl
  | cons start later ih =>
      obtain ⟨_, _, within⟩ := marker_at (all start List.mem_cons_self)
      simp only [List.map_cons, tailStartPlaceFrom, tailStartFrom,
        ← byteAt_marker (all start List.mem_cons_self), byteAt_lt_iff inside within,
        byteAt_le_iff inside (Nat.le_of_add_right_le within)]
      split
      · rfl
      · split
        · rfl
        · exact ih fun other mem => all other (List.mem_cons_of_mem _ mem)

theorem redactedTailStartPlace_byteAt (inside : cut ≤ text.length)
    : redactedTailStartPlace text (byteAt text cut) = byteAt text (redactedTailStart text cut) :=
  tailStartPlaceFrom_byteAt inside fun _ mem => mem

/-- The later of two characters has the later place. -/
theorem byteAt_max {one two : Nat} (first : one ≤ text.length) (second : two ≤ text.length)
    : max (byteAt text one) (byteAt text two) = byteAt text (max one two) := by
  rcases Nat.le_total one two with le | le
  · rw [Nat.max_eq_right le, Nat.max_eq_right ((byteAt_le_iff first second).mpr le)]
  · rw [Nat.max_eq_left le, Nat.max_eq_left ((byteAt_le_iff second first).mpr le)]

/-- A head and a tail are cut at the places of their characters. -/
theorem placesAround_of {head budget : Nat} (within : head ≤ budget)
    (short : budget ≤ text.length)
    : placesAround text head budget
      = (cutAround text head budget).map fun cut =>
          (byteAt text cut.headEnd, byteAt text cut.tailStart) := by
  obtain ⟨stop, ends, place⟩ := redactedHeadEndPlace_of (within.trans short) short
  unfold placesAround cutAround
  rw [ends, Option.bind_eq_bind, Option.bind_some]
  cases found : redactedHeadEnd text head budget with
  | none =>
      rw [found] at place
      rw [show upTo text stop = none from place]
      rfl
  | some headEnd =>
      rw [found] at place
      obtain ⟨inside, rfl⟩ := place
      have limit := redactedHeadEnd_le within found
      have length : (text.take headEnd).length = headEnd :=
        List.length_take_of_le inside
      simp only [upTo_byteAt, Option.bind_some, Option.bind_eq_bind, length, checkedSub_eq limit,
        checkedSub_eq (show budget - headEnd ≤ text.length by omega), Option.map_some,
        redactedTailStartPlace_byteAt (Nat.sub_le text.length (budget - headEnd)),
        byteAt_max (redactedTailStart_le (Nat.sub_le text.length (budget - headEnd))) inside]

/-- What is between the places of two characters. -/
theorem slice_byteAt {stop : Nat} (ordered : start ≤ stop)
    : slice Char.utf8Size (byteAt text start) (byteAt text stop) text
      = some ((text.take stop).drop start) :=
  slice_take Char.utf8Size_pos text ordered

theorem length_between {stop : Nat} (inside : stop ≤ text.length)
    : ((text.take stop).drop start).length = stop - start := by
  rw [List.length_drop, List.length_take_of_le inside]

/-- A head ends before its tail starts. -/
theorem cutAround_ordered {head budget : Nat} {cut : Cut}
    (found : cutAround text head budget = some cut)
    : cut.headEnd ≤ cut.tailStart := by
  obtain ⟨headEnd, _, rfl⟩ := Option.map_eq_some_iff.mp found
  exact Nat.le_max_right _ _

theorem ellipsizedPlaces_of {maxChars : Nat} (short : maxChars ≤ text.length)
    : ellipsizedPlaces text maxChars = ellipsized text maxChars := by
  unfold ellipsizedPlaces ellipsized
  cases maxChars with
  | zero => rfl
  | succ kept =>
      have keptInside : kept ≤ text.length := by omega
      obtain ⟨stop, ends, place⟩ := redactedHeadEndPlace_of keptInside keptInside
      simp only [ends, Option.bind_eq_bind, Option.bind_some]
      cases found : redactedHeadEnd text kept kept with
      | none =>
          rw [found] at place
          rw [show upTo text stop = none from place]
          rfl
      | some chars =>
          rw [found] at place
          obtain ⟨inside, rfl⟩ := place
          simp only [upTo_byteAt, Option.bind_some]
          split
          · rfl
          next marked =>
              split
              · rfl
              · -- the head ends in a marker, whose last character takes one byte
                obtain ⟨front, whole⟩ := List.isSuffixOf_iff_suffix.mp (not_not.mp marked)
                have size := congrArg byteSize whole
                have length := congrArg List.length whole
                have marker : redactionMarker = "[REDACTED".toList ++ [']'] := by decide
                rw [List.length_append, List.length_take_of_le inside,
                  show redactionMarker.length = 10 by decide] at length
                have front' : front ++ "[REDACTED".toList = text.take (chars - 1) := by
                  rw [marker, ← List.append_assoc] at whole
                  have dropped := congrArg List.dropLast whole
                  rw [List.dropLast_concat, List.dropLast_eq_take, List.take_take,
                    List.length_take_of_le inside, Nat.min_eq_left (Nat.sub_le _ _)] at dropped
                  exact dropped
                have before : byteAt text chars = byteAt text (chars - 1) + 1 := by
                  rw [byteAt, ← whole, marker, ← List.append_assoc, byteSize_append, front']
                  rfl
                have earlier : chars - 1 ≤ text.length := by omega
                obtain ⟨stop', ends', place'⟩ := redactedHeadEndPlace_of earlier earlier
                rw [before, checkedSub_eq (Nat.le_add_left _ _), Option.bind_some,
                  Nat.add_sub_cancel, ends', Option.bind_some]
                cases found' : redactedHeadEnd text (chars - 1) (chars - 1) with
                | none =>
                    rw [found'] at place'
                    rw [show upTo text stop' = none from place']
                    rfl
                | some last =>
                    rw [found'] at place'
                    obtain ⟨_, rfl⟩ := place'
                    rw [upTo_byteAt]
                    rfl

/-- `head_tail_truncate` cuts between characters, or panics. -/
theorem headTailTruncatePlaces_eq (text : List Char) (maxChars : Nat)
    : headTailTruncatePlaces text maxChars = headTailTruncate text maxChars := by
  unfold headTailTruncatePlaces headTailTruncate
  split
  · rfl
  next long =>
      split
      · exact ellipsizedPlaces_of (by omega)
      next room =>
          have half : (maxChars - noteLength text) / 2 ≤ maxChars - noteLength text :=
            Nat.div_le_self _ _
          simp only [checkedSub_eq (show noteLength text ≤ maxChars by omega),
            Option.bind_eq_bind, Option.bind_some,
            placesAround_of half (show maxChars - noteLength text ≤ text.length by omega)]
          cases found : cutAround text ((maxChars - noteLength text) / 2)
              (maxChars - noteLength text) with
          | none => rfl
          | some cut =>
              have inside := (cutAround_fits half (by omega) found).2
              simp only [Option.map_some, Option.bind_some, upTo_byteAt, onFrom_byteAt, withNote,
                slice_byteAt (cutAround_ordered found), length_between inside]

/-- What is left out is joined at the places of its characters. -/
theorem joinedAt_byteAt {cut : Cut} (ordered : cut.headEnd ≤ cut.tailStart)
    (inside : cut.tailStart ≤ text.length)
    : joinedAt text (byteAt text cut.headEnd, byteAt text cut.tailStart)
      = some (cut.joined text, cut.tailStart - cut.headEnd) := by
  have ending : byteAt text cut.tailStart < byteSize text ↔ cut.tailStart < text.length := by
    have all : byteSize text = byteAt text text.length := by rw [byteAt, List.take_length]
    rw [all, byteAt_lt_iff inside le_rfl]
  simp only [joinedAt, Cut.joined, upTo_byteAt, onFrom_byteAt, slice_byteAt ordered,
    length_between inside, ending, Option.bind_eq_bind, Option.bind_some]

theorem excerptPlaces_joined {maxScalars : Nat} (short : maxScalars < text.length)
    : (excerptPlaces text maxScalars >>= joinedAt text)
      = (excerptCut text maxScalars).map fun cut =>
          (cut.joined text, cut.tailStart - cut.headEnd) := by
  unfold excerptPlaces excerptCut
  split
  · obtain ⟨stop, ends, place⟩ := redactedHeadEndPlace_of short.le short.le
    simp only [ends, Option.bind_eq_bind, Option.bind_some]
    cases found : redactedHeadEnd text maxScalars maxScalars with
    | none =>
        rw [found] at place
        have panics : slice Char.utf8Size stop (byteSize text) text = none := by
          have whole : sliceTo Char.utf8Size (byteSize text) text = some text := by
            have all := @upTo_byteAt text text.length
            rw [List.take_length, byteAt, List.take_length] at all
            exact all
          rw [slice, whole, Option.bind_eq_bind, Option.bind_some, sliceFrom]
          exact Option.map_eq_none_iff.mpr (Option.map_eq_none_iff.mp place)
        rw [joinedAt, panics]
        rfl
    | some headEnd =>
        rw [found] at place
        obtain ⟨inside, rfl⟩ := place
        have joined := @joinedAt_byteAt text { headEnd := headEnd, tailStart := text.length } inside
          le_rfl
        rw [show byteAt text text.length = byteSize text by rw [byteAt, List.take_length]] at joined
        exact joined
  next room =>
      have half : (maxScalars - excerptJoin.length + 1) / 2 ≤ maxScalars - excerptJoin.length := by
        omega
      simp only [checkedSub_eq (show excerptJoin.length ≤ maxScalars by omega),
        Option.bind_eq_bind, Option.bind_some,
        placesAround_of half (show maxScalars - excerptJoin.length ≤ text.length by omega)]
      cases found : cutAround text ((maxScalars - excerptJoin.length + 1) / 2)
          (maxScalars - excerptJoin.length) with
      | none => rfl
      | some cut =>
          exact joinedAt_byteAt (cutAround_ordered found) (cutAround_fits half (by omega) found).2

/-- `redact_field_excerpt` leaves out what is between characters, or panics. -/
theorem redactFieldExcerptPlaces_eq (scanner : Scanner) (redactor : Redactor)
    (field : List Char) (maxScalars : Nat)
    : redactFieldExcerptPlaces scanner redactor field maxScalars
      = redactor.redactFieldExcerpt scanner field maxScalars := by
  unfold redactFieldExcerptPlaces Redactor.redactFieldExcerpt
  congr 1
  funext _
  congr 1
  funext result
  split
  · rfl
  next long =>
      have joined := excerptPlaces_joined (Nat.not_le.mp long)
      cases cut : excerptCut result.text maxScalars with
      | none =>
          rw [cut] at joined
          cases places : excerptPlaces result.text maxScalars with
          | none => rfl
          | some places' =>
              rw [places, Option.bind_eq_bind, Option.bind_some] at joined
              simp only [present_bind, joined, Option.map_none]
              rfl
      | some cut' =>
          rw [cut] at joined
          obtain ⟨places, found, made⟩ := Option.bind_eq_some_iff.mp joined
          simp only [found, present_bind, made]

end

-- When the cuts are safe: what white space a head may go back to

variable {text : List Char}

-- Markers

/-- Two markers of a text do not share a character. -/
theorem markers_spaced {one two : Nat} (first : one ∈ occurrences redactionMarker 0 0 text)
    (second : two ∈ occurrences redactionMarker 0 0 text) (ordered : one < two)
    : one + redactionMarker.length ≤ two := by
  have spaced := (occurrences_spaced redactionMarker text 0 0).2
  refine List.Pairwise.forall_of_forall_of_flip (R := fun one two =>
    one < two → one + redactionMarker.length ≤ two) ?_ (spaced.imp ?_) (spaced.imp ?_) first
      second ordered
  · exact fun start _ before => absurd before (Nat.lt_irrefl _)
  · exact fun apart _ => apart
  · intro one two apart before
    omega

theorem markerLead_le_start (start : Nat) : markerLead text start ≤ start :=
  ((List.rdropWhile_prefix _ _).length_le).trans (List.length_take_le _ _)

theorem length_redactionMarker : redactionMarker.length = 10 := by decide

/-- A marker ends behind itself, or behind the quote that closes it. -/
theorem markerEnd_cases (start : Nat)
    : markerEnd text start = start + 10
      ∨ markerEnd text start = start + 11
        ∧ ∃ quote, isQuote quote = true ∧ text[start + 10]? = some quote := by
  unfold markerEnd
  rw [length_redactionMarker]
  dsimp only
  split
  next opening closing _ first =>
      split
      next quoted =>
          obtain ⟨quote, same⟩ := Bool.and_eq_true_iff.mp quoted
          rw [List.head?_drop] at first
          exact .inr ⟨rfl, closing, of_decide_eq_true same ▸ quote, first⟩
      · exact .inl rfl
  · exact .inl rfl

variable {start : Nat}

theorem getElem?_marker {offset : Nat} (mem : start ∈ occurrences redactionMarker 0 0 text)
    (inside : offset < 10)
    : text[start + offset]? = redactionMarker[offset]? := by
  obtain ⟨after, stands, _⟩ := marker_at mem
  rw [← List.getElem?_drop, stands, List.getElem?_append_left (by
    rw [length_redactionMarker]
    exact inside)]

theorem le_markerLead {one two : Nat} (first : one ∈ occurrences redactionMarker 0 0 text)
    (behind : one + 10 ≤ two)
    : one + 10 ≤ markerLead text two := by
  have last := getElem?_marker first (show 9 < 10 by decide)
  have inside : one + 9 < text.length := (List.getElem?_eq_some_iff.mp last).1
  have parts : text.take two
      = text.take (one + 9) ++ [']'] ++ (text.drop (one + 10)).take (two - (one + 10)) := by
    have bracket : text.take (one + 9) ++ [']'] = text.take (one + 10) := by
      have step : text.take (one + 10) = text.take (one + 9) ++ text[one + 9]?.toList :=
        List.take_add_one
      rw [step, last]
      rfl
    rw [bracket, ← List.take_add]
    congr 1
    omega
  have kept := @append_isPrefix_rdropWhile _ (fun char => isWhitespace char || isQuote char)
    (text.take (one + 9)) ((text.drop (one + 10)).take (two - (one + 10))) ']' (by decide)
  have length := kept.length_le
  rw [← parts, List.length_append, List.length_take_of_le inside.le, List.length_singleton]
    at length
  exact length

-- Where a head ends

variable (text)

/-- The first marker that ends behind a cut. -/
def struck (cut : Nat) : Option Nat :=
  (occurrences redactionMarker 0 0 text).find? fun start => cut < markerEnd text start

/-- A cut falls into a marker, or between it and what is before it, and the marker ends beyond the
limit.
-/
structure CutsOff (cut limit start : Nat) : Prop where
  first : struck text cut = some start
  behindLead : markerLead text start ≤ cut
  beyond : limit < markerEnd text start

def LastSpace (before left : List Char) (space : Char) : Prop :=
  ∃ right,
    before = left ++ [space] ++ right ∧ isWhitespace space = true
    ∧ ∀ char ∈ right, isWhitespace char = false

/-- The last white space before a marker that is cut off takes one byte. -/
def Narrow (cut limit : Nat) : Prop :=
  ∀ start left space,
    CutsOff text cut limit start
    → LastSpace (text.take (markerLead text start)) left space
    → space.utf8Size = 1

def EndsAssignment (text : List Char) : Prop := text.getLast? = some '=' ∨ text.getLast? = some ':'

/-- The last white space before a marker that is cut off is not between an earlier assignment and
its own marker.
-/
def Apart (cut limit : Nat) : Prop :=
  ∀ start left space,
    CutsOff text cut limit start
    → LastSpace (text.take (markerLead text start)) left space
    → ¬∃ earlier ∈ occurrences redactionMarker 0 0 text,
        EndsAssignment (text.take (markerLead text earlier))
        ∧ markerLead text earlier ≤ left.length ∧ left.length < earlier

def SplitsMarker (cut : Nat) : Prop :=
  ∃ start ∈ occurrences redactionMarker 0 0 text,
    start < cut ∧ cut < start + redactionMarker.length

/-- A cut is between an assignment and its marker. -/
def Strands (cut : Nat) : Prop :=
  ∃ start ∈ occurrences redactionMarker 0 0 text,
    EndsAssignment (text.take (markerLead text start))
    ∧ markerLead text start ≤ cut ∧ cut ≤ start

variable {text}

/-- The markers before the one that is struck end before the cut. -/
theorem headEndFrom_eq (cut limit : Nat) (markers : List Nat)
    : headEndFrom text cut limit markers
      = match markers.find? fun start => cut < markerEnd text start with
        | none => some cut
        | some start =>
            if cut < markerLead text start then some cut
            else if markerEnd text start ≤ limit then some (markerEnd text start)
            else behindLastSpace (text.take (markerLead text start)) := by
  induction markers with
  | nil => rfl
  | cons start later ih =>
      have lead := @markerLead_le_start text start
      rw [headEndFrom, List.find?_cons]
      by_cases hit : cut < markerEnd text start
      · rw [decide_eq_true hit, if_pos hit]
      · have ending := @markerEnd_cases text start
        rw [decide_eq_false hit, if_neg hit, if_neg (by omega)]
        exact ih

variable {before left : List Char} {space : Char}

/-- The last white space is where what is behind it has been dropped. -/
theorem rdropWhile_of_lastSpace (last : LastSpace before left space)
    : before.rdropWhile (fun char => !isWhitespace char) = left ++ [space] := by
  obtain ⟨right, rfl, white, others⟩ := last
  rw [rdropWhile_append_of_dropped fun char mem => by rw [others char mem]; rfl,
    List.rdropWhile_concat, if_neg (by rw [white]; nofun)]

theorem exists_lastSpace (before : List Char)
    : (∃ left space, LastSpace before left space)
      ∨ before.rdropWhile (fun char => !isWhitespace char) = [] := by
  induction before using List.reverseRecOn with
  | nil => exact .inr rfl
  | append_singleton front next ih =>
      by_cases white : isWhitespace next = true
      · exact .inl ⟨front, next, [], (List.append_nil _).symm, white, nofun⟩
      · rw [Bool.not_eq_true] at white
        rcases ih with ⟨left, space, right, rfl, isSpace, others⟩ | none
        · refine .inl ⟨left, space, right ++ [next], by rw [List.append_assoc], isSpace, ?_⟩
          intro char mem
          rcases List.mem_append.mp mem with earlier | last
          · exact others char earlier
          · cases List.mem_singleton.mp last
            exact white
        · refine .inr ?_
          rw [List.rdropWhile_concat, if_pos (by rw [white]; rfl)]
          exact none

/-- One byte on from the last white space is behind it exactly if it takes one byte. -/
theorem behindLastSpace_of_lastSpace (last : LastSpace before left space)
    : behindLastSpace before = if space.utf8Size = 1 then some (left.length + 1) else none := by
  unfold behindLastSpace
  rw [rdropWhile_of_lastSpace last]
  dsimp only
  rw [List.getLast?_concat]
  dsimp only
  rw [List.length_append, List.length_singleton]

theorem behindLastSpace_of_none (none : before.rdropWhile (fun char => !isWhitespace char) = [])
    : behindLastSpace before = some 0 := by
  unfold behindLastSpace
  rw [none]
  rfl

theorem not_lastSpace (none : before.rdropWhile (fun char => !isWhitespace char) = [])
    : ¬LastSpace before left space := by
  intro last
  rw [rdropWhile_of_lastSpace last] at none
  exact List.append_ne_nil_of_right_ne_nil _ (List.cons_ne_nil _ _) none

variable {cut limit : Nat}

theorem CutsOff.redactedHeadEnd (cutsOff : CutsOff text cut limit start)
    : redactedHeadEnd text cut limit
      = behindLastSpace (text.take (markerLead text start)) := by
  have first := cutsOff.first
  unfold struck at first
  have lead := cutsOff.behindLead
  have beyond := cutsOff.beyond
  rw [Privacy.redactedHeadEnd, headEndFrom_eq, first]
  dsimp only
  rw [if_neg (by omega), if_neg (by omega)]

/-- Where no marker is cut off, the head ends at the cut or behind a marker that fits. -/
theorem redactedHeadEnd_of_fits (fits : ∀ start, ¬CutsOff text cut limit start)
    : redactedHeadEnd text cut limit = some cut
        ∧ (struck text cut = none
          ∨ ∃ start, struck text cut = some start ∧ cut < markerLead text start)
      ∨ ∃ start,
          struck text cut = some start ∧ markerLead text start ≤ cut
          ∧ markerEnd text start ≤ limit
          ∧ redactedHeadEnd text cut limit = some (markerEnd text start) := by
  rw [Privacy.redactedHeadEnd, headEndFrom_eq]
  cases first : struck text cut with
  | none =>
      have none := first
      unfold struck at none
      rw [none]
      exact .inl ⟨rfl, .inl rfl⟩
  | some start =>
      have some := first
      unfold struck at some
      rw [some]
      dsimp only
      by_cases before : cut < markerLead text start
      · rw [if_pos before]
        exact .inl ⟨rfl, .inr ⟨start, rfl, before⟩⟩
      · have ends : markerEnd text start ≤ limit := by
          by_contra beyond
          exact fits start ⟨first, Nat.not_lt.mp before, Nat.not_le.mp beyond⟩
        rw [if_neg before, if_pos ends]
        exact .inr ⟨start, rfl, Nat.not_lt.mp before, ends, rfl⟩

/-- A head ends somewhere exactly if the white space is narrow. -/
theorem exists_redactedHeadEnd_iff
    : (∃ place, redactedHeadEnd text cut limit = some place) ↔ Narrow text cut limit := by
  by_cases fits : ∃ start, CutsOff text cut limit start
  · obtain ⟨start, cutsOff⟩ := fits
    rw [cutsOff.redactedHeadEnd]
    constructor
    · rintro ⟨place, found⟩ other left space cutsOther last
      cases cutsOff.first.symm.trans cutsOther.first
      rw [behindLastSpace_of_lastSpace last] at found
      by_contra wide
      rw [if_neg wide] at found
      cases found
    · intro narrow
      rcases exists_lastSpace (text.take (markerLead text start)) with ⟨left, space, last⟩ | none
      · rw [behindLastSpace_of_lastSpace last, if_pos (narrow start left space cutsOff last)]
        exact ⟨_, rfl⟩
      · exact ⟨0, behindLastSpace_of_none none⟩
  · have fits' : ∀ start, ¬CutsOff text cut limit start :=
      fun start cutsOff => fits ⟨start, cutsOff⟩
    refine ⟨fun _ start left space cutsOff => absurd cutsOff (fits' start), fun _ => ?_⟩
    rcases redactedHeadEnd_of_fits fits' with ⟨found, _⟩ | ⟨start, _, _, _, found⟩
    · exact ⟨_, found⟩
    · exact ⟨_, found⟩

-- What a head keeps whole

/-- The markers up to the one that is struck end before the cut, and no marker does where none is
struck.
-/
theorem markerEnd_le_of_before {earlier : Nat} (first : struck text cut = some start)
    (mem : earlier ∈ occurrences redactionMarker 0 0 text) (before : earlier < start)
    : markerEnd text earlier ≤ cut := by
  obtain ⟨_, front, back, parts, others⟩ := List.find?_eq_some_iff_append.mp first
  have spaced := (occurrences_spaced redactionMarker text 0 0).2
  rw [parts] at mem spaced
  rcases List.mem_append.mp mem with inFront | inBack
  · have passed := others earlier inFront
    simp only [Bool.not_eq_true', decide_eq_false_iff_not, Nat.not_lt] at passed
    exact passed
  · rcases List.mem_cons.mp inBack with rfl | later
    · exact absurd before (Nat.lt_irrefl _)
    · have apart := List.rel_of_pairwise_cons (List.pairwise_append.mp spaced).2.1 later
      omega

theorem markerEnd_le_of_none {earlier : Nat} (none : struck text cut = none)
    (mem : earlier ∈ occurrences redactionMarker 0 0 text)
    : markerEnd text earlier ≤ cut := by
  have passed := List.find?_eq_none.mp none earlier mem
  simpa using passed

theorem mem_of_struck (first : struck text cut = some start)
    : start ∈ occurrences redactionMarker 0 0 text ∧ cut < markerEnd text start :=
  ⟨List.mem_of_find?_eq_some first, by simpa using List.find?_some first⟩

/-- What leads to a marker ends in no white space, no quote and no bracket of a marker. -/
theorem EndsAssignment.not_quote (assigns : EndsAssignment before) {last : Char}
    (ends : before.getLast? = some last)
    : isWhitespace last = false ∧ isQuote last = false ∧ last ≠ ']' := by
  rcases assigns with equals | colon
  · cases ends.symm.trans equals
    decide
  · cases ends.symm.trans colon
    decide

theorem getLast?_take {count : Nat} (inside : count < text.length)
    : (text.take (count + 1)).getLast? = text[count]? := by
  rw [List.take_add_one, List.getElem?_eq_getElem inside]
  exact List.getLast?_concat

/-- A cut before the lead of every marker that is not yet at its end splits and strands nothing. -/
theorem whole_of_ends
    (ends
      : ∀ start ∈ occurrences redactionMarker 0 0 text,
          markerEnd text start ≤ cut ∨ cut < markerLead text start)
    : ¬SplitsMarker text cut ∧ ¬Strands text cut := by
  constructor
  · rintro ⟨start, mem, after, before⟩
    have lead := @markerLead_le_start text start
    have ending := @markerEnd_cases text start
    rw [length_redactionMarker] at before
    rcases ends start mem with done | later
    all_goals omega
  · rintro ⟨start, mem, _, after, before⟩
    have ending := @markerEnd_cases text start
    rcases ends start mem with done | later
    all_goals omega

/-- A head that ends behind a marker keeps every marker whole. -/
theorem whole_of_markerEnd (mem : start ∈ occurrences redactionMarker 0 0 text)
    : ¬SplitsMarker text (markerEnd text start) ∧ ¬Strands text (markerEnd text start) := by
  have ending := @markerEnd_cases text start
  constructor
  · rintro ⟨other, otherMem, after, before⟩
    rw [length_redactionMarker] at before
    rcases Nat.lt_trichotomy other start with earlier | rfl | later
    · have apart := markers_spaced otherMem mem earlier
      rw [length_redactionMarker] at apart
      omega
    · omega
    · have apart := markers_spaced mem otherMem later
      rw [length_redactionMarker] at apart
      obtain plain | ⟨closed, quote, isQuote, stands⟩ := ending
      · omega
      · -- the quote stands where the next marker would begin
        have opens := @getElem?_marker text other 0 otherMem (by decide)
        rw [show other + 0 = start + 10 by omega, stands] at opens
        cases opens
        revert isQuote
        decide
  · rintro ⟨other, otherMem, assigns, after, before⟩
    have lead := @markerLead_le_start text other
    rcases Nat.lt_trichotomy other start with earlier | rfl | later
    · omega
    · omega
    · have apart := markers_spaced mem otherMem later
      rw [length_redactionMarker] at apart
      have behind := le_markerLead mem apart
      have inside := (marker_at otherMem).choose_spec.2
      rw [length_redactionMarker] at inside
      by_cases touching : markerLead text other = start + 10
      · have bracket := @getElem?_marker text start 9 mem (by decide)
        have last := @getLast?_take text (start + 9) (by omega)
        rw [bracket, show start + 9 + 1 = markerLead text other by omega] at last
        exact (assigns.not_quote last).2.2 rfl
      · obtain plain | ⟨closed, quote, isQuote, stands⟩ := ending
        · omega
        · have last := @getLast?_take text (start + 10) (by omega)
          rw [stands, show start + 10 + 1 = markerLead text other by omega] at last
          have plain := (assigns.not_quote last).2.1
          rw [isQuote] at plain
          cases plain

/-- A head that ends behind the last white space before a marker keeps every marker whole. It
strands an assignment exactly if the white space is between it and its marker.
-/
theorem whole_behind_space (last : LastSpace (text.take (markerLead text start)) left space)
    : ¬SplitsMarker text (left.length + 1)
      ∧ (Strands text (left.length + 1)
        ↔ ∃ earlier ∈ occurrences redactionMarker 0 0 text,
            EndsAssignment (text.take (markerLead text earlier))
            ∧ markerLead text earlier ≤ left.length ∧ left.length < earlier) := by
  obtain ⟨right, whole, white, _⟩ := last
  have stands : text[left.length]? = some space := by
    have there : (text.take (markerLead text start))[left.length]? = some space := by
      rw [whole, List.append_assoc, List.getElem?_append_right le_rfl, Nat.sub_self]
      rfl
    rw [List.getElem?_take] at there
    split at there
    · exact there
    · cases there
  constructor
  · rintro ⟨other, mem, after, before⟩
    rw [length_redactionMarker] at before
    obtain ⟨offset, is⟩ := Nat.exists_eq_add_of_le (Nat.le_of_lt_succ after)
    have char := getElem?_marker mem (show offset < 10 by omega)
    rw [← is, stands] at char
    have plain : redactionMarker.all (fun char => !isWhitespace char) = true := by decide
    have dark := List.all_eq_true.mp plain space (List.mem_of_getElem? char.symm)
    rw [white] at dark
    cases dark
  · constructor
    · rintro ⟨earlier, mem, assigns, after, before⟩
      refine ⟨earlier, mem, assigns, ?_, before⟩
      by_contra beyond
      have inside := (List.getElem?_eq_some_iff.mp stands).1
      have ends := @getLast?_take text left.length inside
      rw [stands, show left.length + 1 = markerLead text earlier by omega] at ends
      rw [(assigns.not_quote ends).1] at white
      cases white
    · rintro ⟨earlier, mem, assigns, after, before⟩
      exact ⟨earlier, mem, assigns, by omega, before⟩

/-- Where a head ends it keeps markers whole. It strands no assignment exactly if none is before the
last white space before a marker that is cut off.
-/
theorem redactedHeadEnd_whole {place : Nat} (found : redactedHeadEnd text cut limit = some place)
    : ¬SplitsMarker text place ∧ (¬Strands text place ↔ Apart text cut limit) := by
  by_cases fits : ∃ start, CutsOff text cut limit start
  · obtain ⟨start, cutsOff⟩ := fits
    rw [cutsOff.redactedHeadEnd] at found
    rcases exists_lastSpace (text.take (markerLead text start)) with ⟨left, space, last⟩ | none
    · rw [behindLastSpace_of_lastSpace last] at found
      split at found
      · cases found
        obtain ⟨splits, strands⟩ := whole_behind_space last
        refine ⟨splits, (not_congr strands).trans
          ⟨?_, fun apart => apart start left space cutsOff last⟩⟩
        intro apart other left' space' cutsOther last'
        cases cutsOff.first.symm.trans cutsOther.first
        have same := (rdropWhile_of_lastSpace last).symm.trans (rdropWhile_of_lastSpace last')
        rw [← (List.append_inj' same rfl).1]
        exact apart
      · cases found
    · rw [behindLastSpace_of_none none] at found
      cases found
      refine ⟨?_, iff_of_true ?_ ?_⟩
      · rintro ⟨_, _, before, _⟩
        omega
      · rintro ⟨other, _, assigns, lead, _⟩
        rw [Nat.le_zero.mp lead, List.take_zero] at assigns
        rcases assigns with none | none <;> cases none
      · intro other left space cutsOther last
        cases cutsOff.first.symm.trans cutsOther.first
        exact absurd last (not_lastSpace none)
  · have fits' : ∀ start, ¬CutsOff text cut limit start :=
      fun start cutsOff => fits ⟨start, cutsOff⟩
    have apart : Apart text cut limit := fun start _ _ cutsOff => absurd cutsOff (fits' start)
    suffices whole : ¬SplitsMarker text place ∧ ¬Strands text place from
      ⟨whole.1, iff_of_true whole.2 apart⟩
    rcases redactedHeadEnd_of_fits fits' with ⟨is, none | ⟨start, first, before⟩⟩
      | ⟨start, first, _, _, is⟩
    · cases is.symm.trans found
      exact whole_of_ends fun other mem => .inl (markerEnd_le_of_none none mem)
    · cases is.symm.trans found
      refine whole_of_ends fun other mem => ?_
      rcases Nat.lt_trichotomy other start with earlier | rfl | later
      · exact .inl (markerEnd_le_of_before first mem earlier)
      · exact .inr before
      · have lead := @markerLead_le_start text start
        have apart := markers_spaced (mem_of_struck first).1 mem later
        rw [length_redactionMarker] at apart
        have behind := le_markerLead (mem_of_struck first).1 apart
        exact .inr (by omega)
    · cases is.symm.trans found
      exact whole_of_markerEnd (mem_of_struck first).1

-- Excerpts

/-- A place to end a head at: a boundary of characters within the limit, which splits no marker and
strands no assignment.
-/
def CleanEnd (text : List Char) (limit place : Nat) : Prop :=
  ∃ chars,
    upTo text place = some (text.take chars) ∧ chars ≤ text.length ∧ place = byteAt text chars
    ∧ place ≤ limit ∧ ¬SplitsMarker text chars ∧ ¬Strands text chars

/-- The source ends a head cleanly exactly if the white space it goes back to is narrow and not
between an assignment and its marker.
-/
theorem redactedHeadEndPlace_clean_iff (within : cut ≤ limit) (inside : limit ≤ text.length)
    : (∃ place,
        redactedHeadEndPlace text (byteAt text cut) (byteAt text limit) = some place
        ∧ CleanEnd text (byteAt text limit) place)
      ↔ Narrow text cut limit ∧ Apart text cut limit := by
  obtain ⟨place, ends, placed⟩ := redactedHeadEndPlace_of (within.trans inside) inside
  rw [ends, ← exists_redactedHeadEnd_iff]
  cases found : redactedHeadEnd text cut limit with
  | none =>
      rw [found] at placed
      refine iff_of_false ?_ (fun both => nomatch both.1)
      rintro ⟨_, same, chars, boundary, _⟩
      cases same
      rw [show upTo text place = none from placed] at boundary
      cases boundary
  | some chars =>
      rw [found] at placed
      obtain ⟨charsInside, rfl⟩ := placed
      obtain ⟨splits, strands⟩ := redactedHeadEnd_whole found
      constructor
      · rintro ⟨_, same, other, _, otherInside, is, _, _, clean⟩
        cases same
        have same := Nat.le_antisymm ((byteAt_le_iff charsInside otherInside).mp is.le)
          ((byteAt_le_iff otherInside charsInside).mp is.ge)
        exact ⟨⟨chars, rfl⟩, strands.mp (same ▸ clean)⟩
      · rintro ⟨_, apart⟩
        have limited := redactedHeadEnd_le within found
        exact ⟨_, rfl, chars, upTo_byteAt chars, charsInside, rfl,
          (byteAt_le_iff charsInside inside).mpr limited, splits, strands.mpr apart⟩

/-- A text is cut: not at all, down to nothing, behind a head with an ellipsis, or between a head
and a tail with a note of how many characters were between them.
-/
inductive CutText (text : List Char) : List Char → Prop
  | whole : CutText text text
  | nothing : CutText text []
  | head (front back : List Char) (parts : text = front ++ back) : CutText text (front ++ ['…'])
  | spacedHead (front back : List Char) (parts : text = front ++ back)
    : CutText text (front ++ [' ', '…'])
  | noted (front middle back : List Char) (parts : text = front ++ middle ++ back)
    : CutText text (front ++ omissionNote (decimal 0 middle.length) ++ back)

variable {stop : Nat}

/-- A head and a tail are parts of the text, with what is between them. -/
theorem parts_of_cut (ordered : start ≤ stop)
    : text = text.take start ++ (text.take stop).drop start ++ text.drop stop := by
  have front : text.take start = (text.take stop).take start := by
    rw [List.take_take, Nat.min_eq_left ordered]
  rw [front, List.take_append_drop, List.take_append_drop]

variable {maxChars : Nat}

theorem cutText_of_ellipsized {result : List Char} (cut : ellipsized text maxChars = some result)
    : CutText text result := by
  cases maxChars with
  | zero =>
      cases cut
      exact .nothing
  | succ kept =>
      have parts (count : Nat) : text = text.take count ++ text.drop count :=
        (List.take_append_drop count text).symm
      obtain ⟨stop, ends, cut⟩ := Option.bind_eq_some_iff.mp cut
      dsimp only at cut
      split at cut
      · cases cut
        exact .head _ _ (parts stop)
      · split at cut
        · cases cut
          exact .spacedHead _ _ (parts stop)
        · obtain ⟨earlier, _, cut⟩ := Option.bind_eq_some_iff.mp cut
          cases cut
          exact .head _ _ (parts earlier)

/-- What `head_tail_truncate` returns is a cut text, and its note has the exact count. -/
theorem cutText_of_headTailTruncate {result : List Char}
    (cut : headTailTruncate text maxChars = some result)
    : CutText text result := by
  unfold headTailTruncate at cut
  split at cut
  · cases cut
    exact .whole
  · split at cut
    · exact cutText_of_ellipsized cut
    · obtain ⟨place, found, rfl⟩ := Option.map_eq_some_iff.mp cut
      have ordered := cutAround_ordered found
      have inside : place.tailStart ≤ text.length :=
        (cutAround_fits (Nat.div_le_self _ _) (by omega) found).2
      have noted := CutText.noted _ _ _ (@parts_of_cut text _ _ ordered)
      rw [length_between inside] at noted
      exact noted

def NarrowTruncation (text : List Char) (maxChars : Nat) : Prop :=
  maxChars < text.length →
    if maxChars ≤ noteLength text then
      ∀ kept, maxChars = kept + 1 →
        Narrow text kept kept
        ∧ (redactionMarker <:+ text.take kept → (∀ start, ¬CutsOff text kept kept start)
          → Narrow text (kept - 1) (kept - 1))
    else Narrow text ((maxChars - noteLength text) / 2) (maxChars - noteLength text)

variable {kept : Nat}

/-- A head that ends at its limit in a marker has none that is cut off, since it would have gone
back to white space.
-/
theorem redactedHeadEnd_at_marker (short : kept < text.length)
    (found : redactedHeadEnd text kept kept = some stop)
    : redactionMarker <:+ text.take stop ∧ ¬stop + 2 ≤ kept + 1
      ↔ stop = kept ∧ redactionMarker <:+ text.take kept
        ∧ ∀ start, ¬CutsOff text kept kept start := by
  have limit := redactedHeadEnd_le le_rfl found
  constructor
  · rintro ⟨marked, full⟩
    obtain rfl : stop = kept := by omega
    refine ⟨rfl, marked, fun start cutsOff => ?_⟩
    obtain ⟨front, ends⟩ := marked
    have bracket : (text.take stop).getLast? = some ']' := by
      rw [← ends, show redactionMarker = "[REDACTED".toList ++ [']'] by decide, ← List.append_assoc]
      exact List.getLast?_concat
    rw [cutsOff.redactedHeadEnd] at found
    have lead := cutsOff.behindLead
    rcases exists_lastSpace (text.take (markerLead text start)) with ⟨left, space, last⟩ | none
    · rw [behindLastSpace_of_lastSpace last] at found
      split at found
      · cases found
        obtain ⟨right, whole, white, _⟩ := last
        have length := congrArg List.length whole
        rw [List.length_take_of_le (by omega), List.length_append, List.length_append,
          List.length_singleton] at length
        obtain rfl := List.eq_nil_of_length_eq_zero (show right.length = 0 by omega)
        rw [show left.length + 1 = markerLead text start by omega, whole, List.append_nil,
          List.getLast?_concat] at bracket
        cases bracket
        revert white
        decide
      · cases found
    · rw [behindLastSpace_of_none none] at found
      cases found
      rw [List.take_zero] at bracket
      cases bracket
  · rintro ⟨rfl, marked, _⟩
    exact ⟨marked, by omega⟩

/-- A head without a marker that is cut off ends at its limit. -/
theorem redactedHeadEnd_at_limit (found : redactedHeadEnd text kept kept = some stop)
    (fits : ∀ start, ¬CutsOff text kept kept start)
    : stop = kept := by
  rcases redactedHeadEnd_of_fits fits with ⟨is, _⟩ | ⟨start, first, _, ends, _⟩
  · exact (Option.some.inj (is.symm.trans found)).symm
  · exact absurd ends (Nat.not_le.mpr (mem_of_struck first).2)

/-- An ellipsis is put exactly if the white space is narrow. -/
theorem exists_ellipsized_iff (short : kept < text.length)
    : (∃ result, ellipsized text (kept + 1) = some result)
      ↔ Narrow text kept kept
        ∧ (redactionMarker <:+ text.take kept → (∀ start, ¬CutsOff text kept kept start)
          → Narrow text (kept - 1) (kept - 1)) := by
  rw [← exists_redactedHeadEnd_iff, ← exists_redactedHeadEnd_iff]
  unfold ellipsized
  dsimp only
  cases found : redactedHeadEnd text kept kept with
  | none => exact iff_of_false (fun cut => nomatch cut.choose_spec) (fun both => nomatch both.1)
  | some stop =>
      have limit := redactedHeadEnd_le le_rfl found
      have atMarker := redactedHeadEnd_at_marker short found
      have length : (text.take stop).length = stop := List.length_take_of_le (by omega)
      simp only [Option.bind_eq_bind, Option.bind_some, List.isSuffixOf_iff_suffix, length]
      by_cases both : redactionMarker <:+ text.take stop ∧ ¬stop + 2 ≤ kept + 1
      · obtain ⟨same, marked, fits⟩ := atMarker.mp both
        rw [if_neg (not_not.mpr both.1), if_neg both.2, same]
        constructor
        · rintro ⟨result, cut⟩
          obtain ⟨place, earlier, _⟩ := Option.bind_eq_some_iff.mp cut
          exact ⟨⟨_, rfl⟩, fun _ _ => ⟨place, earlier⟩⟩
        · rintro ⟨_, earlier⟩
          obtain ⟨place, found'⟩ := earlier marked fits
          exact ⟨_, by rw [found']; rfl⟩
      · refine iff_of_true ?_ ⟨⟨_, rfl⟩, fun marked fits => ?_⟩
        · by_cases marked : redactionMarker <:+ text.take stop
          · rw [if_neg (not_not.mpr marked), if_pos (by_contra fun full => both ⟨marked, full⟩)]
            exact ⟨_, rfl⟩
          · rw [if_pos marked]
            exact ⟨_, rfl⟩
        · exact absurd (atMarker.mpr ⟨redactedHeadEnd_at_limit found fits, marked, fits⟩) both

/-- A result that is changed is there exactly if it was there before. -/
theorem exists_map_iff {α β : Type} {result : Option α} {change : α → β}
    : (∃ after, result.map change = some after) ↔ ∃ before, result = some before := by
  cases result <;> simp

/-- A head and a tail are cut exactly if the white space is narrow. -/
theorem exists_cutAround_iff {head budget : Nat}
    : (∃ cut, cutAround text head budget = some cut) ↔ Narrow text head budget := by
  rw [← exists_redactedHeadEnd_iff]
  exact exists_map_iff

theorem exists_headTailTruncate_iff
    : (∃ result, headTailTruncate text maxChars = some result)
      ↔ NarrowTruncation text maxChars := by
  unfold headTailTruncate NarrowTruncation
  by_cases fits : text.length ≤ maxChars
  · rw [if_pos fits]
    exact iff_of_true ⟨_, rfl⟩ fun long => absurd fits (Nat.not_le.mpr long)
  · rw [if_neg fits, imp_iff_right (Nat.not_le.mp fits)]
    split
    next small =>
        cases maxChars with
        | zero => exact iff_of_true ⟨_, rfl⟩ nofun
        | succ kept =>
            rw [exists_ellipsized_iff (by omega)]
            constructor
            · rintro narrow _ ⟨⟩
              exact narrow
            · exact fun narrow => narrow kept rfl
    · rw [← exists_cutAround_iff]
      exact exists_map_iff

def NarrowExcerpt (text : List Char) (maxScalars : Nat) : Prop :=
  maxScalars < text.length →
    if maxScalars ≤ excerptJoin.length then Narrow text maxScalars maxScalars
    else
      Narrow text ((maxScalars - excerptJoin.length + 1) / 2) (maxScalars - excerptJoin.length)

variable {maxScalars : Nat}

theorem exists_excerptCut_iff (long : maxScalars < text.length)
    : (∃ cut, excerptCut text maxScalars = some cut) ↔ NarrowExcerpt text maxScalars := by
  unfold excerptCut NarrowExcerpt
  rw [imp_iff_right long]
  split
  · rw [← exists_redactedHeadEnd_iff]
    exact exists_map_iff
  · exact exists_cutAround_iff

/-- An excerpt is within its limit and leaves out as many characters of the redacted text as it
says.
-/
def ExcerptOf (redacted excerpt : RedactedField) (maxScalars : Nat) : Prop :=
  excerpt.text.length ≤ maxScalars
  ∧ (excerpt = redacted
    ∨ ∃ front middle back,
        redacted.text = front ++ middle ++ back ∧ excerpt.omittedScalars = middle.length
        ∧ excerpt.text = front ++ (if back = [] then [] else excerptJoin) ++ back)

/-- What is left of a text at a cut is within the limit, and what is left out is counted. -/
theorem excerptOf_of_excerptCut {redacted : RedactedField} {cut : Cut}
    (long : maxScalars < redacted.text.length)
    (found : excerptCut redacted.text maxScalars = some cut)
    : ExcerptOf redacted
        { redacted with
          text := cut.joined redacted.text
          omittedScalars := cut.tailStart - cut.headEnd
        } maxScalars := by
  have join : excerptJoin.length = 3 := by decide
  have facts : cut.headEnd ≤ cut.tailStart ∧ cut.tailStart ≤ redacted.text.length
      ∧ cut.headEnd + (redacted.text.length - cut.tailStart)
          + (if cut.tailStart < redacted.text.length then 3 else 0) ≤ maxScalars := by
    unfold excerptCut at found
    split at found
    · obtain ⟨place, ends, rfl⟩ := Option.map_eq_some_iff.mp found
      have limit := redactedHeadEnd_le le_rfl ends
      dsimp only
      rw [if_neg (Nat.lt_irrefl _)]
      omega
    · have half : (maxScalars - excerptJoin.length + 1) / 2 ≤ maxScalars - excerptJoin.length := by
        omega
      have fits := cutAround_fits half (by omega) found
      have ordered := cutAround_ordered found
      refine ⟨ordered, fits.2, ?_⟩
      split <;> omega
  obtain ⟨ordered, inside, fits⟩ := facts
  have back : redacted.text.drop cut.tailStart = [] ↔ ¬cut.tailStart < redacted.text.length := by
    rw [List.drop_eq_nil_iff, Nat.not_lt]
  constructor
  · unfold Cut.joined
    have head := List.length_take_le cut.headEnd redacted.text
    split at fits
    next tail =>
        simp only [if_pos tail, List.length_append, List.length_drop, join]
        omega
    next none =>
        simp only [if_neg none, List.length_append, List.length_drop, List.length_nil]
        omega
  · refine .inr ⟨_, _, _, parts_of_cut ordered, (length_between inside).symm, ?_⟩
    unfold Cut.joined
    by_cases tail : cut.tailStart < redacted.text.length
    · rw [if_pos tail, if_neg (fun none => back.mp none tail)]
    · rw [if_neg tail, if_pos (back.mpr tail)]

/-- A field is cut without a panic exactly if the white space in its redacted text is narrow. -/
theorem redactFieldExcerpt_returns_iff {scanner : Scanner} {redactor : Redactor} {field : List Char}
    : (∃ result,
        redactor.redactFieldExcerpt scanner field maxScalars = returned result
        ∧ ∀ excerpt,
            result = .ok excerpt
            → ∃ redacted,
                redactor.redactField scanner field = .ok redacted
                ∧ ExcerptOf redacted excerpt maxScalars)
      ↔ ∀ redacted,
          maxScalars ≤ maxRedactedExcerptScalars
          → redactor.redactField scanner field = .ok redacted
          → NarrowExcerpt redacted.text maxScalars := by
  unfold Redactor.redactFieldExcerpt
  by_cases bounded : maxScalars ≤ maxRedactedExcerptScalars
  · rw [show ensure (maxScalars ≤ maxRedactedExcerptScalars) RedactionError.excerptTooLong = .ok ()
      from if_pos bounded, returned_ok_bind]
    cases scanned : redactor.redactField scanner field with
    | error error =>
        rw [returned_error_bind]
        exact iff_of_true ⟨_, rfl, nofun⟩ nofun
    | ok redacted =>
        rw [returned_ok_bind]
        by_cases short : redacted.text.length ≤ maxScalars
        · rw [if_pos short]
          refine iff_of_true ⟨_, rfl, ?_⟩ ?_
          · rintro _ ⟨⟩
            exact ⟨_, rfl, short, .inl rfl⟩
          · rintro _ _ ⟨⟩ long
            exact absurd short (Nat.not_le.mpr long)
        · rw [if_neg short]
          have long := Nat.not_le.mp short
          have known : (∀ other, maxScalars ≤ maxRedactedExcerptScalars
              → Except.ok (ε := RedactionError) redacted = .ok other
              → NarrowExcerpt other.text maxScalars)
              ↔ NarrowExcerpt redacted.text maxScalars :=
            ⟨fun all => all redacted bounded rfl, by rintro narrow _ _ ⟨⟩; exact narrow⟩
          rw [known, ← exists_excerptCut_iff long]
          constructor
          · rintro ⟨result, cut, _⟩
            cases found : excerptCut redacted.text maxScalars with
            | none =>
                rw [found] at cut
                cases cut
            | some place => exact ⟨place, rfl⟩
          · rintro ⟨place, found⟩
            rw [found, present_bind]
            refine ⟨_, rfl, ?_⟩
            rintro _ ⟨⟩
            exact ⟨redacted, rfl, excerptOf_of_excerptCut long found⟩
  · rw [show ensure (maxScalars ≤ maxRedactedExcerptScalars) RedactionError.excerptTooLong
      = .error .excerptTooLong from if_neg bounded, returned_error_bind]
    exact iff_of_true ⟨_, rfl, nofun⟩ fun _ within => absurd within bounded

/-- Excerpt cuts: a head ends cleanly exactly if the white space before a marker that is cut off is
narrow, and not between an assignment and its marker. A text is truncated, and a field shortened,
without a panic exactly if that white space is narrow. What they return is then within its limit,
with an exact count of what is left out.
-/
theorem excerptCuts_iff (scanner : Scanner) (redactor : Redactor)
    : (∀ text cut limit,
        cut ≤ limit → limit ≤ text.length
        → ((∃ place,
              redactedHeadEndPlace text (byteAt text cut) (byteAt text limit) = some place
              ∧ CleanEnd text (byteAt text limit) place)
            ↔ Narrow text cut limit ∧ Apart text cut limit))
      ∧ (∀ text maxChars,
          (∃ result,
            headTailTruncatePlaces text maxChars = some result ∧ result.length ≤ maxChars
            ∧ CutText text result)
          ↔ NarrowTruncation text maxChars)
      ∧ ∀ field maxScalars,
          (∃ result,
            redactFieldExcerptPlaces scanner redactor field maxScalars = returned result
            ∧ ∀ excerpt,
                result = .ok excerpt
                → ∃ redacted,
                    redactor.redactField scanner field = .ok redacted
                    ∧ ExcerptOf redacted excerpt maxScalars)
          ↔ ∀ redacted,
              maxScalars ≤ maxRedactedExcerptScalars
              → redactor.redactField scanner field = .ok redacted
              → NarrowExcerpt redacted.text maxScalars := by
  refine ⟨fun text cut limit within inside => redactedHeadEndPlace_clean_iff within inside, ?_, ?_⟩
  · intro text maxChars
    rw [headTailTruncatePlaces_eq, ← exists_headTailTruncate_iff]
    constructor
    · rintro ⟨result, cut, _⟩
      exact ⟨result, cut⟩
    · rintro ⟨result, cut⟩
      exact ⟨result, cut, length_headTailTruncate_le cut, cutText_of_headTailTruncate cut⟩
  · intro field maxScalars
    rw [redactFieldExcerptPlaces_eq]
    exact redactFieldExcerpt_returns_iff

/-- A redacted password behind a white space of three bytes. -/
def wideText : List Char := "鍵\u3000password=[REDACTED]".toList

/-- The head of the text ends within the white space. -/
theorem redactedHeadEndPlace_wide
    : ¬∀ (scanner : Scanner) (redactor : Redactor),
        (∀ text cut limit,
          cut ≤ limit → limit ≤ text.length
          → ∃ place,
              redactedHeadEndPlace text (byteAt text cut) (byteAt text limit) = some place
              ∧ CleanEnd text (byteAt text limit) place)
        ∧ (∀ text maxChars,
            ∃ result,
              headTailTruncatePlaces text maxChars = some result ∧ result.length ≤ maxChars
              ∧ CutText text result)
        ∧ ∀ field maxScalars,
            ∃ result,
              redactFieldExcerptPlaces scanner redactor field maxScalars = returned result
              ∧ ∀ excerpt,
                  result = .ok excerpt
                  → ∃ redacted,
                      redactor.redactField scanner field = .ok redacted
                      ∧ ExcerptOf redacted excerpt maxScalars := by
  intro claimed
  obtain ⟨_, truncated, _⟩ := claimed
    { wordBeyondAscii := fun _ => false, highEntropy := fun _ => false, punctuation := rfl }
    { entropy := false }
  obtain ⟨result, cut, _⟩ := truncated wideText 16
  have panics : headTailTruncatePlaces wideText 16 = none := by decide +kernel
  rw [panics] at cut
  cases cut

end SkillRanker.Context
