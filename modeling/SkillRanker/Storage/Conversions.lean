import SkillRanker.Storage.Timestamps

/-! Instants and their texts: what is formatted is read back where the calendar's conversion is right,
and the two readers of timestamps agree.
-/

namespace SkillRanker.Storage
open SkillRanker.Library

variable {text : List Char}

-- Whole seconds

def WholeTail (tail : List Char) : Prop := tail = [] ∨ ∃ n, tail = '.' :: List.replicate (n + 1) '0'

/-- Two digits, with zeros after a point or without, are read as the number that they stand for. -/
structure WholeSeconds (readSecond : ReadSecond) : Prop where
  read
    : ∀ digits value tail, digits.length = 2 → readDigits digits = some value → WholeTail tail
      → readSecond (digits ++ tail) = some { value := some value, millis := 1000 * value }

variable {readSecond : ReadSecond}

/-- The text of a whole second has no separator of a time in it. -/
theorem plain_of_wholeTail {digits tail : List Char} {value : Nat}
    (read : readDigits digits = some value) (whole : WholeTail tail)
    : ∀ char ∈ digits ++ tail, char ≠ ':' ∧ char ≠ 'Z' := by
  intro char mem
  rcases List.mem_append.mp mem with digit | inTail
  · have isDigit := (of_readDigits read).2 char digit
    refine ⟨?_, ?_⟩ <;> rintro rfl <;> exact absurd isDigit (by decide)
  · rcases whole with rfl | ⟨n, rfl⟩
    · cases inTail
    · rcases List.mem_cons.mp inTail with rfl | zero
      · decide
      · rw [(List.mem_replicate.mp zero).2]
        decide

-- Formatted instants

theorem padded_of_nonneg (width : Nat) {value : Int} (nonneg : 0 ≤ value)
    : padded width value = decimal width value.natAbs := by
  unfold padded
  rw [if_neg (by omega)]

variable {year month : Int}

theorem day_le_of_isDate {day : Int} (isDate : IsDate year month day) : day ≤ 31 := by
  have bound := isDate.2.2.2
  unfold daysInMonth at bound
  split at bound
  · split at bound <;> omega
  · split at bound <;> omega

/-- An instant is read back from its text if its day is converted to the date that has it. -/
theorem parse_format (laws : WholeSeconds readSecond) (now : Int) {ms : Int} (whole : ms % 1000 = 0)
    {day : Int} (isDate : IsDate year month day) (inYears : 0 ≤ year ∧ year ≤ 9999)
    (dayIs : daysFromCivil year month day = ms / 86400000)
    (date : civilFromDays (ms / 86400000) = (year, month, day))
    : parseCutoffToUnixMs readSecond (formatUnixMs ms) now = returned (.ok ms) := by
  have dayLe := day_le_of_isDate isDate
  obtain ⟨monthFrom, monthTo, dayFrom, _⟩ := isDate
  -- the fields of the clock
  have days : ms / 1000 / 86400 = ms / 86400000 := by omega
  obtain ⟨rest, restIs⟩ : ∃ rest, rest = ms / 1000 % 86400 := ⟨_, rfl⟩
  have hour : rest.tdiv 3600 = rest / 3600 := Int.tdiv_eq_ediv_of_nonneg (by omega)
  have inHour : rest.tmod 3600 = rest % 3600 := Int.tmod_eq_emod_of_nonneg (by omega)
  have minute : (rest % 3600).tdiv 60 = rest % 3600 / 60 := Int.tdiv_eq_ediv_of_nonneg (by omega)
  have second : rest.tmod 60 = rest % 60 := Int.tmod_eq_emod_of_nonneg (by omega)
  have stamp : stampOf ms
      = { year, month, day, hour := rest / 3600, minute := rest % 3600 / 60, second := rest % 60,
          millis := 0 } := by
    unfold stampOf
    dsimp only
    rw [days, date, ← restIs, hour, inHour, minute, second, whole]
  obtain ⟨fields, fieldsAre⟩
      : ∃ fields : StampFields, fields = {
          year := decimal 4 year.natAbs
          month := decimal 2 month.natAbs
          day := decimal 2 day.natAbs
          hour := decimal 2 (rest / 3600).natAbs
          minute := decimal 2 (rest % 3600 / 60).natAbs
          second := decimal 2 (rest % 60).natAbs } := ⟨_, rfl⟩
  have text : (stampOf ms).render = fields.text := by
    rw [stamp, fieldsAre]
    unfold Stamp.render StampFields.text StampFields.date StampFields.clock
    dsimp only
    rw [padded_of_nonneg 4 (by omega), padded_of_nonneg 2 (by omega), padded_of_nonneg 2 (by omega),
      padded_of_nonneg 2 (by omega), padded_of_nonneg 2 (by omega), padded_of_nonneg 2 (by omega),
      if_pos rfl]
    simp
  have secondRead := readDigits_decimal 2 (rest % 60).natAbs
  have secondField := laws.read (decimal 2 (rest % 60).natAbs) _ []
    (length_decimal (by decide) (by omega)) secondRead (Or.inl rfl)
  rw [List.append_nil] at secondField
  have secondPlain := plain_of_wholeTail secondRead (Or.inl rfl)
  rw [List.append_nil] at secondPlain
  have reads : fields.Reads readSecond year.natAbs month.natAbs day.natAbs (rest / 3600).natAbs
      (rest % 3600 / 60).natAbs
      { value := some ((rest % 60).natAbs : ℚ), millis := 1000 * (rest % 60).natAbs } := by
    rw [fieldsAre]
    exact ⟨readDigits_decimal _ _, readDigits_decimal _ _, readDigits_decimal _ _,
      readDigits_decimal _ _, readDigits_decimal _ _, secondField, decimal_ne_nil _ _, secondPlain⟩
  have parsed := reads.parse (by omega) (by omega) (by omega) (by dsimp only; omega) now
  unfold formatUnixMs
  rw [text, parsed]
  dsimp only
  rw [Int.natAbs_of_nonneg (by omega), Int.natAbs_of_nonneg (by omega),
    Int.natAbs_of_nonneg (by omega), Int.natAbs_of_nonneg (by omega),
    Int.natAbs_of_nonneg (by omega), Int.natAbs_of_nonneg (by omega), dayIs]
  congr 2
  omega

-- Timestamps of transcripts

/-- The fraction of the timestamp's second, if it has one, is zero. -/
def WholeStamp (text : List Char) : Prop :=
  ∀ before fraction, splitOnce '.' text.dropLast = some (before, fraction)
    → ∀ char ∈ fraction, char = '0'

/-- The two closed forms agree. -/
theorem utcMs_eq (year : Int) (inYear : 1 ≤ month ∧ month ≤ 12)
    (day hour minute second millis : Int)
    : utcMs year month day hour minute second millis
      = daysFromCivil year month day * 86400000
        + ((hour * 60 + minute) * 60000 + (1000 * second + millis)) := by
  obtain ⟨shifted, shiftedIs⟩ : ∃ shifted, shifted = if month ≤ 2 then year - 1 else year :=
    ⟨_, rfl⟩
  obtain ⟨era, yearOfEra, nonneg, bounded, split⟩
      : ∃ era yearOfEra : Int, 0 ≤ yearOfEra ∧ yearOfEra < 400 ∧ shifted = yearOfEra + era * 400 :=
    ⟨shifted / 400, shifted % 400, by omega, by omega, by omega⟩
  have eraIs : (yearOfEra + era * 400) / 400 = era := by omega
  have place : (month + 9).tmod 12 = if 2 < month then month - 3 else month + 9 := by
    rw [Int.tmod_eq_emod_of_nonneg (by omega)]
    split <;> omega
  unfold utcMs daysFromCivil
  dsimp only
  rw [← shiftedIs, split, eraIs, era_eq era nonneg bounded, place]
  omega

theorem drop_eq_field {start stop : Nat} (le : start ≤ stop)
    : text.drop start = (text.take stop).drop start ++ text.drop stop := by
  have later : text.drop stop = (text.drop start).drop (stop - start) := by
    rw [List.drop_drop]
    congr 1
    omega
  rw [List.drop_take, later, List.take_append_drop]

theorem drop_of_getElem? {place : Nat} {char : Char} (found : text[place]? = some char)
    : text.drop place = char :: text.drop (place + 1) := by
  obtain ⟨bound, is⟩ := List.getElem?_eq_some_iff.mp found
  rw [List.drop_eq_getElem_cons bound, is]

theorem fields_of_separators (length : text.length = 19) (yearEnd : text[4]? = some '-')
    (monthEnd : text[7]? = some '-') (dayEnd : text[10]? = some 'T')
    (hourEnd : text[13]? = some ':') (minuteEnd : text[16]? = some ':')
    : text
      = (text.take 4).drop 0 ++ '-' :: ((text.take 7).drop 5 ++ '-' :: ((text.take 10).drop 8
        ++ 'T' :: ((text.take 13).drop 11 ++ ':' :: ((text.take 16).drop 14
          ++ ':' :: (text.take 19).drop 17)))) := by
  have last : text.drop 17 = (text.take 19).drop 17 := by
    rw [List.take_of_length_le (by omega)]
  have whole : text = text.drop 0 := rfl
  rw [← last, ← drop_of_getElem? minuteEnd, ← drop_eq_field (by decide),
    ← drop_of_getElem? hourEnd, ← drop_eq_field (by decide), ← drop_of_getElem? dayEnd,
    ← drop_eq_field (by decide), ← drop_of_getElem? monthEnd, ← drop_eq_field (by decide),
    ← drop_of_getElem? yearEnd, ← drop_eq_field (by decide)]
  rfl

/-- A timestamp that is accepted has its fields in range, and is the instant of these. -/
structure UtcRead (text : List Char) (ms : Int) (fields : StampFields) (tail : List Char)
    (year month day hour minute second : Nat) (millis : Int) : Prop where
  text_eq : text = { fields with second := fields.second ++ tail }.text
  year_read : readDigits fields.year = some year
  month_read : readDigits fields.month = some month
  day_read : readDigits fields.day = some day
  hour_read : readDigits fields.hour = some hour
  minute_read : readDigits fields.minute = some minute
  second_read : readDigits fields.second = some second
  second_length : fields.second.length = 2
  year_le : year ≤ 9999
  clock_le : hour ≤ 99 ∧ minute ≤ 99 ∧ second ≤ 99
  month_bounds : 1 ≤ month ∧ month ≤ 12
  day_bounds : 1 ≤ day ∧ day ≤ 31
  tail_eq
    : (tail = [] ∧ millis = 0)
      ∨ ∃ before fraction, fraction ≠ [] ∧ splitOnce '.' text.dropLast = some (before, fraction)
        ∧ tail = '.' :: fraction ∧ fractionMillis fraction = some millis
  ms_eq : ms = utcMs year month day hour minute second millis

theorem monthDays_bounds {days : Int} (found : monthDays year month = some days)
    : (1 ≤ month ∧ month ≤ 12) ∧ days ≤ 31 := by
  unfold monthDays at found
  split at found
  · split at found <;> cases Option.some.inj found <;> omega
  · split at found
    · next mem =>
      cases Option.some.inj found
      simp at mem
      omega
    · split at found
      · next mem =>
        cases Option.some.inj found
        simp at mem
        omega
      · cases found

theorem digitField_eq_some {start stop : Nat} {value : Int}
    (read : digitField text start stop = some value)
    : ∃ n : Nat, value = n ∧ readDigits ((text.take stop).drop start) = some n
      ∧ n < 10 ^ (stop - start) := by
  obtain ⟨n, digits, same⟩ := Option.map_eq_some_iff.mp read
  refine ⟨n, same.symm, digits, Nat.lt_of_lt_of_le (readDigits_lt digits) ?_⟩
  refine Nat.pow_le_pow_right (by decide) ?_
  rw [List.length_drop, List.length_take]
  omega

theorem splitFraction_eq_some {utc dateTime fraction : List Char}
    (split : splitFraction utc = some (dateTime, fraction))
    : (fraction = [] ∧ utc = dateTime)
      ∨ (fraction ≠ [] ∧ splitOnce '.' utc = some (dateTime, fraction)) := by
  unfold splitFraction at split
  split at split
  · cases split
  · next parts notEmpty found =>
    obtain rfl := Option.some.inj split
    exact Or.inr ⟨fun empty => notEmpty dateTime (by rw [empty]), found⟩
  · obtain ⟨rfl, rfl⟩ := Prod.mk.inj (Option.some.inj split)
    exact Or.inl ⟨rfl, rfl⟩

theorem stripLast_eq_some {last : Char} {before : List Char}
    (stripped : stripLast last text = some before)
    : text = before ++ [last] ∧ text.dropLast = before := by
  unfold stripLast at stripped
  split at stripped
  · next ends =>
    obtain rfl := Option.some.inj stripped
    exact ⟨(List.dropLast_append_getLast? last ends).symm, rfl⟩
  · cases stripped

/-- The timestamp without its `Z` and its fraction is read by its fields. -/
theorem parseUtcMs_read {ms : Int} (parsed : parseUtcMs text = some ms)
    : ∃ fields tail year month day hour minute second millis,
        UtcRead text ms fields tail year month day hour minute second millis := by
  unfold parseUtcMs at parsed
  obtain ⟨utc, stripped, parsed⟩ := Option.bind_eq_some_iff.mp parsed
  obtain ⟨⟨dateTime, fraction⟩, split, parsed⟩ := Option.bind_eq_some_iff.mp parsed
  dsimp only at parsed
  split at parsed
  · next inPlace =>
    unfold readUtc at parsed
    obtain ⟨year, yearIs, parsed⟩ := Option.bind_eq_some_iff.mp parsed
    obtain ⟨month, monthIs, parsed⟩ := Option.bind_eq_some_iff.mp parsed
    obtain ⟨day, dayIs, parsed⟩ := Option.bind_eq_some_iff.mp parsed
    obtain ⟨hour, hourIs, parsed⟩ := Option.bind_eq_some_iff.mp parsed
    obtain ⟨minute, minuteIs, parsed⟩ := Option.bind_eq_some_iff.mp parsed
    obtain ⟨second, secondIs, parsed⟩ := Option.bind_eq_some_iff.mp parsed
    obtain ⟨millis, millisIs, parsed⟩ := Option.bind_eq_some_iff.mp parsed
    obtain ⟨days, daysIs, parsed⟩ := Option.bind_eq_some_iff.mp parsed
    split at parsed
    · cases parsed
    · next inRange =>
      obtain ⟨year, rfl, yearRead, yearLt⟩ := digitField_eq_some yearIs
      obtain ⟨month, rfl, monthRead, monthLt⟩ := digitField_eq_some monthIs
      obtain ⟨day, rfl, dayRead, dayLt⟩ := digitField_eq_some dayIs
      obtain ⟨hour, rfl, hourRead, hourLt⟩ := digitField_eq_some hourIs
      obtain ⟨minute, rfl, minuteRead, minuteLt⟩ := digitField_eq_some minuteIs
      obtain ⟨second, rfl, secondRead, secondLt⟩ := digitField_eq_some secondIs
      obtain ⟨monthBounds, daysLe⟩ := monthDays_bounds daysIs
      simp only [not_or, not_not] at inRange
      unfold separated at inPlace
      obtain ⟨length, yearEnd, monthEnd, dayEnd, hourEnd, minuteEnd⟩ := of_decide_eq_true inPlace
      obtain ⟨textIs, utcIs⟩ := stripLast_eq_some stripped
      have shape := fields_of_separators length yearEnd monthEnd dayEnd hourEnd minuteEnd
      have tails
          : ∃ tail, utc = dateTime ++ tail
            ∧ ((tail = [] ∧ millis = 0)
              ∨ ∃ before fraction, fraction ≠ []
                ∧ splitOnce '.' text.dropLast = some (before, fraction) ∧ tail = '.' :: fraction
                ∧ fractionMillis fraction = some millis) := by
        rcases splitFraction_eq_some split with ⟨rfl, rfl⟩ | ⟨nonempty, found⟩
        · refine ⟨[], (List.append_nil _).symm, Or.inl ⟨rfl, ?_⟩⟩
          exact (Option.some.inj millisIs).symm
        · refine ⟨'.' :: fraction, (splitOnce_eq_some found).1, Or.inr ?_⟩
          exact ⟨dateTime, fraction, nonempty, by rw [utcIs, found], rfl, millisIs⟩
      obtain ⟨tail, utcShape, tailIs⟩ := tails
      refine ⟨⟨_, _, _, _, _, _⟩, tail, year, month, day, hour, minute, second, millis, ?_, yearRead,
        monthRead, dayRead, hourRead, minuteRead, secondRead, ?_, by omega, by omega, by omega,
        by omega, tailIs, (Option.some.inj parsed).symm⟩
      · rw [textIs, utcShape]
        unfold StampFields.text StampFields.date StampFields.clock
        conv_lhs => rw [shape]
        simp only [List.append_assoc, List.cons_append, List.drop_zero]
      · rw [List.length_drop, List.length_take, length]
        decide
  · cases parsed

theorem fractionMillis_of_zeros {fraction : List Char} {millis : Int}
    (zeros : ∀ char ∈ fraction, char = '0') (read : fractionMillis fraction = some millis)
    : millis = 0 := by
  unfold fractionMillis at read
  split at read
  · exact (Option.some.inj read).symm
  · split at read
    · cases read
    · have padding
          : (fraction ++ List.replicate (3 - fraction.length) '0').take 3 = ['0', '0', '0'] := by
        refine (List.eq_replicate_iff (n := 3) (a := '0')).mpr ⟨?_, fun char mem => ?_⟩
        · rw [List.length_take, List.length_append, List.length_replicate]
          omega
        · rcases List.mem_append.mp (List.mem_of_mem_take mem) with mem | mem
          · exact zeros char mem
          · exact (List.mem_replicate.mp mem).2
      rw [padding] at read
      exact (Option.some.inj read).symm

/-- What the reader of transcripts accepts on a whole second, a cutoff is read as the same instant. -/
theorem parseCutoff_of_parseUtcMs (laws : WholeSeconds readSecond) (now : Int) {ms : Int}
    (parsed : parseUtcMs text = some ms) (whole : WholeStamp text)
    : parseCutoffToUnixMs readSecond (String.ofList text) now = returned (.ok ms) := by
  obtain ⟨fields, tail, year, month, day, hour, minute, second, millis, read⟩ :=
    parseUtcMs_read parsed
  have tailIs : WholeTail tail ∧ millis = 0 := by
    rcases read.tail_eq with ⟨empty, none⟩ | ⟨before, fraction, nonempty, split, is, found⟩
    · exact ⟨Or.inl empty, none⟩
    · have zeros := whole before fraction split
      refine ⟨Or.inr ⟨fraction.length - 1, ?_⟩, fractionMillis_of_zeros zeros found⟩
      have positive := List.length_pos_iff.mpr nonempty
      rw [is, List.eq_replicate_iff.mpr ⟨rfl, zeros⟩]
      congr 2
      rw [List.length_replicate]
      omega
  obtain ⟨wholeTail, noMillis⟩ := tailIs
  have reads : StampFields.Reads readSecond { fields with second := fields.second ++ tail } year month
      day hour minute { value := some (second : ℚ), millis := 1000 * second } :=
    ⟨read.year_read, read.month_read, read.day_read, read.hour_read, read.minute_read,
      laws.read _ _ _ read.second_length read.second_read wholeTail,
      List.append_ne_nil_of_left_ne_nil (of_readDigits read.second_read).1 _,
      plain_of_wholeTail read.second_read wholeTail⟩
  obtain ⟨hourLe, minuteLe, secondLe⟩ := read.clock_le
  have monthBounds := read.month_bounds
  have parsedToo := reads.parse read.year_le read.month_bounds read.day_bounds
    ⟨hourLe, minuteLe, by dsimp only; omega, by dsimp only; omega⟩ now
  rw [read.text_eq, parsedToo, read.ms_eq, noMillis, utcMs_eq _ (by omega), Int.add_zero]

-- What the conversions promise

/-- A day is converted to its date and back, whichever comes first, and an instant of the day on a
whole second, in the years 0 to 9999, is read back from its text.
-/
structure DayConverted (readSecond : ReadSecond) (now days : Int) : Prop where
  back
    : ∃ year month day, civilFromDays64 days = some (year, month, day) ∧ IsDate year month day
      ∧ daysFromCivil64 year month day = some days
  forth
    : ∀ year month day, IsDate year month day → daysFromCivil year month day = days
      → daysFromCivil64 year month day = some days
        ∧ civilFromDays64 days = some (year, month, day)
  texts
    : ∀ year month day, IsDate year month day → daysFromCivil year month day = days
      → 0 ≤ year ∧ year ≤ 9999 → ∀ ms, ms / 86400000 = days → ms % 1000 = 0
      → parseCutoffToUnixMs readSecond (formatUnixMs ms) now = returned (.ok ms)

/-- A day is converted exactly if the estimate of its year is right and its shift does not overflow;
and the reader of transcripts agrees on every whole second that it accepts.
-/
theorem conversion_iff (readSecond : ReadSecond) (laws : WholeSeconds readSecond) (now : Int)
    : (∀ days, fits64 days = true
        → (DayConverted readSecond now days ↔ Estimable days ∧ days + 719468 < 2 ^ 63))
      ∧ ∀ text ms, parseUtcMs text = some ms → WholeStamp text
        → parseCutoffToUnixMs readSecond (String.ofList text) now = returned (.ok ms) := by
  refine ⟨fun days fits => ?_, fun text ms parsed whole =>
    parseCutoff_of_parseUtcMs laws now parsed whole⟩
  have fitsToo := fits64_iff.mp fits
  constructor
  · rintro ⟨⟨year, month, day, found, isDate, counted⟩, _, _⟩
    obtain ⟨date, room⟩ := (civilFromDays64_eq_some fits).mp found
    have dayLe := day_le_of_isDate isDate
    obtain ⟨monthFrom, monthTo, dayFrom, _⟩ := id isDate
    have same := ((daysFromCivil64_eq_some ⟨monthFrom, monthTo⟩ ⟨dayFrom, dayLe⟩).mp counted).1
    refine ⟨(convertedBack_iff days).mp ?_, room⟩
    unfold ConvertedBack
    rw [← date]
    exact ⟨isDate, same.symm⟩
  · rintro ⟨estimable, room⟩
    have back := (convertedBack_iff days).mpr estimable
    have counted {year month day : Int} (isDate : IsDate year month day)
        (same : daysFromCivil year month day = days)
        : daysFromCivil64 year month day = some days := by
      have dayLe := day_le_of_isDate isDate
      obtain ⟨monthFrom, monthTo, dayFrom, _⟩ := isDate
      exact (daysFromCivil64_eq_some ⟨monthFrom, monthTo⟩ ⟨dayFrom, dayLe⟩).mpr
        ⟨same.symm, fitsToo.1, room⟩
    have again {year month day : Int} (isDate : IsDate year month day)
        (same : daysFromCivil year month day = days)
        : civilFromDays days = (year, month, day) := by
      have found := civilFromDays_daysFromCivil isDate (by rw [same]; exact estimable)
      rwa [same] at found
    refine ⟨?_, fun year month day isDate same => ?_, ?_⟩
    · refine ⟨_, _, _, (civilFromDays64_eq_some fits).mpr ⟨rfl, room⟩, back.1, ?_⟩
      exact counted back.1 back.2
    · refine ⟨counted isDate same, ?_⟩
      exact (civilFromDays64_eq_some fits).mpr ⟨(again isDate same).symm, room⟩
    · intro year month day isDate same inYears ms onDay whole
      refine parse_format laws now whole isDate inYears (same.trans onDay.symm) ?_
      rw [onDay]
      exact again isDate same

def exactSecond : ReadSecond := fun text =>
  match splitOnce '.' text with
  | none => (readDigits text).map fun whole : Nat => { value := some (whole : ℚ), millis := 1000 * whole }
  | some (whole, fraction) => do
      let whole ← readDigits whole
      let part ← readDigits fraction
      return {
        value := some (whole + (part : ℚ) / 10 ^ fraction.length)
        millis := 1000 * whole + 1000 * part / 10 ^ fraction.length }

theorem exactSecond_whole : WholeSeconds exactSecond where
  read := by
    intro digits value tail _ read whole
    have noPoint : '.' ∉ digits := not_mem_of_readDigits read (by decide)
    unfold exactSecond
    rcases whole with rfl | ⟨n, rfl⟩
    · rw [List.append_nil, splitOnce_of_not_mem noPoint]
      dsimp only
      rw [read]
      rfl
    · have zeros : readDigits (List.replicate (n + 1) '0') = some 0 := by
        unfold readDigits
        rw [if_pos ⟨by simp, by simp⟩, Nat.ofDigitChars_replicate_zero, Nat.mul_zero]
      rw [splitOnce_append noPoint]
      dsimp only
      rw [read, zeros]
      simp

/-- A day of January 2024 is converted, and a whole second of it is read as the same instant. -/
theorem fifteenth_converted
    : DayConverted exactSecond 0 19737
      ∧ parseCutoffToUnixMs exactSecond "2024-01-15T08:30:05.000Z" 0
        = returned (.ok 1705307405000) := by
  obtain ⟨days, instants⟩ := conversion_iff exactSecond exactSecond_whole 0
  refine ⟨(days 19737 (by decide)).mpr ⟨⟨23, 320, ⟨by decide, by decide, by decide, by decide,
    by decide, fun last => absurd last (by decide)⟩, by unfold EstimateHolds; decide⟩, by decide⟩, ?_⟩
  refine instants "2024-01-15T08:30:05.000Z".toList 1705307405000 (by decide +kernel) ?_
  have point : splitOnce '.' "2024-01-15T08:30:05.000Z".toList.dropLast
      = some ("2024-01-15T08:30:05".toList, ['0', '0', '0']) := by
    decide +kernel
  intro before fraction split
  cases point.symm.trans split
  simp

/-- The tenth of January 1970 is taken for a day before February 1971. -/
theorem tenth_not_converted
    : civilFromDays64 9 = some (1971, 2, -19)
      ∧ ¬ ∃ year month day, civilFromDays64 9 = some (year, month, day) ∧ IsDate year month day
        ∧ daysFromCivil64 year month day = some 9 := by
  have found : civilFromDays64 9 = some (1971, 2, -19) := by decide
  refine ⟨found, ?_⟩
  rintro ⟨year, month, day, date, isDate, _⟩
  rw [found] at date
  obtain ⟨rfl, rfl, rfl⟩ := date
  exact absurd isDate (by decide)

end SkillRanker.Storage
