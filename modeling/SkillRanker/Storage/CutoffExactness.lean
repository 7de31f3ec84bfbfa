import SkillRanker.Storage.Conversions

/-! When a cutoff is exact: a date that is accepted exists, with its time, and is formatted back; no
arithmetic overflows; and no duration leads into the future.
-/

namespace SkillRanker.Storage
open SkillRanker.Library

variable {trimmed time : List Char}

-- What a text states

def SecondField.InRange (second : SecondField) : Prop :=
  ∃ value, second.value = some value ∧ 0 ≤ value ∧ value < 60

structure MinuteSeconds (readSecond : ReadSecond) : Prop where
  bounds
    : ∀ text second, readSecond text = some second → second.InRange
      → 0 ≤ second.millis ∧ second.millis < 60000

def statesTime (time : List Char) : Bool :=
  ((time.rdropWhile (· = 'Z')).splitOn ':').length ∈ [2, 3]

/-- A time of the day. -/
structure ClockInRange (hour minute : Int) (second : SecondField) : Prop where
  hour : 0 ≤ hour ∧ hour ≤ 23
  minute : 0 ≤ minute ∧ minute ≤ 59
  second : second.InRange

def clockMs (hour minute : Int) (second : SecondField) : Int :=
  (hour * 3600 + minute * 60) * 1000 + second.millis

def stampWith (year month day hour minute : Int) (second : SecondField) : Stamp where
  year := year
  month := month
  day := day
  hour := hour
  minute := minute
  second := second.millis / 1000
  millis := second.millis % 1000

/-- The text states a date and a time that exist, and the instant is formatted with these. -/
def ExactDate (readSecond : ReadSecond) (trimmed : List Char) (ms : Int) : Prop :=
  ∃ year month day hour minute second,
    readDate trimmed (splitTime trimmed).1 = .ok (year, month, day)
    ∧ (∀ time, (splitTime trimmed).2 = some time
      → statesTime time = true ∧ readTime readSecond trimmed time = .ok (some (hour, minute, second)))
    ∧ ((splitTime trimmed).2 = none → hour = 0 ∧ minute = 0 ∧ second = .zero)
    ∧ IsDate year month day ∧ ClockInRange hour minute second
    ∧ stampOf ms = stampWith year month day hour minute second

/-- The cutoff of the text is computed without overflow; a duration does not lead into the future, and
a date is exact.
-/
def CutoffExact (readSecond : ReadSecond) (input : String) (now : Int) : Prop :=
  ∃ result, parseCutoffToUnixMs readSecond input now = returned result
    ∧ ∀ ms, result = .ok ms →
      match cutoffForm (trim input.toList) with
      | .empty => True
      | .duration _ _ => ms ≤ now
      | .number _ => True
      | .date => ExactDate readSecond (trim input.toList) ms

-- The condition

def DateHolds (year month day : Int) : Prop :=
  IsDate year month day ∧ Estimable (daysFromCivil year month day)

structure TimeHolds (time : List Char) (year month day hour minute : Int) (second : SecondField)
    : Prop where
  states : statesTime time = true
  date : DateHolds year month day
  clock : ClockInRange hour minute second
  fits : fits64 (daysFromCivil year month day * 86400000 + clockMs hour minute second) = true

/-- What a text in the form of a date must meet, if its date is read: the days of the date fit, and,
unless it is refused for its milliseconds, so do the date and its time.
-/
def DateMeets (readSecond : ReadSecond) (trimmed : List Char) : Prop :=
  ∀ year month day, readDate trimmed (splitTime trimmed).1 = .ok (year, month, day)
    → -(2 ^ 63) ≤ daysFromCivil year month day ∧ daysFromCivil year month day + 719468 < 2 ^ 63
      ∧ (fits64 (daysFromCivil year month day * 86400000) = true
        → match (splitTime trimmed).2 with
          | none => DateHolds year month day
          | some time =>
              ∀ clock, readTime readSecond trimmed time = .ok clock
                → ∃ hour minute second, clock = some (hour, minute, second)
                  ∧ TimeHolds time year month day hour minute second)

/-- What a text must meet for its cutoff to be exact: a duration is not negative, unless now is the
last instant of all, and a date exists, with its time.
-/
def CutoffMeets (readSecond : ReadSecond) (input : String) (now : Int) : Prop :=
  match cutoffForm (trim input.toList) with
  | .empty => True
  | .duration unit count =>
      ∀ value, parseI64 count = some value → fits64 (value * unit.millis) = true
        → 0 ≤ value ∨ now = 2 ^ 63 - 1
  | .number _ => True
  | .date => DateMeets readSecond (trim input.toList)

-- Dates with a time

variable {readSecond : ReadSecond} {year month day hour minute : Int} {second : SecondField}

/-- A date that exists is found again from its day exactly if the estimate of its year is right. -/
theorem civilFromDays_eq_iff (isDate : IsDate year month day)
    : civilFromDays (daysFromCivil year month day) = (year, month, day)
      ↔ Estimable (daysFromCivil year month day) := by
  refine ⟨fun found => (convertedBack_iff _).mp ?_, civilFromDays_daysFromCivil isDate⟩
  unfold ConvertedBack
  rw [found]
  exact ⟨isDate, rfl⟩

theorem ClockInRange.bounds (laws : MinuteSeconds readSecond) {text : List Char}
    (read : readSecond text = some second ∨ second = .zero) (clock : ClockInRange hour minute second)
    : 0 ≤ second.millis ∧ second.millis < 60000 := by
  rcases read with read | rfl
  · exact laws.bounds text second read clock.second
  · decide

/-- An instant of a day is formatted with the date of the day and the time. -/
theorem stampOf_eq_iff (days : Int) (hourBounds : 0 ≤ hour ∧ hour ≤ 23)
    (minuteBounds : 0 ≤ minute ∧ minute ≤ 59)
    (secondBounds : 0 ≤ second.millis ∧ second.millis < 60000)
    : stampOf (days * 86400000 + clockMs hour minute second)
        = stampWith year month day hour minute second
      ↔ civilFromDays days = (year, month, day) := by
  obtain ⟨ms, msIs⟩ : ∃ ms, ms = days * 86400000 + clockMs hour minute second := ⟨_, rfl⟩
  unfold clockMs at msIs
  have dayIs : ms / 1000 / 86400 = days := by omega
  have rest : ms / 1000 % 86400 = hour * 3600 + minute * 60 + second.millis / 1000 := by omega
  have hourIs : (ms / 1000 % 86400).tdiv 3600 = hour := by
    rw [Int.tdiv_eq_ediv_of_nonneg (by omega)]
    omega
  have minuteIs : ((ms / 1000 % 86400).tmod 3600).tdiv 60 = minute := by
    rw [Int.tmod_eq_emod_of_nonneg (by omega), Int.tdiv_eq_ediv_of_nonneg (by omega)]
    omega
  have secondIs : (ms / 1000 % 86400).tmod 60 = second.millis / 1000 := by
    rw [Int.tmod_eq_emod_of_nonneg (by omega)]
    omega
  have millisIs : ms % 1000 = second.millis % 1000 := by omega
  rw [show days * 86400000 + clockMs hour minute second = ms from msIs.symm]
  unfold stampOf stampWith
  dsimp only
  rw [dayIs, hourIs, minuteIs, secondIs, millisIs, Stamp.mk.injEq]
  simp [Prod.ext_iff]

/-- A time of the day is computed without overflow. -/
theorem timeMs64_eq (clock : ClockInRange hour minute second)
    (secondBounds : 0 ≤ second.millis ∧ second.millis < 60000)
    : timeMs64 hour minute second.millis = some (clockMs hour minute second) := by
  obtain ⟨hourBounds, minuteBounds, _⟩ := clock
  unfold timeMs64 clockMs
  simp only [checked64_bind, checked64_eq_some, fits64_iff, and_true]
  omega

theorem timeMs64_eq_some {value : Int} (computed : timeMs64 hour minute second.millis = some value)
    : value = clockMs hour minute second := by
  unfold timeMs64 at computed
  simp only [checked64_bind, checked64_eq_some] at computed
  unfold clockMs
  omega

theorem readDate_bounds {date : List Char} (read : readDate trimmed date = .ok (year, month, day))
    : (1 ≤ month ∧ month ≤ 12) ∧ 1 ≤ day ∧ day ≤ 31 := by
  unfold readDate at read
  split at read
  · split at read
    · cases read
    · split at read
      · cases read
      · split at read
        · cases read
        · split at read
          · next bounds =>
            obtain ⟨rfl, rfl, rfl⟩ := Except.ok.inj read
            exact bounds
          · cases read
  · cases read

theorem readTime_second
    (read : readTime readSecond trimmed time = .ok (some (hour, minute, second)))
    : ∃ text, readSecond text = some second ∨ second = .zero := by
  unfold readTime at read
  split at read
  · split at read
    · cases read
    · split at read
      · cases read
      · split at read
        · obtain ⟨rfl, rfl, rfl⟩ := Option.some.inj (Except.ok.inj read)
          exact ⟨[], Or.inr rfl⟩
        · split at read
          · cases read
          · next found =>
            obtain ⟨rfl, rfl, rfl⟩ := Option.some.inj (Except.ok.inj read)
            exact ⟨_, Or.inl found⟩
  · cases read

-- What an outcome comes to

/-- The computation does not overflow, and what it answers has the property. -/
def Answers (property : Int → Prop) (outcome : Panicking String Int) : Prop :=
  ∃ result, outcome = returned result ∧ ∀ ms, result = .ok ms → property ms

variable {property : Int → Prop}

theorem answers_ok {ms : Int} : Answers property (returned (.ok ms)) ↔ property ms := by
  constructor
  · rintro ⟨result, same, holds⟩
    obtain rfl := returned_inj.mp same
    exact holds ms rfl
  · intro holds
    exact ⟨_, rfl, fun other same => Except.ok.inj same ▸ holds⟩

theorem answers_error {message : String} : Answers property (returned (.error message)) :=
  ⟨_, rfl, fun _ same => nomatch same⟩

/-- An operation that overflows has no answer. -/
theorem not_answers_none {next : Int → Panicking String Int}
    : ¬ Answers property (present none >>= next) :=
  fun ⟨_, same, _⟩ => nomatch same

/-- A value that may not fit is answered exactly if it fits and has the property. -/
theorem answers_checked {value : Int}
    : Answers property (present (checked64 value)) ↔ fits64 value = true ∧ property value := by
  unfold checked64
  by_cases fits : fits64 value = true
  · rw [if_pos fits]
    exact answers_ok.trans (by simp [fits])
  · rw [if_neg fits]
    exact ⟨fun ⟨_, same, _⟩ => (nomatch same), fun both => absurd both.1 fits⟩

/-- A date without a time is exact exactly if it exists and the estimate of its year is right. -/
theorem exact_midnight_iff (noTime : (splitTime trimmed).2 = none)
    (read : readDate trimmed (splitTime trimmed).1 = .ok (year, month, day))
    : ExactDate readSecond trimmed (daysFromCivil year month day * 86400000)
      ↔ DateHolds year month day := by
  have midnight : daysFromCivil year month day * 86400000
      = daysFromCivil year month day * 86400000 + clockMs 0 0 .zero := by
    unfold clockMs SecondField.zero
    dsimp only
    omega
  have zero : ClockInRange 0 0 .zero := ⟨by decide, by decide, 0, rfl, by decide, by decide⟩
  rw [midnight]
  constructor
  · rintro ⟨otherYear, otherMonth, otherDay, hour, minute, second, same, _, none, isDate, _, stamp⟩
    obtain ⟨rfl, rfl, rfl⟩ := none noTime
    obtain ⟨rfl, rfl, rfl⟩ := Except.ok.inj (read.symm.trans same)
    have found := (stampOf_eq_iff _ (by decide) (by decide) (by decide)).mp stamp
    exact ⟨isDate, (civilFromDays_eq_iff isDate).mp found⟩
  · rintro ⟨isDate, estimable⟩
    have found := (civilFromDays_eq_iff isDate).mpr estimable
    refine ⟨year, month, day, 0, 0, .zero, read, ?_, fun _ => ⟨rfl, rfl, rfl⟩, isDate, zero,
      (stampOf_eq_iff _ (by decide) (by decide) (by decide)).mpr found⟩
    intro time timed
    rw [noTime] at timed
    cases timed

/-- A date with a time is exact exactly if both exist and the estimate of its year is right. -/
theorem exact_time_iff (laws : MinuteSeconds readSecond) (timed : (splitTime trimmed).2 = some time)
    (read : readDate trimmed (splitTime trimmed).1 = .ok (year, month, day))
    (clock : readTime readSecond trimmed time = .ok (some (hour, minute, second)))
    : ExactDate readSecond trimmed (daysFromCivil year month day * 86400000
        + clockMs hour minute second)
      ↔ statesTime time = true ∧ DateHolds year month day ∧ ClockInRange hour minute second := by
  obtain ⟨text, field⟩ := readTime_second clock
  constructor
  · rintro ⟨otherYear, otherMonth, otherDay, otherHour, otherMinute, otherSecond, same, stated, _,
      isDate, inRange, stamp⟩
    obtain ⟨rfl, rfl, rfl⟩ := Except.ok.inj (read.symm.trans same)
    obtain ⟨states, clockToo⟩ := stated time timed
    obtain ⟨rfl, rfl, rfl⟩ := Option.some.inj (Except.ok.inj (clock.symm.trans clockToo))
    have found :=
      (stampOf_eq_iff _ inRange.hour inRange.minute (inRange.bounds laws field)).mp stamp
    exact ⟨states, ⟨isDate, (civilFromDays_eq_iff isDate).mp found⟩, inRange⟩
  · rintro ⟨states, ⟨isDate, estimable⟩, inRange⟩
    have found := (civilFromDays_eq_iff isDate).mpr estimable
    refine ⟨year, month, day, hour, minute, second, read, ?_, ?_, isDate, inRange,
      (stampOf_eq_iff _ inRange.hour inRange.minute (inRange.bounds laws field)).mpr found⟩
    · intro other same
      obtain rfl := Option.some.inj (timed.symm.trans same)
      exact ⟨states, clock⟩
    · intro none
      rw [timed] at none
      cases none

/-- Without an hour and a minute, or with more than a second, no time is stated. -/
theorem not_exact_of_no_time {ms : Int} (timed : (splitTime trimmed).2 = some time)
    (clock : readTime readSecond trimmed time = .ok none)
    : ¬ ExactDate readSecond trimmed ms := by
  rintro ⟨_, _, _, _, _, _, _, stated, _⟩
  have found := (stated time timed).2
  rw [clock] at found
  cases found

/-- A time is computed and added exactly if it is stated and fits. -/
theorem time_answers_iff (laws : MinuteSeconds readSecond)
    (timed : (splitTime trimmed).2 = some time)
    (read : readDate trimmed (splitTime trimmed).1 = .ok (year, month, day))
    (clock : readTime readSecond trimmed time = .ok (some (hour, minute, second)))
    : Answers (ExactDate readSecond trimmed)
        (present (timeMs64 hour minute second.millis) >>= fun timeMs =>
          present (checked64 (daysFromCivil year month day * 86400000 + timeMs)))
      ↔ TimeHolds time year month day hour minute second := by
  obtain ⟨text, field⟩ := readTime_second clock
  constructor
  · intro answers
    cases computed : timeMs64 hour minute second.millis with
    | none =>
        rw [computed] at answers
        exact absurd answers not_answers_none
    | some value =>
        obtain rfl := timeMs64_eq_some computed
        rw [computed, present_bind, answers_checked, exact_time_iff laws timed read clock] at answers
        obtain ⟨fits, states, date, inRange⟩ := answers
        exact ⟨states, date, inRange, fits⟩
  · rintro ⟨states, date, inRange, fits⟩
    rw [timeMs64_eq inRange (inRange.bounds laws field), present_bind, answers_checked,
      exact_time_iff laws timed read clock]
    exact ⟨fits, states, date, inRange⟩

-- Exact cutoffs

/-- A date with something after it is exact exactly if that is a time, and holds. -/
theorem timed_answers_iff (laws : MinuteSeconds readSecond)
    (timed : (splitTime trimmed).2 = some time)
    (read : readDate trimmed (splitTime trimmed).1 = .ok (year, month, day))
    : Answers (ExactDate readSecond trimmed)
        (returned (readTime readSecond trimmed time) >>= fun clock =>
          match clock with
          | none => returned (.ok (daysFromCivil year month day * 86400000))
          | some (hour, minute, second) =>
              present (timeMs64 hour minute second.millis) >>= fun timeMs =>
                present (checked64 (daysFromCivil year month day * 86400000 + timeMs)))
      ↔ ∀ clock, readTime readSecond trimmed time = .ok clock
        → ∃ hour minute second, clock = some (hour, minute, second)
          ∧ TimeHolds time year month day hour minute second := by
  cases clock : readTime readSecond trimmed time with
  | error message =>
      rw [returned_error_bind]
      exact ⟨fun _ => nofun, fun _ => answers_error⟩
  | ok found =>
      rw [returned_ok_bind]
      cases found with
      | none =>
          refine ⟨fun answers => ?_, fun all => ?_⟩
          · exact absurd (answers_ok.mp answers) (not_exact_of_no_time timed clock)
          · obtain ⟨_, _, _, none, _⟩ := all none rfl
            cases none
      | some fields =>
          obtain ⟨hour, minute, second⟩ := fields
          refine (time_answers_iff laws timed read clock).trans ⟨fun holds other same => ?_, ?_⟩
          · exact ⟨hour, minute, second, (Except.ok.inj same).symm, holds⟩
          · intro all
            obtain ⟨_, _, _, same, holds⟩ := all _ rfl
            obtain ⟨rfl, rfl, rfl⟩ := Option.some.inj same
            exact holds

/-- A date is exact exactly if it meets its condition. -/
theorem date_answers_iff (laws : MinuteSeconds readSecond) (trimmed : List Char)
    : Answers (ExactDate readSecond trimmed) (dateCutoff readSecond trimmed)
      ↔ DateMeets readSecond trimmed := by
  unfold dateCutoff DateMeets
  generalize timesAre : splitTime trimmed = times
  obtain ⟨date, timePart⟩ := times
  have datePart : (splitTime trimmed).1 = date := by rw [timesAre]
  have timeIs : (splitTime trimmed).2 = timePart := by rw [timesAre]
  dsimp only
  cases read : readDate trimmed date with
  | error message =>
      rw [returned_error_bind]
      exact ⟨fun _ => nofun, fun _ => answers_error⟩
  | ok fields =>
      obtain ⟨year, month, day⟩ := fields
      rw [returned_ok_bind]
      dsimp only
      obtain ⟨inYear, inMonth⟩ := readDate_bounds read
      have only (property : Int → Int → Int → Prop)
          : (∀ otherYear otherMonth otherDay,
              (.ok (year, month, day) : Except String _) = .ok (otherYear, otherMonth, otherDay)
                → property otherYear otherMonth otherDay)
            ↔ property year month day :=
        ⟨fun all => all _ _ _ rfl, fun holds _ _ _ same => by
          obtain ⟨rfl, rfl, rfl⟩ := Except.ok.inj same
          exact holds⟩
      rw [only]
      cases counted : daysFromCivil64 year month day with
      | none =>
          refine ⟨fun answers => absurd answers not_answers_none, fun ⟨lower, upper, _⟩ => ?_⟩
          rw [(daysFromCivil64_eq_some inYear inMonth).mpr ⟨rfl, lower, upper⟩] at counted
          cases counted
      | some days =>
          obtain ⟨rfl, lower, upper⟩ := (daysFromCivil64_eq_some inYear inMonth).mp counted
          rw [present_bind]
          by_cases fits : fits64 (daysFromCivil year month day * 86400000) = true
          · rw [if_pos fits, returned_ok_bind]
            simp only [fits, lower, upper, true_and, true_implies]
            cases timePart with
            | none => exact answers_ok.trans (exact_midnight_iff timeIs (by rw [datePart, read]))
            | some time => exact timed_answers_iff laws timeIs (by rw [datePart, read])
          · rw [if_neg fits, returned_error_bind]
            exact ⟨fun _ => ⟨lower, upper, fun holds => absurd holds fits⟩, fun _ => answers_error⟩

/-- A duration does not lead into the future exactly if it is not negative, or now is the last
instant.
-/
theorem relativeCutoff_iff {now : Int} (fitsNow : fits64 now = true) (unit : DurationUnit)
    (trimmed count : List Char)
    : Answers (· ≤ now) (returned (relativeCutoff unit trimmed count now))
      ↔ ∀ value, parseI64 count = some value → fits64 (value * unit.millis) = true
        → 0 ≤ value ∨ now = 2 ^ 63 - 1 := by
  rw [fits64_iff] at fitsNow
  unfold relativeCutoff
  cases parsed : parseI64 count with
  | none => exact ⟨fun _ => nofun, fun _ => answers_error⟩
  | some value =>
      dsimp only
      by_cases fits : fits64 (value * unit.millis) = true
      · rw [if_pos fits]
        have positive : 0 < unit.millis := by cases unit <;> decide
        have sign : 0 ≤ value * unit.millis ↔ 0 ≤ value := by
          constructor
          · intro nonneg
            by_contra negative
            exact absurd nonneg (Int.not_le.mpr (Int.mul_neg_of_neg_of_pos (by omega) positive))
          · intro nonneg
            exact Int.mul_nonneg nonneg (Int.le_of_lt positive)
        refine answers_ok.trans ⟨fun past other same _ => ?_, fun all => ?_⟩
        · obtain rfl := Option.some.inj same
          unfold saturatingSub64 at past
          rw [← sign]
          omega
        · have holds := all value rfl fits
          rw [← sign] at holds
          unfold saturatingSub64
          omega
      · rw [if_neg fits]
        refine ⟨fun _ other same unfit => ?_, fun _ => answers_error⟩
        obtain rfl := Option.some.inj same
        exact absurd unfit fits

/-- A cutoff is exact exactly if its text meets the condition of its form. -/
theorem cutoffExact_iff (readSecond : ReadSecond) (laws : MinuteSeconds readSecond)
    (input : String) (now : Int) (fitsNow : fits64 now = true)
    : CutoffExact readSecond input now ↔ CutoffMeets readSecond input now := by
  unfold CutoffExact CutoffMeets parseCutoffToUnixMs
  dsimp only
  cases form : cutoffForm (trim input.toList) with
  | empty => exact ⟨fun _ => trivial, fun _ => ⟨_, rfl, fun _ _ => trivial⟩⟩
  | number value => exact ⟨fun _ => trivial, fun _ => ⟨_, rfl, fun _ _ => trivial⟩⟩
  | duration unit count => exact relativeCutoff_iff fitsNow unit _ count
  | date => exact date_answers_iff laws _

/-- Seconds as they are written have as many milliseconds as seconds of a minute do. -/
theorem exactSecond_minute : MinuteSeconds exactSecond where
  bounds := by
    intro text second read inRange
    obtain ⟨value, valueIs, nonneg, below⟩ := inRange
    unfold exactSecond at read
    split at read
    · obtain ⟨whole, _, rfl⟩ := Option.map_eq_some_iff.mp read
      obtain rfl := Option.some.inj valueIs
      have bound : whole < 60 := by exact_mod_cast below
      dsimp only
      omega
    · next whole fraction _ =>
      obtain ⟨whole, _, read⟩ := Option.bind_eq_some_iff.mp read
      obtain ⟨part, partRead, read⟩ := Option.bind_eq_some_iff.mp read
      obtain rfl := Option.some.inj read
      obtain rfl := Option.some.inj valueIs
      have partLt := readDigits_lt partRead
      have positive : (0 : ℚ) < 10 ^ fraction.length := by positivity
      have partNonneg : (0 : ℚ) ≤ (part : ℚ) / 10 ^ fraction.length :=
        div_nonneg (Nat.cast_nonneg part) (le_of_lt positive)
      have bound : whole < 60 := by
        have le : (whole : ℚ) < 60 := by linarith
        exact_mod_cast le
      have power : (0 : Int) < 10 ^ fraction.length := by positivity
      have partBelow : (1000 * (part : Int)) / 10 ^ fraction.length < 1000 := by
        refine Int.ediv_lt_of_lt_mul power ?_
        have less : (part : Int) < 10 ^ fraction.length := by exact_mod_cast partLt
        linarith
      have partFrom : 0 ≤ (1000 * (part : Int)) / 10 ^ fraction.length :=
        Int.ediv_nonneg (by positivity) (le_of_lt power)
      dsimp only
      omega

/-- A date that exists is exact with a time of its day. -/
theorem fifteenth_exact : CutoffExact exactSecond "2024-01-15T08:30:05Z" 0 := by
  refine (cutoffExact_iff exactSecond exactSecond_minute "2024-01-15T08:30:05Z" 0 (by decide)).mpr ?_
  have form : cutoffForm (trim "2024-01-15T08:30:05Z".toList) = .date := by decide +kernel
  have parts : splitTime (trim "2024-01-15T08:30:05Z".toList)
      = ("2024-01-15".toList, some "08:30:05Z".toList) := by
    decide +kernel
  have date
      : readDate (trim "2024-01-15T08:30:05Z".toList) "2024-01-15".toList = .ok (2024, 1, 15) := by
    decide +kernel
  have time
      : readTime exactSecond (trim "2024-01-15T08:30:05Z".toList) "08:30:05Z".toList
        = .ok (some (8, 30, { value := some 5, millis := 5000 })) := by
    decide +kernel
  have estimable : Estimable (daysFromCivil 2024 1 15) :=
    ⟨23, 320, ⟨by decide, by decide, by decide, by decide, by decide,
      fun last => absurd last (by decide)⟩, by unfold EstimateHolds; decide⟩
  unfold CutoffMeets
  rw [form]
  intro year month day read
  rw [parts] at read ⊢
  obtain ⟨rfl, rfl, rfl⟩ := Except.ok.inj (date.symm.trans read)
  refine ⟨by decide, by decide, fun _ clock clockRead => ?_⟩
  cases time.symm.trans clockRead
  exact ⟨8, 30, _, rfl, by decide +kernel, ⟨by decide, estimable⟩,
    ⟨by decide, by decide, 5, rfl, by norm_num, by norm_num⟩, by decide⟩

/-- The thirtieth of February is accepted, and a negative duration leads into the future. -/
theorem inexact_cutoffs
    : ¬ CutoffExact exactSecond "2024-02-30" 0 ∧ ¬ CutoffExact exactSecond "-5d" 0 := by
  constructor
  · have form : cutoffForm (trim "2024-02-30".toList) = .date := by decide +kernel
    have parts : splitTime (trim "2024-02-30".toList) = ("2024-02-30".toList, none) := by
      decide +kernel
    have date
        : readDate (trim "2024-02-30".toList) "2024-02-30".toList = .ok (2024, 2, 30) := by
      decide +kernel
    intro exact
    unfold CutoffExact parseCutoffToUnixMs at exact
    dsimp only at exact
    rw [form] at exact
    have meets := (date_answers_iff exactSecond_minute _).mp exact
    obtain ⟨_, _, holds⟩ := meets 2024 2 30 (by rw [parts]; exact date)
    rw [parts] at holds
    exact absurd (holds (by decide)).1 (by decide)
  · have form : cutoffForm (trim "-5d".toList) = .duration .days ['-', '5'] := by decide +kernel
    intro exact
    unfold CutoffExact parseCutoffToUnixMs at exact
    dsimp only at exact
    rw [form] at exact
    have past := (relativeCutoff_iff (by decide) .days _ ['-', '5']).mp exact
    exact absurd (past (-5) (by decide) (by decide)) (by decide)

end SkillRanker.Storage
