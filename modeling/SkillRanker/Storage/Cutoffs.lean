import Mathlib.Data.Rat.Defs
import SkillRanker.Identity
import SkillRanker.Library.Panics
import SkillRanker.Library.Texts
import SkillRanker.Storage.Calendar

/-! Instants as texts: how they are formatted, and how a cutoff is read from a date, a timestamp, a
duration or a number.
-/

namespace SkillRanker.Storage
open SkillRanker.Library

-- Machine integers

def fits64 (value : Int) : Bool := -(2 ^ 63) ≤ value ∧ value < 2 ^ 63

/-- The result of an operation on `i64`, unless it overflows. -/
def checked64 (value : Int) : Option Int := if fits64 value then some value else none

/-- The result of an operation on `i64` where it is made, and another integer elsewhere. -/
def checked64If (condition : Prop) [Decidable condition] (value other : Int) : Option Int :=
  if condition then checked64 value else some other

/-- `i64::saturating_sub` -/
def saturatingSub64 (left right : Int) : Int :=
  max (-(2 ^ 63)) (min (2 ^ 63 - 1) (left - right))

/-- `str::parse::<i64>` -/
def parseI64 (text : List Char) : Option Int := (readInteger text).bind checked64

-- Formatting

/-- The fields of an instant. -/
structure Stamp where
  year : Int
  month : Int
  day : Int
  hour : Int
  minute : Int
  second : Int
  millis : Int
deriving DecidableEq, Repr

def stampOf (ms : Int) : Stamp :=
  let secs := ms / 1000
  let remainingMs := ms % 1000
  let days := secs / 86400
  let remainingSecs := secs % 86400
  let (year, month, day) := civilFromDays days
  {
    year := year
    month := month
    day := day
    hour := remainingSecs.tdiv 3600
    minute := (remainingSecs.tmod 3600).tdiv 60
    second := remainingSecs.tmod 60
    millis := remainingMs }

/-- An integer with zeros before its digits up to a width, its sign included. -/
def padded (width : Nat) (value : Int) : List Char :=
  if value < 0 then '-' :: decimal (width - 1) value.natAbs else decimal width value.natAbs

def Stamp.render (stamp : Stamp) : List Char :=
  padded 4 stamp.year ++ '-' :: padded 2 stamp.month ++ '-' :: padded 2 stamp.day
    ++ 'T' :: padded 2 stamp.hour ++ ':' :: padded 2 stamp.minute ++ ':' :: padded 2 stamp.second
    ++ (if stamp.millis = 0 then [] else '.' :: padded 3 stamp.millis) ++ ['Z']

def formatUnixMs (ms : Int) : String := String.ofList (stampOf ms).render

-- Cutoffs

/-- `str::trim` -/
def trim (text : List Char) : List Char := (text.dropWhile isWhitespace).rdropWhile isWhitespace

inductive DurationUnit
  | days
  | hours
  | minutes
deriving DecidableEq, Repr

def DurationUnit.millis : DurationUnit → Int
  | days => 86400000
  | hours => 3600000
  | minutes => 60000

def DurationUnit.word : DurationUnit → String
  | days => "days"
  | hours => "hours"
  | minutes => "minutes"

/-- What a trimmed text is read as. -/
inductive CutoffForm
  | empty
  | duration (unit : DurationUnit) (count : List Char)
  | number (value : Int)
  | date
deriving DecidableEq

def cutoffForm (trimmed : List Char) : CutoffForm :=
  if trimmed = [] then .empty
  else
    match stripLast 'd' trimmed with
    | some count => .duration .days count
    | none =>
        match stripLast 'h' trimmed with
        | some count => .duration .hours count
        | none =>
            match stripLast 'm' trimmed with
            | some count => .duration .minutes count
            | none =>
                match parseI64 trimmed with
                | some value => .number value
                | none => .date

def quoted (trimmed : List Char) : String := "'" ++ String.ofList trimmed ++ "'"

def relativeCutoff (unit : DurationUnit) (trimmed count : List Char) (now : Int)
    : Except String Int :=
  match parseI64 count with
  | none => .error ("Invalid " ++ unit.word ++ " duration: " ++ quoted trimmed)
  | some value =>
      if fits64 (value * unit.millis) then .ok (saturatingSub64 now (value * unit.millis))
      else .error "Duration overflow"

/-- A number of milliseconds, or of seconds where it is small. -/
def numericCutoff (value : Int) : Int :=
  if 0 < value ∧ value < 10000000000 then value * 1000 else value

/-- `days_from_civil`, as long as no operation overflows. -/
def daysFromCivil64 (year month day : Int) : Option Int := do
  let year ← checked64If (month ≤ 2) (year - 1) year
  let numerator ← checked64If (¬ 0 ≤ year) (year - 399) year
  let era := numerator.tdiv 400
  let eraYears ← checked64 (era * 400)
  let yearOfEra ← checked64 (year - eraYears)
  let monthPlace ← checked64 (if 2 < month then month - 3 else month + 9)
  let monthDays ← checked64 (153 * monthPlace)
  let monthDays ← checked64 (monthDays + 2)
  let dayOfYear ← checked64 (monthDays.tdiv 5 + day)
  let dayOfYear ← checked64 (dayOfYear - 1)
  let yearDays ← checked64 (yearOfEra * 365)
  let yearDays ← checked64 (yearDays + yearOfEra.tdiv 4)
  let yearDays ← checked64 (yearDays - yearOfEra.tdiv 100)
  let dayOfEra ← checked64 (yearDays + dayOfYear)
  let eraDays ← checked64 (era * 146097)
  let days ← checked64 (eraDays + dayOfEra)
  checked64 (days - 719468)

/-- `civil_from_days`, as long as no operation overflows. -/
def civilFromDays64 (days : Int) : Option (Int × Int × Int) := do
  let days ← checked64 (days + 719468)
  let numerator ← checked64If (¬ 0 ≤ days) (days - 146096) days
  let era := numerator.tdiv 146097
  let eraDays ← checked64 (era * 146097)
  let dayOfEra ← checked64 (days - eraDays)
  let estimate ← checked64 (dayOfEra - dayOfEra.tdiv 1024)
  let estimate ← checked64 (estimate + dayOfEra.tdiv 1460)
  let estimate ← checked64 (estimate - dayOfEra.tdiv 146096)
  let yearOfEra := estimate.tdiv 365
  let eraYears ← checked64 (era * 400)
  let year ← checked64 (yearOfEra + eraYears)
  let yearDays ← checked64 (365 * yearOfEra)
  let yearDays ← checked64 (yearDays + yearOfEra.tdiv 4)
  let yearDays ← checked64 (yearDays - yearOfEra.tdiv 100)
  let dayOfYear ← checked64 (dayOfEra - yearDays)
  let monthDays ← checked64 (5 * dayOfYear)
  let monthDays ← checked64 (monthDays + 2)
  let monthPlace := monthDays.tdiv 153
  let before ← checked64 (153 * monthPlace)
  let before ← checked64 (before + 2)
  let day ← checked64 (dayOfYear - before.tdiv 5)
  let day ← checked64 (day + 1)
  let month ← checked64 (if monthPlace < 10 then monthPlace + 3 else monthPlace - 9)
  let year ← checked64If (month ≤ 2) (year + 1) year
  some (year, month, day)

def splitTime (trimmed : List Char) : List Char × Option (List Char) :=
  match splitOnce 'T' trimmed with
  | some (date, time) => (date, some time)
  | none =>
      match splitOnce ' ' trimmed with
      | some (date, time) => (date, some time)
      | none => (trimmed, none)

/-- The year, the month and the day of a date, within the bounds of a month and a day. -/
def readDate (trimmed date : List Char) : Except String (Int × Int × Int) :=
  match date.splitOn '-' with
  | [year, month, day] =>
      match parseI64 year with
      | none => .error ("Invalid year in " ++ quoted trimmed)
      | some year =>
          match parseI64 month with
          | none => .error ("Invalid month in " ++ quoted trimmed)
          | some month =>
              match parseI64 day with
              | none => .error ("Invalid day in " ++ quoted trimmed)
              | some day =>
                  if (1 ≤ month ∧ month ≤ 12) ∧ 1 ≤ day ∧ day ≤ 31 then .ok (year, month, day)
                  else .error ("Date out of range in " ++ quoted trimmed)
  | _ =>
      .error ("Invalid date format: " ++ quoted trimmed
        ++ ". Expected YYYY-MM-DD, ISO timestamp, or duration like '30d'")

/-- A seconds field as `parse::<f64>` reads it: its value, if it is finite, and what a thousand times
the value is as an `i64`.
-/
structure SecondField where
  value : Option ℚ
  millis : Int
deriving DecidableEq, Repr

def SecondField.zero : SecondField := { value := some 0, millis := 0 }

/-- `parse::<f64>` of a seconds field. -/
abbrev ReadSecond : Type := List Char → Option SecondField

variable (readSecond : ReadSecond)

def readTime (trimmed time : List Char) : Except String (Option (Int × Int × SecondField)) :=
  match (time.rdropWhile (· = 'Z')).splitOn ':' with
  | hour :: minute :: rest =>
      match parseI64 hour with
      | none => .error ("Invalid hour in " ++ quoted trimmed)
      | some hour =>
          match parseI64 minute with
          | none => .error ("Invalid minute in " ++ quoted trimmed)
          | some minute =>
              match rest with
              | [] => .ok (some (hour, minute, .zero))
              | text :: _ =>
                  match readSecond text with
                  | none => .error ("Invalid second in " ++ quoted trimmed)
                  | some second => .ok (some (hour, minute, second))
  | _ => .ok none

/-- The milliseconds of a time of the day, as long as no operation overflows. -/
def timeMs64 (hour minute millis : Int) : Option Int := do
  let hours ← checked64 (hour * 3600)
  let minutes ← checked64 (minute * 60)
  let seconds ← checked64 (hours + minutes)
  let whole ← checked64 (seconds * 1000)
  checked64 (whole + millis)

def dateCutoff (trimmed : List Char) : Panicking String Int := do
  let (date, time) := splitTime trimmed
  let (year, month, day) ← returned (readDate trimmed date)
  let days ← present (daysFromCivil64 year month day)
  let ms ← returned (if fits64 (days * 86400000) then .ok (days * 86400000) else .error "Date overflow")
  match time with
  | none => returned (.ok ms)
  | some time => do
      match ← returned (readTime readSecond trimmed time) with
      | none => returned (.ok ms)
      | some (hour, minute, second) => do
          let timeMs ← present (timeMs64 hour minute second.millis)
          present (checked64 (ms + timeMs))

def parseCutoffToUnixMs (input : String) (now : Int) : Panicking String Int :=
  let trimmed := trim input.toList
  match cutoffForm trimmed with
  | .empty => returned (.error "Cutoff date cannot be empty")
  | .duration unit count => returned (relativeCutoff unit trimmed count now)
  | .number value => returned (.ok (numericCutoff value))
  | .date => dateCutoff readSecond trimmed

-- Timestamps of transcripts

def digitField (text : List Char) (start stop : Nat) : Option Int :=
  (readDigits ((text.take stop).drop start)).map Int.ofNat

def fractionMillis (fraction : List Char) : Option Int :=
  if fraction = [] then some 0
  else if fraction.length > 9 ∨ !fraction.all Char.isDigit then none
  else (readDigits ((fraction ++ List.replicate (3 - fraction.length) '0').take 3)).map Int.ofNat

def monthDays (year month : Int) : Option Int :=
  if month = 2 then
    if year.tmod 4 = 0 ∧ (year.tmod 100 ≠ 0 ∨ year.tmod 400 = 0) then some 29 else some 28
  else if month ∈ [4, 6, 9, 11] then some 30
  else if month ∈ [1, 3, 5, 7, 8, 10, 12] then some 31
  else none

/-- The closed form of a timestamp's instant. -/
def utcMs (year month day hour minute second millis : Int) : Int :=
  let shifted := if month ≤ 2 then year - 1 else year
  let era := shifted / 400
  let yearOfEra := shifted - era * 400
  let dayOfYear := (153 * (month + 9).tmod 12 + 2).tdiv 5 + day - 1
  let dayOfEra := yearOfEra * 365 + yearOfEra.tdiv 4 - yearOfEra.tdiv 100 + dayOfYear
  let days := era * 146097 + dayOfEra - 719468
  ((days * 24 + hour) * 60 + minute) * 60000 + second * 1000 + millis

def splitFraction (utc : List Char) : Option (List Char × List Char) :=
  match splitOnce '.' utc with
  | some (_, []) => none
  | some parts => some parts
  | none => some (utc, [])

def separated (dateTime : List Char) : Bool :=
  dateTime.length = 19 ∧ dateTime[4]? = some '-' ∧ dateTime[7]? = some '-'
    ∧ dateTime[10]? = some 'T' ∧ dateTime[13]? = some ':' ∧ dateTime[16]? = some ':'

/-- The instant of a timestamp's fields, as long as these are in range. -/
def readUtc (dateTime fraction : List Char) : Option Int := do
  let year ← digitField dateTime 0 4
  let month ← digitField dateTime 5 7
  let day ← digitField dateTime 8 10
  let hour ← digitField dateTime 11 13
  let minute ← digitField dateTime 14 16
  let second ← digitField dateTime 17 19
  let millis ← fractionMillis fraction
  let days ← monthDays year month
  if ¬ (1 ≤ day ∧ day ≤ days) ∨ hour > 23 ∨ minute > 59 ∨ second > 60 then none
  else some (utcMs year month day hour minute second millis)

def parseUtcMs (text : List Char) : Option Int := do
  let utc ← stripLast 'Z' text
  let (dateTime, fraction) ← splitFraction utc
  if separated dateTime then readUtc dateTime fraction else none

end SkillRanker.Storage
