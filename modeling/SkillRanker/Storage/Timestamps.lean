import SkillRanker.Storage.Cutoffs

/-! Timestamps on machine integers: when none overflows, and how one is read from a text. -/

namespace SkillRanker.Storage
open SkillRanker.Library

theorem fits64_iff {value : Int} : fits64 value = true ↔ -(2 ^ 63) ≤ value ∧ value < 2 ^ 63 :=
  decide_eq_true_iff

/-- An operation goes on where its result fits. -/
theorem checked64_bind {α : Type} {value : Int} {next : Int → Option α} {result : α}
    : (checked64 value >>= next) = some result
      ↔ fits64 value = true ∧ next value = some result := by
  unfold checked64
  by_cases fits : fits64 value = true
  · rw [if_pos fits]
    exact ⟨fun found => ⟨fits, found⟩, fun found => found.2⟩
  · rw [if_neg fits]
    exact ⟨nofun, fun found => absurd found.1 fits⟩

theorem checked64_eq_some {value result : Int}
    : checked64 value = some result ↔ fits64 value = true ∧ value = result := by
  unfold checked64
  by_cases fits : fits64 value = true <;> simp [fits]

theorem checked64If_bind {α : Type} {condition : Prop} [Decidable condition] {value other : Int}
    {next : Int → Option α} {result : α}
    : (checked64If condition value other >>= next) = some result
      ↔ (condition → fits64 value = true)
        ∧ next (if condition then value else other) = some result := by
  unfold checked64If
  by_cases holds : condition
  · rw [if_pos holds, if_pos holds, checked64_bind, forall_prop_of_true holds]
  · rw [if_neg holds, if_neg holds, forall_prop_of_false holds, true_and]
    rfl

/-- The days of a date are computed without overflow exactly if they fit, shifted to the era's start. -/
theorem daysFromCivil64_eq_some {year month day value : Int} (inYear : 1 ≤ month ∧ month ≤ 12)
    (inMonth : 1 ≤ day ∧ day ≤ 31)
    : daysFromCivil64 year month day = some value
      ↔ value = daysFromCivil year month day ∧ -(2 ^ 63) ≤ value ∧ value + 719468 < 2 ^ 63 := by
  obtain ⟨shifted, shiftedIs⟩ : ∃ shifted, shifted = if month ≤ 2 then year - 1 else year :=
    ⟨_, rfl⟩
  obtain ⟨era, yearOfEra, nonneg, bounded, split⟩
      : ∃ era yearOfEra : Int, 0 ≤ yearOfEra ∧ yearOfEra < 400 ∧ shifted = yearOfEra + era * 400 :=
    ⟨shifted / 400, shifted % 400, by omega, by omega, by omega⟩
  obtain ⟨place, placeIs⟩ : ∃ place, place = if 2 < month then month - 3 else month + 9 := ⟨_, rfl⟩
  have placeBounds : 0 ≤ place ∧ place ≤ 11 := by
    rw [placeIs]
    split <;> omega
  have eraIs := era_eq era nonneg bounded
  have rest : yearOfEra + era * 400 - era * 400 = yearOfEra := by omega
  unfold daysFromCivil64 daysFromCivil
  simp only [checked64If_bind, checked64_bind, checked64_eq_some, ite_not, ← shiftedIs, ← placeIs]
  rw [split, eraIs, rest, Int.tdiv_eq_ediv_of_nonneg nonneg, Int.tdiv_eq_ediv_of_nonneg nonneg,
    Int.tdiv_eq_ediv_of_nonneg (show 0 ≤ 153 * place + 2 by omega)]
  simp only [fits64_iff]
  omega

/-- A day's date is computed without overflow exactly if the shifted day fits. -/
theorem civilFromDays64_eq_some {days : Int} (fits : fits64 days = true) {date : Int × Int × Int}
    : civilFromDays64 days = some date ↔ date = civilFromDays days ∧ days + 719468 < 2 ^ 63 := by
  rw [fits64_iff] at fits
  obtain ⟨era, dayOfEra, nonneg, bounded, split⟩
      : ∃ era dayOfEra : Int, 0 ≤ dayOfEra ∧ dayOfEra < 146097
        ∧ days + 719468 = dayOfEra + era * 146097 :=
    ⟨(days + 719468) / 146097, (days + 719468) % 146097, by omega, by omega, by omega⟩
  have eraIs := dayEra_eq era nonneg bounded
  have rest : dayOfEra + era * 146097 - era * 146097 = dayOfEra := by omega
  unfold civilFromDays64 civilFromDays
  simp only [checked64If_bind, checked64_bind, ite_not]
  obtain ⟨estimateNonneg, estimateLt⟩ := estimatedYear_bounds nonneg bounded
  rw [split, eraIs, rest, estimatedYear_tdiv nonneg bounded, Int.tdiv_eq_ediv_of_nonneg nonneg,
    Int.tdiv_eq_ediv_of_nonneg nonneg, Int.tdiv_eq_ediv_of_nonneg nonneg,
    Int.tdiv_eq_ediv_of_nonneg estimateNonneg, Int.tdiv_eq_ediv_of_nonneg estimateNonneg]
  -- everything after the era is small
  generalize estimatedYear dayOfEra = yearOfEra at estimateNonneg estimateLt
  generalize dayIs : dayOfEra - (365 * yearOfEra + yearOfEra / 4 - yearOfEra / 100) = dayOfYear
  have daySmall : -200000 ≤ dayOfYear ∧ dayOfYear ≤ 200000 := by omega
  have placeSmall := Int.natAbs_tdiv_le_natAbs (5 * dayOfYear + 2) 153
  generalize (5 * dayOfYear + 2).tdiv 153 = place at placeSmall
  have placeBounds : -1000002 ≤ place ∧ place ≤ 1000002 := by omega
  have beforeSmall := Int.natAbs_tdiv_le_natAbs (153 * place + 2) 5
  generalize (153 * place + 2).tdiv 5 = before at beforeSmall
  have beforeBounds : -200000000 ≤ before ∧ before ≤ 200000000 := by omega
  generalize monthIs : (if place < 10 then place + 3 else place - 9) = month
  have monthBounds : -1000011 ≤ month ∧ month ≤ 1000005 := by
    split at monthIs <;> omega
  clear dayIs placeSmall beforeSmall monthIs eraIs rest
  simp only [fits64_iff, Option.some.injEq, eq_comm (b := date)]
  constructor
  · rintro ⟨⟨_, room⟩, _⟩
    simp_all
  · rintro ⟨found, room⟩
    refine ⟨?_, ?_, ?_, ?_, ?_, ?_, ?_, ?_, ?_, ?_, ?_, ?_, ?_, ?_, ?_, ?_, ?_, ?_, ?_, ?_, ?_,
      found⟩ <;> omega

-- Timestamps as texts

-- Fields

structure StampFields where
  year : List Char
  month : List Char
  day : List Char
  hour : List Char
  minute : List Char
  second : List Char

def StampFields.clock (fields : StampFields) : List Char :=
  fields.hour ++ ':' :: (fields.minute ++ ':' :: fields.second)

def StampFields.date (fields : StampFields) : List Char :=
  fields.year ++ '-' :: (fields.month ++ '-' :: fields.day)

def StampFields.text (fields : StampFields) : List Char :=
  fields.date ++ 'T' :: (fields.clock ++ ['Z'])

structure StampFields.Reads (readSecond : ReadSecond) (fields : StampFields)
    (year month day hour minute : Nat) (second : SecondField) : Prop where
  year : readDigits fields.year = some year
  month : readDigits fields.month = some month
  day : readDigits fields.day = some day
  hour : readDigits fields.hour = some hour
  minute : readDigits fields.minute = some minute
  second : readSecond fields.second = some second
  nonempty : fields.second ≠ []
  plain : ∀ char ∈ fields.second, char ≠ ':' ∧ char ≠ 'Z'

variable {readSecond : ReadSecond} {fields : StampFields}
variable {year month day hour minute : Nat} {second : SecondField}

theorem not_mem_of_readDigits {text : List Char} {value : Nat} {char : Char}
    (read : readDigits text = some value) (other : char.isDigit = false)
    : char ∉ text := by
  intro mem
  rw [(of_readDigits read).2 char mem] at other
  cases other

theorem parseI64_of_readDigits {text : List Char} {value : Nat}
    (read : readDigits text = some value) (fits : fits64 value = true)
    : parseI64 text = some (value : Int) := by
  unfold parseI64
  rw [readInteger_of_readDigits read, Option.bind_some]
  unfold checked64
  rw [if_pos fits]

theorem isWhitespace_of_isDigit {char : Char} (digit : char.isDigit = true)
    : isWhitespace char = false := by
  have bounds := digit_bounds digit
  simp [isWhitespace]
  omega

/-- A text that starts and ends with something else than white space is trimmed. -/
theorem trim_eq_self {first last : Char} {middle : List Char}
    (starts : isWhitespace first = false) (ends : isWhitespace last = false)
    : trim (first :: (middle ++ [last])) = first :: (middle ++ [last]) := by
  unfold trim
  rw [List.dropWhile_cons_of_neg (by rw [starts]; exact Bool.false_ne_true), ← List.cons_append,
    List.rdropWhile_concat_neg _ _ _ (by rw [ends]; exact Bool.false_ne_true)]

/-- A text that ends with a `Z` and has more than digits and a sign is a date. -/
theorem cutoffForm_of_utc {first : Char} {middle : List Char} (digit : first.isDigit = true)
    {char : Char} (mem : char ∈ middle) (other : char.isDigit = false)
    : cutoffForm (first :: (middle ++ ['Z'])) = .date := by
  have last : (first :: (middle ++ ['Z'])).getLast? = some 'Z' := by
    rw [← List.cons_append, List.getLast?_concat]
  have noUnit (unit : Char) (different : 'Z' ≠ unit)
      : stripLast unit (first :: (middle ++ ['Z'])) = none := by
    unfold stripLast
    rw [last, if_neg (by simpa using different)]
  have noNumber : parseI64 (first :: (middle ++ ['Z'])) = none := by
    unfold parseI64
    rw [readInteger_of_digit digit,
      readDigits_of_mem (List.mem_cons_of_mem _ (List.mem_append_left _ mem)) other]
    rfl
  unfold cutoffForm
  rw [if_neg (List.cons_ne_nil _ _), noUnit 'd' (by decide), noUnit 'h' (by decide),
    noUnit 'm' (by decide), noNumber]

variable (reads : fields.Reads readSecond year month day hour minute second)
include reads

theorem StampFields.Reads.split
    : splitTime fields.text = (fields.date, some (fields.clock ++ ['Z']))
      ∧ fields.date.splitOn '-' = [fields.year, fields.month, fields.day]
      ∧ ((fields.clock ++ ['Z']).rdropWhile (· = 'Z')).splitOn ':'
        = [fields.hour, fields.minute, fields.second] := by
  have noDash {text : List Char} {value : Nat} (read : readDigits text = some value) : '-' ∉ text :=
    not_mem_of_readDigits read (by decide)
  have noColon {text : List Char} {value : Nat} (read : readDigits text = some value) : ':' ∉ text :=
    not_mem_of_readDigits read (by decide)
  have noT {text : List Char} {value : Nat} (read : readDigits text = some value) : 'T' ∉ text :=
    not_mem_of_readDigits read (by decide)
  refine ⟨?_, ?_, ?_⟩
  · have absent : 'T' ∉ fields.date := by
      unfold date
      simp [noT reads.year, noT reads.month, noT reads.day]
    unfold splitTime text
    rw [splitOnce_append absent]
  · unfold date
    rw [splitOn_append (noDash reads.year), splitOn_append (noDash reads.month),
      splitOn_of_not_mem (noDash reads.day)]
  · obtain ⟨start, last, secondIs⟩ := List.eq_nil_or_concat fields.second |>.resolve_left reads.nonempty
    have lastPlain := (reads.plain last (by rw [secondIs]; simp)).2
    have noZ : (fields.clock ++ ['Z']).rdropWhile (· = 'Z') = fields.clock := by
      rw [List.rdropWhile_concat_pos _ _ _ (by simp)]
      have clockIs : fields.clock = (fields.hour ++ ':' :: (fields.minute ++ ':' :: start)) ++ [last] := by
        unfold clock
        rw [secondIs]
        simp
      rw [clockIs, List.rdropWhile_concat_neg _ _ _ (by simpa using lastPlain)]
    have secondColon : ':' ∉ fields.second := fun mem => (reads.plain ':' mem).1 rfl
    rw [noZ]
    unfold clock
    rw [splitOn_append (noColon reads.hour), splitOn_append (noColon reads.minute),
      splitOn_of_not_mem secondColon]

omit reads in
theorem daysFromCivil_bounds {year month day : Int} (inYears : 0 ≤ year ∧ year ≤ 9999)
    (inYear : 1 ≤ month ∧ month ≤ 12) (inMonth : 1 ≤ day ∧ day ≤ 31)
    : -800000 ≤ daysFromCivil year month day ∧ daysFromCivil year month day ≤ 3000000 := by
  obtain ⟨shifted, shiftedIs⟩ : ∃ shifted, shifted = if month ≤ 2 then year - 1 else year :=
    ⟨_, rfl⟩
  have yearIs
      : year
        = if month ≤ 2 then shifted % 400 + shifted / 400 * 400 + 1
          else shifted % 400 + shifted / 400 * 400 := by
    split at shiftedIs <;> omega
  rw [yearIs, daysFromCivil_eq (shifted / 400) (by omega) (by omega) inYear]
  unfold yearStart
  split at shiftedIs <;> split <;> omega

theorem StampFields.Reads.parse (inYears : year ≤ 9999) (inYear : 1 ≤ month ∧ month ≤ 12)
    (inMonth : 1 ≤ day ∧ day ≤ 31)
    (inClock : hour ≤ 99 ∧ minute ≤ 99 ∧ 0 ≤ second.millis ∧ second.millis ≤ 1000000) (now : Int)
    : parseCutoffToUnixMs readSecond (String.ofList fields.text) now
      = returned (.ok (daysFromCivil year month day * 86400000
        + (((hour : Int) * 60 + minute) * 60000 + second.millis))) := by
  obtain ⟨times, dates, clocks⟩ := reads.split
  obtain ⟨nonempty, digits⟩ := of_readDigits reads.year
  obtain ⟨first, rest, yearIs⟩ := List.exists_cons_of_ne_nil nonempty
  have digit := digits first (by rw [yearIs]; exact List.mem_cons_self)
  have shape
      : fields.text
        = first :: ((rest ++ '-' :: (fields.month ++ '-' :: fields.day) ++ 'T' :: fields.clock)
          ++ ['Z']) := by
    unfold text date
    rw [yearIs]
    simp
  have trimmed : trim fields.text = fields.text := by
    rw [shape]
    exact trim_eq_self (isWhitespace_of_isDigit digit) (by decide)
  have form : cutoffForm fields.text = .date := by
    rw [shape]
    exact @cutoffForm_of_utc _ _ digit '-' (by simp) (by decide)
  have fits (value : Nat) (small : value ≤ 9999) : fits64 (value : Int) = true := by
    rw [fits64_iff]
    omega
  have readDate
      : readDate fields.text fields.date = .ok ((year : Int), (month : Int), (day : Int)) := by
    unfold Storage.readDate
    rw [dates]
    dsimp only
    rw [parseI64_of_readDigits reads.year (fits year inYears),
      parseI64_of_readDigits reads.month (fits month (by omega)),
      parseI64_of_readDigits reads.day (fits day (by omega))]
    dsimp only
    rw [if_pos (by omega)]
  have readTime
      : readTime readSecond fields.text (fields.clock ++ ['Z'])
        = .ok (some ((hour : Int), (minute : Int), second)) := by
    unfold Storage.readTime
    rw [clocks]
    dsimp only
    rw [parseI64_of_readDigits reads.hour (fits hour (by omega)),
      parseI64_of_readDigits reads.minute (fits minute (by omega))]
    dsimp only
    rw [reads.second]
  obtain ⟨daysFrom, daysTo⟩ := @daysFromCivil_bounds year month day
    (by omega) (by omega) (by omega)
  have days := (@daysFromCivil64_eq_some year month day (daysFromCivil year month day) (by omega)
    (by omega)).mpr ⟨rfl, by omega, by omega⟩
  generalize daysFromCivil year month day = count at daysFrom daysTo days ⊢
  have dayFits : fits64 (count * 86400000) = true := by
    rw [fits64_iff]
    omega
  have time : timeMs64 hour minute second.millis
      = some (((hour : Int) * 60 + minute) * 60000 + second.millis) := by
    unfold timeMs64
    simp only [checked64_bind, checked64_eq_some, fits64_iff]
    omega
  have sum : checked64 (count * 86400000 + (((hour : Int) * 60 + minute) * 60000 + second.millis))
      = some (count * 86400000 + (((hour : Int) * 60 + minute) * 60000 + second.millis)) := by
    rw [checked64_eq_some, fits64_iff]
    omega
  unfold parseCutoffToUnixMs
  rw [String.toList_ofList, trimmed]
  dsimp only
  rw [form]
  dsimp only
  unfold dateCutoff
  rw [times]
  dsimp only
  rw [readDate, returned_ok_bind]
  dsimp only
  rw [days, present_bind, if_pos dayFits, returned_ok_bind, readTime, returned_ok_bind]
  dsimp only
  rw [time, present_bind, sum]
  rfl

end SkillRanker.Storage
