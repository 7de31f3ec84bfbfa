import Mathlib.Algebra.Order.Ring.Int
import Mathlib.Tactic.IntervalCases

/-! The conversion between days and civil dates, and when it is right.
Years start in March here, so that a leap day is the last of its year; four hundred years are an era.
-/

namespace SkillRanker.Storage

variable {dayOfEra yearOfEra dayOfYear : Int}

-- Civil dates

def IsLeap (year : Int) : Prop := year % 4 = 0 ∧ (year % 100 ≠ 0 ∨ year % 400 = 0)

instance (year : Int) : Decidable (IsLeap year) := inferInstanceAs (Decidable (_ ∧ _))

def daysInMonth (year month : Int) : Int :=
  if month = 2 then if IsLeap year then 29 else 28
  else if month = 4 ∨ month = 6 ∨ month = 9 ∨ month = 11 then 30
  else 31

def IsDate (year month day : Int) : Prop :=
  1 ≤ month ∧ month ≤ 12 ∧ 1 ≤ day ∧ day ≤ daysInMonth year month

instance (year month day : Int) : Decidable (IsDate year month day) :=
  inferInstanceAs (Decidable (_ ∧ _))

def daysFromCivil (year month day : Int) : Int :=
  let year := if month ≤ 2 then year - 1 else year
  let era := (if 0 ≤ year then year else year - 399).tdiv 400
  let yearOfEra := year - era * 400
  let dayOfYear :=
    (153 * (if 2 < month then month - 3 else month + 9) + 2).tdiv 5 + day - 1
  let dayOfEra := yearOfEra * 365 + yearOfEra.tdiv 4 - yearOfEra.tdiv 100 + dayOfYear
  era * 146097 + dayOfEra - 719468

def civilFromDays (days : Int) : Int × Int × Int :=
  let days := days + 719468
  let era := (if 0 ≤ days then days else days - 146096).tdiv 146097
  let dayOfEra := days - era * 146097
  let yearOfEra :=
    (dayOfEra - dayOfEra.tdiv 1024 + dayOfEra.tdiv 1460 - dayOfEra.tdiv 146096).tdiv 365
  let year := yearOfEra + era * 400
  let dayOfYear := dayOfEra - (365 * yearOfEra + yearOfEra.tdiv 4 - yearOfEra.tdiv 100)
  let monthPlace := (5 * dayOfYear + 2).tdiv 153
  let day := dayOfYear - (153 * monthPlace + 2).tdiv 5 + 1
  let month := if monthPlace < 10 then monthPlace + 3 else monthPlace - 9
  let year := if month ≤ 2 then year + 1 else year
  (year, month, day)

-- Years of an era

def yearStart (yearOfEra : Int) : Int := 365 * yearOfEra + yearOfEra / 4 - yearOfEra / 100

def EndsLeap (yearOfEra : Int) : Prop :=
  (yearOfEra + 1) % 4 = 0 ∧ ((yearOfEra + 1) % 100 ≠ 0 ∨ (yearOfEra + 1) % 400 = 0)

structure DayOfEra (dayOfEra yearOfEra dayOfYear : Int) : Prop where
  sum : dayOfEra = yearStart yearOfEra + dayOfYear
  year_nonneg : 0 ≤ yearOfEra
  year_lt : yearOfEra < 400
  day_nonneg : 0 ≤ dayOfYear
  day_le : dayOfYear ≤ 365
  leap : dayOfYear = 365 → EndsLeap yearOfEra

theorem yearStart_succ (yearOfEra : Int) (nonneg : 0 ≤ yearOfEra) (bounded : yearOfEra < 400)
    : yearStart yearOfEra + 365 ≤ yearStart (yearOfEra + 1)
      ∧ (EndsLeap yearOfEra → yearOfEra = 399 ∨ yearStart yearOfEra + 366 ≤ yearStart (yearOfEra + 1))
      ∧ (¬ EndsLeap yearOfEra → yearStart (yearOfEra + 1) ≤ yearStart yearOfEra + 365) := by
  unfold yearStart EndsLeap
  refine ⟨by omega, fun leap => ?_, fun common => ?_⟩
  · omega
  · omega

/-- Every day of an era has a year: by centuries, groups of four years, and single years. -/
theorem exists_dayOfEra (nonneg : 0 ≤ dayOfEra) (bounded : dayOfEra < 146097)
    : ∃ yearOfEra dayOfYear, DayOfEra dayOfEra yearOfEra dayOfYear := by
  obtain ⟨century, inCentury, rfl, centuryNonneg, centuryLe, dayNonneg, dayLe, dayLast⟩
      : ∃ century inCentury : Int, dayOfEra = 36524 * century + inCentury ∧ 0 ≤ century
        ∧ century ≤ 3 ∧ 0 ≤ inCentury ∧ inCentury ≤ 36524 ∧ (inCentury = 36524 → century = 3) := by
    by_cases last : dayOfEra = 146096
    · exact ⟨3, 36524, by omega, by omega, by omega, by omega, by omega, fun _ => rfl⟩
    · exact ⟨dayOfEra / 36524, dayOfEra % 36524, by omega, by omega, by omega, by omega, by omega,
        by omega⟩
  obtain ⟨group, inGroup, rfl, groupNonneg, groupLe, inGroupNonneg, inGroupLe⟩
      : ∃ group inGroup : Int, inCentury = 1461 * group + inGroup ∧ 0 ≤ group ∧ group ≤ 24
        ∧ 0 ≤ inGroup ∧ inGroup ≤ 1460 :=
    ⟨inCentury / 1461, inCentury % 1461, by omega, by omega, by omega, by omega, by omega⟩
  obtain ⟨single, dayOfYear, rfl, singleNonneg, singleLe, ofYearNonneg, ofYearLe, ofYearLast⟩
      : ∃ single dayOfYear : Int, inGroup = 365 * single + dayOfYear ∧ 0 ≤ single ∧ single ≤ 3
        ∧ 0 ≤ dayOfYear ∧ dayOfYear ≤ 365 ∧ (dayOfYear = 365 → single = 3) := by
    by_cases last : inGroup = 1460
    · exact ⟨3, 365, by omega, by omega, by omega, by omega, by omega, fun _ => rfl⟩
    · exact ⟨inGroup / 365, inGroup % 365, by omega, by omega, by omega, by omega, by omega,
        by omega⟩
  have quarters : (100 * century + 4 * group + single) / 4 = 25 * century + group := by omega
  have hundreds : (100 * century + 4 * group + single) / 100 = century := by omega
  refine ⟨100 * century + 4 * group + single, dayOfYear, ?_, by omega, by omega, ofYearNonneg,
    ofYearLe, fun leap => ?_⟩
  · unfold yearStart
    rw [quarters, hundreds]
    omega
  · unfold EndsLeap
    obtain rfl := ofYearLast leap
    omega

theorem DayOfEra.bounds (placed : DayOfEra dayOfEra yearOfEra dayOfYear)
    : 0 ≤ dayOfEra ∧ dayOfEra < 146097 := by
  obtain ⟨rfl, yearNonneg, yearLt, dayNonneg, dayLe, leap⟩ := placed
  unfold yearStart
  refine ⟨by omega, ?_⟩
  by_cases last : dayOfYear = 365
  · have ends := leap last
    unfold EndsLeap at ends
    omega
  · omega

-- Months

/-- The date of a day of a year that starts in March. -/
def civilOf (era yearOfEra dayOfYear : Int) : Int × Int × Int :=
  let monthPlace := (5 * dayOfYear + 2).tdiv 153
  let day := dayOfYear - (153 * monthPlace + 2).tdiv 5 + 1
  let month := if monthPlace < 10 then monthPlace + 3 else monthPlace - 9
  let year := yearOfEra + era * 400
  (if month ≤ 2 then year + 1 else year, month, day)

def estimatedYear (dayOfEra : Int) : Int :=
  (dayOfEra - dayOfEra / 1024 + dayOfEra / 1460 - dayOfEra / 146096) / 365

theorem estimatedYear_bounds (nonneg : 0 ≤ dayOfEra) (bounded : dayOfEra < 146097)
    : 0 ≤ estimatedYear dayOfEra ∧ estimatedYear dayOfEra < 401 := by
  unfold estimatedYear
  omega

theorem estimatedYear_tdiv (nonneg : 0 ≤ dayOfEra) (bounded : dayOfEra < 146097)
    : (dayOfEra - dayOfEra.tdiv 1024 + dayOfEra.tdiv 1460 - dayOfEra.tdiv 146096).tdiv 365
      = estimatedYear dayOfEra := by
  rw [Int.tdiv_eq_ediv_of_nonneg nonneg, Int.tdiv_eq_ediv_of_nonneg nonneg,
    Int.tdiv_eq_ediv_of_nonneg nonneg, Int.tdiv_eq_ediv_of_nonneg (by omega)]
  rfl

variable (era : Int)

theorem era_eq (nonneg : 0 ≤ yearOfEra) (bounded : yearOfEra < 400)
    : (if 0 ≤ yearOfEra + era * 400 then yearOfEra + era * 400
        else yearOfEra + era * 400 - 399).tdiv 400 = era := by
  split
  · next sign =>
    rw [Int.tdiv_eq_ediv_of_nonneg sign]
    omega
  · rw [Int.tdiv_eq_ediv, show Int.sign 400 = 1 from rfl]
    split <;> omega

theorem dayEra_eq (nonneg : 0 ≤ dayOfEra) (bounded : dayOfEra < 146097)
    : (if 0 ≤ dayOfEra + era * 146097 then dayOfEra + era * 146097
        else dayOfEra + era * 146097 - 146096).tdiv 146097 = era := by
  split
  · next sign =>
    rw [Int.tdiv_eq_ediv_of_nonneg sign]
    omega
  · rw [Int.tdiv_eq_ediv, show Int.sign 146097 = 1 from rfl]
    split <;> omega

theorem civilFromDays_eq (nonneg : 0 ≤ dayOfEra) (bounded : dayOfEra < 146097)
    : civilFromDays (era * 146097 + dayOfEra - 719468)
      = civilOf era (estimatedYear dayOfEra)
          (dayOfEra - yearStart (estimatedYear dayOfEra)) := by
  have eraIs := dayEra_eq era nonneg bounded
  have shifted : era * 146097 + dayOfEra - 719468 + 719468 = dayOfEra + era * 146097 := by omega
  have rest : dayOfEra + era * 146097 - era * 146097 = dayOfEra := by omega
  obtain ⟨yearNonneg, _⟩ := estimatedYear_bounds nonneg bounded
  unfold civilFromDays civilOf yearStart
  dsimp only
  rw [shifted, eraIs, rest, estimatedYear_tdiv nonneg bounded, Int.tdiv_eq_ediv_of_nonneg yearNonneg,
    Int.tdiv_eq_ediv_of_nonneg yearNonneg]

variable {month : Int}

/-- The days of a date by its year of an era, counted from March. -/
theorem daysFromCivil_eq (nonneg : 0 ≤ yearOfEra) (bounded : yearOfEra < 400)
    (inYear : 1 ≤ month ∧ month ≤ 12) (day : Int)
    : daysFromCivil (if month ≤ 2 then yearOfEra + era * 400 + 1 else yearOfEra + era * 400)
        month day
      = era * 146097 + yearStart yearOfEra
        + ((153 * (if 2 < month then month - 3 else month + 9) + 2) / 5 + day - 1) - 719468 := by
  have shifted
      : (if month ≤ 2 then
            (if month ≤ 2 then yearOfEra + era * 400 + 1 else yearOfEra + era * 400) - 1
          else if month ≤ 2 then yearOfEra + era * 400 + 1 else yearOfEra + era * 400)
        = yearOfEra + era * 400 := by
    split <;> omega
  have eraIs := era_eq era nonneg bounded
  have rest : yearOfEra + era * 400 - era * 400 = yearOfEra := by omega
  have place : 0 ≤ 153 * (if 2 < month then month - 3 else month + 9) + 2 := by
    split <;> omega
  unfold daysFromCivil yearStart
  dsimp only
  rw [shifted, eraIs, rest, Int.tdiv_eq_ediv_of_nonneg place, Int.tdiv_eq_ediv_of_nonneg nonneg,
    Int.tdiv_eq_ediv_of_nonneg nonneg]
  omega

theorem monthPlace_tdiv (nonneg : 0 ≤ dayOfYear)
    : (5 * dayOfYear + 2).tdiv 153 = (5 * dayOfYear + 2) / 153
      ∧ (153 * ((5 * dayOfYear + 2) / 153) + 2).tdiv 5
        = (153 * ((5 * dayOfYear + 2) / 153) + 2) / 5 :=
  ⟨Int.tdiv_eq_ediv_of_nonneg (by omega), Int.tdiv_eq_ediv_of_nonneg (by omega)⟩

theorem civilOf_dayOfEra (era : Int) (placed : DayOfEra dayOfEra yearOfEra dayOfYear)
    : let date := civilOf era yearOfEra dayOfYear
      IsDate date.1 date.2.1 date.2.2
        ∧ daysFromCivil date.1 date.2.1 date.2.2 = era * 146097 + dayOfEra - 719468 := by
  obtain ⟨rfl, yearNonneg, yearLt, dayNonneg, dayLe, leap⟩ := placed
  obtain ⟨place, before⟩ := monthPlace_tdiv (show 0 ≤ dayOfYear by omega)
  unfold civilOf
  dsimp only
  rw [place, before]
  generalize placeIs : (5 * dayOfYear + 2) / 153 = monthPlace
  have placeBounds : 0 ≤ monthPlace ∧ monthPlace ≤ 11 := by omega
  obtain ⟨placeNonneg, placeLe⟩ := placeBounds
  have inYear : 1 ≤ (if monthPlace < 10 then monthPlace + 3 else monthPlace - 9)
      ∧ (if monthPlace < 10 then monthPlace + 3 else monthPlace - 9) ≤ 12 := by
    split <;> omega
  refine ⟨⟨inYear.1, inYear.2, by omega, ?_⟩, ?_⟩
  · unfold daysInMonth IsLeap
    unfold EndsLeap at leap
    interval_cases monthPlace <;> simp <;> omega
  · rw [daysFromCivil_eq era yearNonneg yearLt inYear]
    have back
        : (if 2 < (if monthPlace < 10 then monthPlace + 3 else monthPlace - 9) then
              (if monthPlace < 10 then monthPlace + 3 else monthPlace - 9) - 3
            else (if monthPlace < 10 then monthPlace + 3 else monthPlace - 9) + 9)
          = monthPlace := by
      split <;> omega
    rw [back]
    omega

theorem exists_of_isDate {year day : Int} (isDate : IsDate year month day)
    : ∃ era dayOfEra yearOfEra dayOfYear, DayOfEra dayOfEra yearOfEra dayOfYear
        ∧ civilOf era yearOfEra dayOfYear = (year, month, day) := by
  obtain ⟨monthFrom, monthTo, dayFrom, dayTo⟩ := isDate
  -- the year that the date lies in, from March to February
  obtain ⟨marchYear, yearIs⟩ : ∃ marchYear, marchYear = if month ≤ 2 then year - 1 else year :=
    ⟨_, rfl⟩
  obtain ⟨monthPlace, placeIs⟩
      : ∃ monthPlace, monthPlace = if 2 < month then month - 3 else month + 9 :=
    ⟨_, rfl⟩
  have placeBounds : 0 ≤ monthPlace ∧ monthPlace ≤ 11 := by
    rw [placeIs]
    split <;> omega
  obtain ⟨placeNonneg, placeLe⟩ := placeBounds
  obtain ⟨dayOfYear, dayIs⟩ : ∃ dayOfYear, dayOfYear = (153 * monthPlace + 2) / 5 + day - 1 :=
    ⟨_, rfl⟩
  have monthIs : month = if monthPlace < 10 then monthPlace + 3 else monthPlace - 9 := by
    rw [placeIs]
    split <;> split <;> omega
  unfold daysInMonth IsLeap at dayTo
  have inMonth : (5 * dayOfYear + 2) / 153 = monthPlace ∧ 0 ≤ dayOfYear ∧ dayOfYear ≤ 365
      ∧ (dayOfYear = 365 → EndsLeap (marchYear % 400)) := by
    unfold EndsLeap
    rw [monthIs] at dayTo yearIs
    interval_cases monthPlace <;> simp at dayTo yearIs dayIs <;> omega
  obtain ⟨inMonth, dayNonneg, dayLe, leap⟩ := inMonth
  refine ⟨marchYear / 400, yearStart (marchYear % 400) + dayOfYear, marchYear % 400, dayOfYear,
    ⟨rfl, by omega, by omega, dayNonneg, dayLe, leap⟩, ?_⟩
  have place : (5 * dayOfYear + 2).tdiv 153 = monthPlace :=
    (Int.tdiv_eq_ediv_of_nonneg (by omega)).trans inMonth
  have before : (153 * monthPlace + 2).tdiv 5 = (153 * monthPlace + 2) / 5 :=
    Int.tdiv_eq_ediv_of_nonneg (by omega)
  unfold civilOf
  dsimp only
  rw [place, before, ← monthIs]
  refine Prod.mk.injEq _ _ _ _ |>.mpr ⟨?_, Prod.mk.injEq _ _ _ _ |>.mpr ⟨rfl, by omega⟩⟩
  rw [yearIs]
  split <;> omega

-- When the conversion is right

/-- The days that the estimate of the year takes away, which ought to be the leap days before, are
within a year of these: the day is not taken for one of another year.
-/
def EstimateHolds (dayOfEra yearOfEra dayOfYear : Int) : Prop :=
  let leapDays := yearOfEra / 4 - yearOfEra / 100
  let taken := dayOfEra / 1024 - dayOfEra / 1460 + dayOfEra / 146096
  taken ≤ dayOfYear + leapDays ∧ dayOfYear + leapDays < taken + 365

/-- The day lies where the estimate of its year is right. -/
def Estimable (days : Int) : Prop :=
  ∃ yearOfEra dayOfYear, DayOfEra ((days + 719468) % 146097) yearOfEra dayOfYear
    ∧ EstimateHolds ((days + 719468) % 146097) yearOfEra dayOfYear

theorem estimatedYear_eq_iff (placed : DayOfEra dayOfEra yearOfEra dayOfYear)
    : estimatedYear dayOfEra = yearOfEra ↔ EstimateHolds dayOfEra yearOfEra dayOfYear := by
  obtain ⟨sum, yearNonneg, yearLt, dayNonneg, dayLe, leap⟩ := placed
  unfold yearStart at sum
  unfold estimatedYear EstimateHolds
  dsimp only
  omega

theorem yearStart_le {left right : Int} (less : left < right)
    : yearStart (left + 1) ≤ yearStart right := by
  unfold yearStart
  omega

theorem DayOfEra.lt_next (placed : DayOfEra dayOfEra yearOfEra dayOfYear) (inEra : yearOfEra < 399)
    : dayOfEra < yearStart (yearOfEra + 1) := by
  obtain ⟨sum, yearNonneg, yearLt, dayNonneg, dayLe, leap⟩ := placed
  obtain ⟨long, leapLong, _⟩ := yearStart_succ yearOfEra yearNonneg yearLt
  by_cases last : dayOfYear = 365
  · have longer := leapLong (leap last)
    omega
  · omega

theorem DayOfEra.unique {otherYear otherDay : Int} (placed : DayOfEra dayOfEra yearOfEra dayOfYear)
    (other : DayOfEra dayOfEra otherYear otherDay)
    : yearOfEra = otherYear := by
  have notLess {early late earlyDay lateDay : Int} (one : DayOfEra dayOfEra early earlyDay)
      (two : DayOfEra dayOfEra late lateDay)
      : ¬ early < late := by
    intro less
    have before := one.lt_next (by have := two.year_lt; omega)
    have next := yearStart_le less
    have sum := two.sum
    have nonneg := two.day_nonneg
    omega
  have left := notLess placed other
  have right := notLess other placed
  omega

/-- A date from a negative day of a year does not exist. -/
theorem civilOf_of_neg (era yearOfEra : Int) (negative : dayOfYear < 0)
    : (civilOf era yearOfEra dayOfYear).2.2 ≤ 0 := by
  unfold civilOf
  dsimp only
  rw [Int.tdiv_eq_ediv, Int.tdiv_eq_ediv, show Int.sign 153 = 1 from rfl,
    show Int.sign 5 = 1 from rfl]
  split <;> split <;> omega

/-- A date from a day after its year does not exist, or is a date of another day. -/
theorem civilOf_of_late (era : Int) (nonneg : 0 ≤ yearOfEra) (bounded : yearOfEra < 399)
    (late : yearStart (yearOfEra + 1) ≤ yearStart yearOfEra + dayOfYear)
    : let date := civilOf era yearOfEra dayOfYear
      ¬ (IsDate date.1 date.2.1 date.2.2
        ∧ daysFromCivil date.1 date.2.1 date.2.2
          = era * 146097 + (yearStart yearOfEra + dayOfYear) - 719468) := by
  obtain ⟨long, leapLong, _⟩ := yearStart_succ yearOfEra nonneg (by omega)
  have dayFrom : 365 ≤ dayOfYear := by omega
  obtain ⟨place, before⟩ := monthPlace_tdiv (show 0 ≤ dayOfYear by omega)
  unfold civilOf
  dsimp only
  rw [place, before]
  rintro ⟨⟨monthFrom, monthTo, dayFrom', dayTo⟩, back⟩
  rw [daysFromCivil_eq era nonneg (by omega) ⟨monthFrom, monthTo⟩] at back
  by_cases february : (5 * dayOfYear + 2) / 153 = 11
  · rw [february] at dayTo
    unfold daysInMonth IsLeap at dayTo
    unfold EndsLeap at leapLong
    simp at dayTo
    omega
  · have beyond : 12 ≤ (5 * dayOfYear + 2) / 153 := by omega
    rw [if_neg (show ¬ (5 * dayOfYear + 2) / 153 < 10 by omega)] at back
    split at back <;> omega

/-- A day of a wrong year has no date, or one of another day. -/
theorem civilOf_of_wrong (era : Int) (placed : DayOfEra dayOfEra yearOfEra dayOfYear)
    (wrong : estimatedYear dayOfEra ≠ yearOfEra)
    : let date := civilOf era (estimatedYear dayOfEra)
        (dayOfEra - yearStart (estimatedYear dayOfEra))
      ¬ (IsDate date.1 date.2.1 date.2.2
        ∧ daysFromCivil date.1 date.2.1 date.2.2 = era * 146097 + dayOfEra - 719468) := by
  obtain ⟨nonneg, bounded⟩ := placed.bounds
  obtain ⟨estimateNonneg, estimateLt⟩ := estimatedYear_bounds nonneg bounded
  have sum := placed.sum
  have dayNonneg := placed.day_nonneg
  have yearLt := placed.year_lt
  rcases Int.lt_or_gt_of_ne wrong with less | more
  · have late := yearStart_le less
    have whole : yearStart (estimatedYear dayOfEra)
          + (dayOfEra - yearStart (estimatedYear dayOfEra))
        = dayOfEra := by omega
    have refused := civilOf_of_late era estimateNonneg (by omega)
      (show yearStart (estimatedYear dayOfEra + 1)
          ≤ yearStart (estimatedYear dayOfEra)
            + (dayOfEra - yearStart (estimatedYear dayOfEra)) by omega)
    rwa [whole] at refused
  · by_cases negative : dayOfEra - yearStart (estimatedYear dayOfEra) < 0
    · intro date holds
      have dayFrom := holds.1.2.2.1
      have none := civilOf_of_neg era (estimatedYear dayOfEra) negative
      dsimp only [date] at dayFrom
      omega
    · -- the last day of an era is taken for the first of the next one
      have last : yearOfEra = 399 := by
        by_contra earlier
        have before := placed.lt_next (by omega)
        have next := yearStart_le more
        omega
      have estimateIs : estimatedYear dayOfEra = 400 := by omega
      have start : yearStart 400 = 146096 := by decide
      rw [estimateIs, start] at negative ⊢
      obtain rfl : dayOfEra = 146096 := by omega
      intro date holds
      have back := holds.2
      have march : (1 : Int) ≤ 3 ∧ (3 : Int) ≤ 12 := by decide
      have first := daysFromCivil_eq (era + 1) (Int.le_refl 0) (by decide) march 1
      rw [if_neg (by decide), if_pos (by decide)] at first
      have none : yearStart 0 = 0 := by decide
      have dateIs : date = (0 + (era + 1) * 400, 3, 1) := by
        have year : 400 + era * 400 = 0 + (era + 1) * 400 := by omega
        rw [← year]
        rfl
      rw [dateIs, first, none] at back
      omega

def ConvertedBack (days : Int) : Prop :=
  let date := civilFromDays days
  IsDate date.1 date.2.1 date.2.2 ∧ daysFromCivil date.1 date.2.1 date.2.2 = days

/-- A day is converted to a date and back exactly if the estimate of its year is right. -/
theorem convertedBack_iff (days : Int) : ConvertedBack days ↔ Estimable days := by
  obtain ⟨era, eraIs⟩ : ∃ era, era = (days + 719468) / 146097 := ⟨_, rfl⟩
  obtain ⟨dayOfEra, dayIs⟩ : ∃ dayOfEra, dayOfEra = (days + 719468) % 146097 := ⟨_, rfl⟩
  have nonneg : 0 ≤ dayOfEra := by omega
  have bounded : dayOfEra < 146097 := by omega
  have daysIs : days = era * 146097 + dayOfEra - 719468 := by omega
  obtain ⟨yearOfEra, dayOfYear, placed⟩ := exists_dayOfEra nonneg bounded
  unfold Estimable ConvertedBack
  rw [← dayIs, daysIs, civilFromDays_eq era nonneg bounded]
  constructor
  · intro correct
    by_contra wrong
    refine civilOf_of_wrong era placed (fun right => wrong ?_) correct
    exact ⟨yearOfEra, dayOfYear, placed, (estimatedYear_eq_iff placed).mp right⟩
  · rintro ⟨otherYear, otherDay, other, holds⟩
    have right := (estimatedYear_eq_iff other).mpr holds
    have rest : dayOfEra - yearStart otherYear = otherDay := by
      have sum := other.sum
      omega
    rw [right, rest]
    exact civilOf_dayOfEra era other

/-- A date is found again from its day if the estimate of the year is right. -/
theorem civilFromDays_daysFromCivil {year day : Int} (isDate : IsDate year month day)
    (estimable : Estimable (daysFromCivil year month day))
    : civilFromDays (daysFromCivil year month day) = (year, month, day) := by
  obtain ⟨era, dayOfEra, yearOfEra, dayOfYear, placed, date⟩ := exists_of_isDate isDate
  obtain ⟨nonneg, bounded⟩ := placed.bounds
  have daysIs := (civilOf_dayOfEra era placed).2
  rw [date] at daysIs
  dsimp only at daysIs
  obtain ⟨otherYear, otherDay, other, holds⟩ := estimable
  have same : (daysFromCivil year month day + 719468) % 146097 = dayOfEra := by
    rw [daysIs]
    omega
  rw [same] at other holds
  have right := ((estimatedYear_eq_iff other).mpr holds).trans (placed.unique other).symm
  have rest : dayOfEra - yearStart yearOfEra = dayOfYear := by
    have sum := placed.sum
    omega
  rw [daysIs, civilFromDays_eq era nonneg bounded, right, rest, date]

end SkillRanker.Storage
