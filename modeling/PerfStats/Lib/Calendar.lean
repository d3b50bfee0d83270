import Mathlib.Tactic

namespace PerfStats.Lib.Calendar

structure Date where
  year : ℤ
  month : ℤ
  day : ℤ
deriving DecidableEq, Repr

def yearOfEra (day : ℤ) : ℤ :=
  let century := min (day / 36524) 3
  let cycle := (day - 36524 * century) / 1461
  let rest := day - 36524 * century - 1461 * cycle
  100 * century + 4 * cycle + min (rest / 365) 3

def daysBefore (year : ℤ) : ℤ := 365 * year + year / 4 - year / 100

def dateInYear (year inYear : ℤ) : Date :=
  let month := (5 * inYear + 2) / 153
  { year := if month < 10 then year else year + 1
    month := if month < 10 then month + 3 else month - 9
    day := inYear - (153 * month + 2) / 5 + 1 }

def dateOf (days : ℤ) : Date :=
  let era := (days + 719468) / 146097
  let day := (days + 719468) % 146097
  dateInYear (yearOfEra day + era * 400) (day - daysBefore (yearOfEra day))

def yearDay (date : Date) : ℤ × ℤ :=
  if date.month ≤ 2 then (date.year - 1, (153 * (date.month + 9) + 2) / 5 + date.day - 1)
  else (date.year, (153 * (date.month - 3) + 2) / 5 + date.day - 1)

def daysOf (date : Date) : ℤ :=
  let year := (yearDay date).1
  year / 400 * 146097 + daysBefore (year % 400) + (yearDay date).2 - 719468

theorem daysBefore_parts {century cycle year : ℤ} (cycles : 0 ≤ cycle ∧ cycle ≤ 24)
    (years : 0 ≤ year ∧ year ≤ 3) :
    daysBefore (100 * century + 4 * cycle + year) = 36524 * century + 1461 * cycle + 365 * year := by
  have fours : (100 * century + 4 * cycle + year) / 4 = 25 * century + cycle := by omega
  have hundreds : (100 * century + 4 * cycle + year) / 100 = century := by omega
  rw [daysBefore, fours, hundreds]
  ring

theorem yearOfEra_parts {day : ℤ} (least : 0 ≤ day) (most : day < 146097) :
    ∃ century cycle year, (0 ≤ century ∧ century ≤ 3) ∧ (0 ≤ cycle ∧ cycle ≤ 24) ∧
      (0 ≤ year ∧ year ≤ 3) ∧ yearOfEra day = 100 * century + 4 * cycle + year ∧
      0 ≤ day - 36524 * century - 1461 * cycle - 365 * year ∧
      day - 36524 * century - 1461 * cycle - 365 * year ≤ 365 := by
  have centuries : 0 ≤ min (day / 36524) 3 ∧ min (day / 36524) 3 ≤ 3 ∧
      0 ≤ day - 36524 * min (day / 36524) 3 ∧ day - 36524 * min (day / 36524) 3 ≤ 36524 := by omega
  refine ⟨min (day / 36524) 3, _, _, ⟨centuries.1, centuries.2.1⟩, ?_, ?_, rfl, ?_, ?_⟩
  all_goals
    generalize min (day / 36524) 3 = century at centuries ⊢
    generalize day - 36524 * century = rest at centuries ⊢
    omega

theorem yearOfEra_bounds {day : ℤ} (least : 0 ≤ day) (most : day < 146097) :
    0 ≤ yearOfEra day ∧ yearOfEra day < 400 := by
  obtain ⟨century, cycle, year, _, _, _, parts, -⟩ := yearOfEra_parts least most
  omega

theorem day_of_year {day : ℤ} (least : 0 ≤ day) (most : day < 146097) :
    0 ≤ day - daysBefore (yearOfEra day) ∧ day - daysBefore (yearOfEra day) ≤ 365 := by
  obtain ⟨century, cycle, year, -, cycles, years, parts, low, high⟩ := yearOfEra_parts least most
  rw [parts, daysBefore_parts cycles years]
  omega

theorem dateInYear_bounds (year : ℤ) {inYear : ℤ} (least : 0 ≤ inYear) (most : inYear ≤ 365) :
    1 ≤ (dateInYear year inYear).month ∧ (dateInYear year inYear).month ≤ 12 ∧
      1 ≤ (dateInYear year inYear).day ∧ (dateInYear year inYear).day ≤ 31 := by
  simp only [dateInYear]
  omega

theorem yearDay_dateInYear (year : ℤ) {inYear : ℤ} (least : 0 ≤ inYear) (most : inYear ≤ 365) :
    yearDay (dateInYear year inYear) = (year, inYear) := by
  simp only [yearDay, dateInYear]
  by_cases early : (5 * inYear + 2) / 153 < 10
  · simp only [if_pos early]
    rw [if_neg (by omega)]
    refine Prod.ext rfl ?_
    omega
  · simp only [if_neg early]
    rw [if_pos (by omega)]
    refine Prod.ext ?_ ?_
    · dsimp only
      omega
    · dsimp only
      omega

theorem dateOf_bounds (days : ℤ) : 1 ≤ (dateOf days).month ∧ (dateOf days).month ≤ 12 ∧
    1 ≤ (dateOf days).day ∧ (dateOf days).day ≤ 31 := by
  have inside : 0 ≤ (days + 719468) % 146097 ∧ (days + 719468) % 146097 < 146097 := by omega
  have within := day_of_year inside.1 inside.2
  exact dateInYear_bounds _ within.1 within.2

theorem daysOf_dateOf (days : ℤ) : daysOf (dateOf days) = days := by
  have inside : 0 ≤ (days + 719468) % 146097 ∧ (days + 719468) % 146097 < 146097 := by omega
  have years := yearOfEra_bounds inside.1 inside.2
  have within := day_of_year inside.1 inside.2
  simp only [daysOf, dateOf, yearDay_dateInYear _ within.1 within.2]
  have era : (yearOfEra ((days + 719468) % 146097) + (days + 719468) / 146097 * 400) / 400 =
      (days + 719468) / 146097 := by omega
  have rest : (yearOfEra ((days + 719468) % 146097) + (days + 719468) / 146097 * 400) % 400 =
      yearOfEra ((days + 719468) % 146097) := by omega
  rw [era, rest]
  omega

theorem year_bounds {days : ℤ} (first : -719162 ≤ days) (last : days ≤ 2932896) :
    1 ≤ (dateOf days).year ∧ (dateOf days).year ≤ 9999 := by
  have back := daysOf_dateOf days
  have bounds := dateOf_bounds days
  generalize dateOf days = date at back bounds ⊢
  dsimp only [daysOf, yearDay, daysBefore] at back
  by_cases early : date.month ≤ 2
  · simp only [if_pos early] at back
    omega
  · simp only [if_neg early] at back
    omega

example : dateOf 0 = ⟨1970, 1, 1⟩ ∧ dateOf (-1) = ⟨1969, 12, 31⟩ ∧
    dateOf 11016 = ⟨2000, 2, 29⟩ ∧ dateOf 2932896 = ⟨9999, 12, 31⟩ ∧
    dateOf (-719162) = ⟨1, 1, 1⟩ := by decide

end PerfStats.Lib.Calendar
