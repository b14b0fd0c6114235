import Mathlib.Tactic.IntervalCases
import PageTemplate.Calendar

/-!
# PageTemplate.Proofs.Calendar

Dates of the proleptic Gregorian calendar and their weekdays, for every year.

`Date.number_next` and `Date.number_injective` say that the days are numbered one after the other,
across the ends of months, of leap years and of centuries. So the weekday of a day number is the
weekday of its date (`hasWeekday_iff`): that of the tenth of March 2024, moved on by one from each
date to the next.
-/

namespace PageTemplate

namespace Calendar

/-- Every fourth year is a leap year, but of those that end a century only every fourth. -/
def isLeap (year : Int) : Bool := year % 4 == 0 && (year % 100 != 0 || year % 400 == 0)

/-- The number of days of a month. -/
def daysIn (year month : Int) : Int :=
  if month = 2 then (if isLeap year then 29 else 28)
  else if month = 4 ∨ month = 6 ∨ month = 9 ∨ month = 11 then 30
  else 31

theorem isLeap_iff {year : Int} :
    isLeap year ↔ year % 4 = 0 ∧ (year % 100 ≠ 0 ∨ year % 400 = 0) := by
  simp [isLeap]

theorem daysIn_bounds (year month : Int) : 28 ≤ daysIn year month ∧ daysIn year month ≤ 31 := by
  unfold daysIn
  split
  · split <;> decide
  · split <;> decide

/-! Years that start in March: the leap day is then the last day of a year. -/

/-- The year from March on that a month lies in. -/
def marchYear (year month : Int) : Int := if month ≤ 2 then year - 1 else year

/-- The months of such a year before a month. -/
def monthsFromMarch (month : Int) : Int := if month ≤ 2 then month + 9 else month - 3

/-- The days of such a year before the month that so many months come before. -/
def daysOfMonths (months : Int) : Int := (153 * months + 2) / 5

/-- The days of such years before one of them, counted from the year 0. -/
def daysOfYears (year : Int) : Int := 365 * year + year / 4 - year / 100 + year / 400

theorem dayNumber_eq {month : Int} (hlow : 1 ≤ month) (hhigh : month ≤ 12) (year day : Int) :
    dayNumber year month day =
      daysOfYears (marchYear year month) + daysOfMonths (monthsFromMarch month) + day - 719469 := by
  have hmonth : (month + 9).fmod 12 = monthsFromMarch month := by
    rw [Int.fmod_eq_emod_of_nonneg _ (by decide), monthsFromMarch]
    split <;> omega
  have hyear : (if month ≤ 2 then year - 1 else year) = marchYear year month := rfl
  simp only [dayNumber, hmonth, hyear, daysOfYears, daysOfMonths,
    Int.fdiv_eq_ediv_of_nonneg _ (show (0 : Int) ≤ 400 by decide)]
  omega

theorem daysOfYears_next (year : Int) :
    daysOfYears (year + 1) = daysOfYears year + if isLeap (year + 1) then 366 else 365 := by
  have h4 : (year + 1) / 4 = year / 4 + if (year + 1) % 4 = 0 then 1 else 0 := by
    split <;> omega
  have h100 : (year + 1) / 100 = year / 100 + if (year + 1) % 100 = 0 then 1 else 0 := by
    split <;> omega
  have h400 : (year + 1) / 400 = year / 400 + if (year + 1) % 400 = 0 then 1 else 0 := by
    split <;> omega
  rw [daysOfYears, h4, h100, h400, daysOfYears]
  simp only [isLeap_iff]
  split_ifs <;> omega

theorem daysOfYears_mono {year later : Int} (h : year ≤ later) :
    daysOfYears year ≤ daysOfYears later := by
  unfold daysOfYears
  omega

/-- Behind every month but February the next one follows in the same year from March on. -/
theorem daysOfMonths_next {month : Int} (hlow : 1 ≤ month) (hhigh : month ≤ 12) (hne : month ≠ 2)
    (year : Int) :
    daysOfMonths (monthsFromMarch month + 1) =
      daysOfMonths (monthsFromMarch month) + daysIn year month := by
  unfold daysOfMonths monthsFromMarch daysIn
  interval_cases month <;> first | exact absurd rfl hne | rfl

theorem daysOfMonths_mono {months later : Int} (h : months ≤ later) :
    daysOfMonths months ≤ daysOfMonths later := by
  unfold daysOfMonths
  omega

/-- February is the last month from March on. -/
theorem monthsFromMarch_le {month : Int} (hlow : 1 ≤ month) (hhigh : month ≤ 12) :
    0 ≤ monthsFromMarch month ∧ monthsFromMarch month ≤ 11 := by
  unfold monthsFromMarch
  split <;> omega

/-- A date of the calendar: the month and the day count from 1. -/
@[ext]
structure Date where
  year : Int
  month : Int
  day : Int
  month_pos : 1 ≤ month
  month_le : month ≤ 12
  day_pos : 1 ≤ day
  day_le : day ≤ daysIn year month

namespace Date

/-- The number of a date among all days. -/
def number (d : Date) : Int := dayNumber d.year d.month d.day

/-- The first day of a month. -/
def first (year month : Int) (hlow : 1 ≤ month) (hhigh : month ≤ 12) : Date :=
  ⟨year, month, 1, hlow, hhigh, by decide, by have := daysIn_bounds year month; omega⟩

/-- The last day of a month. -/
def last (year month : Int) (hlow : 1 ≤ month) (hhigh : month ≤ 12) : Date :=
  ⟨year, month, daysIn year month, hlow, hhigh, by have := daysIn_bounds year month; omega,
    Int.le_refl _⟩

/-- The date of the day after. -/
def next (d : Date) : Date :=
  if hday : d.day < daysIn d.year d.month then
    ⟨d.year, d.month, d.day + 1, d.month_pos, d.month_le, by have := d.day_pos; omega, hday⟩
  else if hmonth : d.month < 12 then
    first d.year (d.month + 1) (by have := d.month_pos; omega) hmonth
  else first (d.year + 1) 1 (by decide) (by decide)

/-- The date of the day before. -/
def previous (d : Date) : Date :=
  if hday : 1 < d.day then
    ⟨d.year, d.month, d.day - 1, d.month_pos, d.month_le, by omega, by have := d.day_le; omega⟩
  else if hmonth : 1 < d.month then
    last d.year (d.month - 1) (by omega) (by have := d.month_le; omega)
  else last (d.year - 1) 12 (by decide) (by decide)

theorem next_last {year month : Int} (hlow : 1 ≤ month) (hhigh : month < 12) :
    (last year month hlow (by omega)).next = first year (month + 1) (by omega) hhigh := by
  simp [next, last, hhigh]

theorem next_last_december (year : Int) :
    (last year 12 (by decide) (by decide)).next = first (year + 1) 1 (by decide) (by decide) := by
  simp [next, last]

theorem next_previous (d : Date) : d.previous.next = d := by
  have hlow := d.month_pos
  have hhigh := d.month_le
  have hpos := d.day_pos
  have hday := d.day_le
  rw [previous]
  split
  · rw [next, dif_pos (show d.day - 1 < daysIn d.year d.month by omega)]
    ext <;> simp
  split
  · rename_i hfirst hmonth
    rw [next_last]
    · ext <;> simp [first]
      omega
    · omega
  · rename_i hfirst hmonth
    rw [next_last_december]
    ext <;> simp [first] <;> omega

/-- The number of the first day of a month, from that of the last day before it. -/
theorem number_next_last {year month : Int} (hlow : 1 ≤ month) (hhigh : month < 12) :
    (first year (month + 1) (by omega) hhigh).number =
      (last year month hlow (by omega)).number + 1 := by
  simp only [number, first, last, dayNumber_eq hlow (show month ≤ 12 by omega),
    dayNumber_eq (show 1 ≤ month + 1 by omega) hhigh]
  by_cases hfebruary : month = 2
  · have hleap := daysOfYears_next (year - 1)
    rw [Int.sub_add_cancel] at hleap
    subst hfebruary
    simp only [marchYear, monthsFromMarch, daysOfMonths, daysIn] at hleap ⊢
    split at hleap <;> simp_all <;> omega
  · have hdays := daysOfMonths_next hlow (show month ≤ 12 by omega) hfebruary year
    have hmonths : monthsFromMarch (month + 1) = monthsFromMarch month + 1 := by
      unfold monthsFromMarch
      split_ifs <;> omega
    have hyear : marchYear year (month + 1) = marchYear year month := by
      unfold marchYear
      split_ifs <;> omega
    rw [hmonths, hyear, hdays]
    omega

theorem number_next_december (year : Int) :
    (first (year + 1) 1 (by decide) (by decide)).number =
      (last year 12 (by decide) (by decide)).number + 1 := by
  simp only [number, first, last, dayNumber_eq (show (1 : Int) ≤ 1 by decide) (by decide),
    dayNumber_eq (show (1 : Int) ≤ 12 by decide) (by decide)]
  simp [marchYear, monthsFromMarch, daysOfMonths, daysIn]
  omega

/-- **The days are numbered one after the other**, across the ends of months and years. -/
theorem number_next (d : Date) : d.next.number = d.number + 1 := by
  have hlow := d.month_pos
  have hday := d.day_le
  have hlast : ¬ d.day < daysIn d.year d.month →
      d = last d.year d.month d.month_pos d.month_le := by
    intro h
    ext
    · rfl
    · rfl
    · exact Int.le_antisymm hday (Int.not_lt.1 h)
  rw [next]
  split
  · simp only [number, dayNumber_eq hlow d.month_le]
    omega
  split
  · rename_i h hmonth
    rw [number_next_last hlow hmonth, ← hlast h]
  · rename_i h hmonth
    have hdecember : d.month = 12 := by
      have := d.month_le
      omega
    have hd := hlast h
    simp only [hdecember] at hd
    rw [number_next_december, ← hd]

/-- The day of a year that starts in March. -/
def dayOfYear (d : Date) : Int := daysOfMonths (monthsFromMarch d.month) + d.day

theorem number_eq (d : Date) :
    d.number = daysOfYears (marchYear d.year d.month) + d.dayOfYear - 719469 := by
  rw [number, dayNumber_eq d.month_pos d.month_le, dayOfYear]
  omega

/-- A day that does not lie in February lies before the next month from March on. -/
theorem dayOfYear_le (d : Date) (h : d.month ≠ 2) :
    d.dayOfYear ≤ daysOfMonths (monthsFromMarch d.month + 1) := by
  have hday := d.day_le
  rw [daysOfMonths_next d.month_pos d.month_le h d.year, dayOfYear]
  omega

theorem dayOfYear_bounds (d : Date) : 1 ≤ d.dayOfYear ∧
    d.dayOfYear ≤ if isLeap (marchYear d.year d.month + 1) then 366 else 365 := by
  have hmonths := monthsFromMarch_le d.month_pos d.month_le
  have hpos := d.day_pos
  refine ⟨?_, ?_⟩
  · have hmono := daysOfMonths_mono hmonths.1
    have hzero : daysOfMonths 0 = 0 := rfl
    rw [dayOfYear]
    omega
  · by_cases hfebruary : d.month = 2
    · have hday := d.day_le
      have hyear : marchYear d.year 2 + 1 = d.year := by simp [marchYear]
      have hdays : daysIn d.year 2 = if isLeap d.year then 29 else 28 := rfl
      have hmarch : daysOfMonths (monthsFromMarch 2) = 337 := rfl
      rw [dayOfYear, hfebruary, hyear, hmarch]
      rw [hfebruary, hdays] at hday
      split at hday <;> simp_all <;> omega
    · have hle := d.dayOfYear_le hfebruary
      have hlt : monthsFromMarch d.month + 1 ≤ 11 := by
        have := d.month_le
        unfold monthsFromMarch
        split_ifs <;> omega
      have hmono := daysOfMonths_mono hlt
      have hend : daysOfMonths 11 = 337 := rfl
      split <;> omega

theorem number_lt {d e : Date}
    (h : marchYear d.year d.month < marchYear e.year e.month) : d.number < e.number := by
  have hd := d.dayOfYear_bounds
  have he := e.dayOfYear_bounds
  have hmono := daysOfYears_mono (show marchYear d.year d.month + 1 ≤ _ from h)
  have hnext := daysOfYears_next (marchYear d.year d.month)
  rw [number_eq, number_eq]
  omega

theorem dayOfYear_lt {d e : Date} (h : monthsFromMarch d.month < monthsFromMarch e.month) :
    d.dayOfYear < e.dayOfYear := by
  have hfebruary : d.month ≠ 2 := by
    intro hmonth
    have hlast := (monthsFromMarch_le e.month_pos e.month_le).2
    rw [hmonth, show monthsFromMarch 2 = 11 from rfl] at h
    omega
  have hle := d.dayOfYear_le hfebruary
  have hmono := daysOfMonths_mono (show monthsFromMarch d.month + 1 ≤ _ from h)
  have hpos := e.day_pos
  rw [dayOfYear] at hle ⊢
  rw [dayOfYear]
  omega

/-- Different dates have different numbers. -/
theorem number_injective : Function.Injective number := by
  intro d e h
  have hyear : marchYear d.year d.month = marchYear e.year e.month := by
    by_contra hne
    rcases Int.lt_or_gt_of_ne hne with hlt | hlt
    · exact absurd h (Int.ne_of_lt (number_lt hlt))
    · exact absurd h.symm (Int.ne_of_lt (number_lt hlt))
  have hday : d.dayOfYear = e.dayOfYear := by
    rw [number_eq, number_eq, hyear] at h
    omega
  have hmonths : monthsFromMarch d.month = monthsFromMarch e.month := by
    by_contra hne
    rcases Int.lt_or_gt_of_ne hne with hlt | hlt
    · exact absurd hday (Int.ne_of_lt (dayOfYear_lt hlt))
    · exact absurd hday.symm (Int.ne_of_lt (dayOfYear_lt hlt))
  have hmonth : d.month = e.month := by
    have hd := d.month_le
    have he := e.month_le
    have hd' := d.month_pos
    have he' := e.month_pos
    simp only [monthsFromMarch] at hmonths
    split_ifs at hmonths <;> omega
  rw [dayOfYear, dayOfYear, hmonth] at hday
  rw [marchYear, marchYear, hmonth] at hyear
  ext
  · split at hyear <;> omega
  · exact hmonth
  · omega

/-- The tenth of March 2024. -/
def anchor : Date := ⟨2024, 3, 10, by decide, by decide, by decide, by decide⟩

end Date

/-- Weekdays as a calendar has them: the tenth of March 2024 is a Sunday, and from each date to the
next one the weekday moves on by one. Sunday is 0. -/
inductive HasWeekday : Date → Nat → Prop where
  | anchor : HasWeekday Date.anchor 0
  | next {d : Date} {n : Nat} : HasWeekday d n → HasWeekday d.next ((n + 1) % 7)
  | previous {d : Date} {n : Nat} : HasWeekday d.next ((n + 1) % 7) → n < 7 → HasWeekday d n

theorem weekday_lt (n : Int) : weekday n < 7 := by
  rw [weekday, Int.fmod_eq_emod_of_nonneg _ (by decide)]
  omega

theorem weekday_add (n : Int) (k : Nat) : weekday (n + k) = (weekday n + k) % 7 := by
  simp only [weekday, Int.fmod_eq_emod_of_nonneg _ (show (0 : Int) ≤ 7 by decide)]
  omega

theorem HasWeekday.eq_weekday {d : Date} {n : Nat} (h : HasWeekday d n) : n = weekday d.number := by
  induction h with
  | anchor => rfl
  | next _ ih => rw [Date.number_next, ih, ← Int.natCast_one, weekday_add]
  | @previous d n _ hn ih =>
    have hlt := weekday_lt d.number
    rw [Date.number_next, ← Int.natCast_one, weekday_add] at ih
    omega

/-- Every date is reached from the tenth of March 2024, day by day. -/
theorem hasWeekday_weekday (d : Date) : HasWeekday d (weekday d.number) := by
  induction hk : (d.number - Date.anchor.number).natAbs generalizing d with
  | zero =>
    have hd : d = Date.anchor := Date.number_injective (by omega)
    rw [hd]
    exact .anchor
  | succ k ih =>
    rcases Int.lt_or_gt_of_ne (show d.number ≠ Date.anchor.number by omega) with hlt | hlt
    · have hnext := ih d.next (by rw [Date.number_next]; omega)
      rw [Date.number_next, ← Int.natCast_one, weekday_add] at hnext
      exact .previous hnext (weekday_lt d.number)
    · have hnumber := Date.number_next d.previous
      rw [Date.next_previous] at hnumber
      have hprevious := (ih d.previous (by omega)).next
      rwa [Date.next_previous, ← weekday_add, Int.natCast_one, ← hnumber] at hprevious

/-- **The weekday of a date** is what its day number says, for every date of the calendar. -/
theorem hasWeekday_iff {d : Date} {n : Nat} : HasWeekday d n ↔ n = weekday d.number :=
  ⟨HasWeekday.eq_weekday, fun h => h ▸ hasWeekday_weekday d⟩

end Calendar

end PageTemplate
