import Mathlib

/-!
# The Gregorian calendar

A clock that shows a year, a month, a day and a time of day, and the count of seconds it stands for.
A day number splits into 400 years, centuries, leap cycles and years (`Split`), and **everything
about a date is read off that split**: the count of its days (`daysOf_civil`), and that month and
day are in their ranges (`civil_valid`).
-/

namespace Gregorian

def isLeap (year : Int) : Bool := decide (year % 4 = 0 ∧ (year % 100 ≠ 0 ∨ year % 400 = 0))

def daysInMonth (year month : Int) : Int :=
  if month = 2 then if isLeap year then 29 else 28
  else if month = 4 ∨ month = 6 ∨ month = 9 ∨ month = 11 then 30
  else 31

def daysOf (year month day : Int) : Int :=
  let y := if month ≤ 2 then year - 1 else year
  let m := if month ≤ 2 then month + 9 else month - 3
  365 * y + y / 4 - y / 100 + y / 400 + (153 * m + 2) / 5 + (day - 1)

/-- A day number taken apart: `era` of 400 years, `century` in it, `cycle` of four years in that,
`year` of the cycle, and the day in the year. The last day of a year is its leap day, and a cycle
has one unless it is the last of a century that is not the last of its era. -/
structure Split where
  era : Int
  century : Int
  cycle : Int
  year : Int
  day : Int
  century_range : 0 ≤ century ∧ century ≤ 3
  cycle_range : 0 ≤ cycle ∧ cycle ≤ 24
  year_range : 0 ≤ year ∧ year ≤ 3
  day_range : 0 ≤ day ∧ day ≤ 365
  leap_day : day = 365 → year = 3 ∧ (cycle < 24 ∨ century = 3)

namespace Split

def ofDays (n : Int) : Split :=
  let inEra := n % 146097
  let century := min (inEra / 36524) 3
  let inCentury := inEra - 36524 * century
  let inCycle := inCentury % 1461
  let year := min (inCycle / 365) 3
  { era := n / 146097
    century := century
    cycle := inCentury / 1461
    year := year
    day := inCycle - 365 * year
    century_range := by omega
    cycle_range := by omega
    year_range := by omega
    day_range := by omega
    leap_day := by omega }

def days (s : Split) : Int :=
  146097 * s.era + 36524 * s.century + 1461 * s.cycle + 365 * s.year + s.day

lemma days_ofDays (n : Int) : (ofDays n).days = n := by
  simp only [days, ofDays]
  omega

def marchYear (s : Split) : Int := 400 * s.era + 100 * s.century + 4 * s.cycle + s.year

def marchMonth (s : Split) : Int := (5 * s.day + 2) / 153

lemma marchMonth_range (s : Split) : 0 ≤ s.marchMonth ∧ s.marchMonth ≤ 11 := by
  have := s.day_range
  simp only [marchMonth]
  omega

def month (s : Split) : Int :=
  if s.marchMonth < 10 then s.marchMonth + 3 else s.marchMonth - 9

def calendarYear (s : Split) : Int :=
  if s.month ≤ 2 then s.marchYear + 1 else s.marchYear

def monthDay (s : Split) : Int := s.day - (153 * s.marchMonth + 2) / 5 + 1

lemma month_range (s : Split) : 1 ≤ s.month ∧ s.month ≤ 12 := by
  have := s.marchMonth_range
  unfold month
  split <;> omega

lemma daysOf_eq (s : Split) : daysOf s.calendarYear s.month s.monthDay = s.days := by
  have hm := s.marchMonth_range
  have hy : (if s.month ≤ 2 then s.calendarYear - 1 else s.calendarYear) = s.marchYear := by
    unfold calendarYear
    split <;> omega
  have hmonth : (if s.month ≤ 2 then s.month + 9 else s.month - 3) = s.marchMonth := by
    unfold month
    split <;> split <;> omega
  have h1 := s.century_range
  have h2 := s.cycle_range
  have h3 := s.year_range
  simp only [daysOf, hy, hmonth]
  simp only [marchYear, days, monthDay]
  omega

lemma monthDay_range (s : Split) : 1 ≤ s.monthDay ∧
    s.monthDay ≤ daysInMonth s.calendarYear s.month := by
  have hd := s.day_range
  have hm := s.marchMonth_range
  -- how far into the year a month starts and the next one does
  have hin : s.marchMonth * 153 ≤ 5 * s.day + 2 ∧ 5 * s.day + 2 < (s.marchMonth + 1) * 153 := by
    simp only [marchMonth]
    omega
  refine ⟨by simp only [monthDay]; omega, ?_⟩
  by_cases hfeb : s.marchMonth = 11
  · have hmonth : s.month = 2 := by simp [month, hfeb]
    have hyear : s.calendarYear = s.marchYear + 1 := by simp [calendarYear, hmonth]
    have hday : s.monthDay = s.day - 336 := by simp only [monthDay, hfeb]; omega
    rw [hmonth, hyear, hday]
    simp only [daysInMonth, if_true]
    split
    · omega
    · next hleap =>
      -- the 29th is day 365 of a year that has it, and then the year is a leap year
      by_cases h : s.day < 365
      · omega
      · exfalso
        obtain ⟨hyr, hcyc⟩ := s.leap_day (by omega)
        have h1 := s.century_range
        have h2 := s.cycle_range
        apply hleap
        apply decide_eq_true
        simp only [marchYear]
        omega
  · have hlen : daysInMonth s.calendarYear s.month
        = if s.marchMonth = 1 ∨ s.marchMonth = 3 ∨ s.marchMonth = 6 ∨ s.marchMonth = 8 then 30
          else 31 := by
      simp only [daysInMonth, month]
      split_ifs <;> first | rfl | omega
    rw [hlen]
    simp only [monthDay]
    split_ifs <;> omega

end Split

structure Clock where
  year : Int
  month : Int
  day : Int
  hour : Int
  minute : Int
  second : Int
deriving DecidableEq

namespace Clock

def unixDay : Int := 719468

def timestamp (c : Clock) : Int :=
  (daysOf c.year c.month c.day - unixDay) * 86400 + c.hour * 3600 + c.minute * 60 + c.second

def ofTimestamp (secs : Int) : Clock :=
  let s := Split.ofDays (secs / 86400 + unixDay)
  let time := secs % 86400
  { year := s.calendarYear
    month := s.month
    day := s.monthDay
    hour := time / 3600
    minute := time % 3600 / 60
    second := time % 60 }

lemma timestamp_ofTimestamp (secs : Int) : (ofTimestamp secs).timestamp = secs := by
  simp only [timestamp, ofTimestamp, Split.daysOf_eq, Split.days_ofDays]
  omega

structure Valid (c : Clock) : Prop where
  month : 1 ≤ c.month ∧ c.month ≤ 12
  day : 1 ≤ c.day ∧ c.day ≤ daysInMonth c.year c.month
  hour : 0 ≤ c.hour ∧ c.hour ≤ 23
  minute : 0 ≤ c.minute ∧ c.minute ≤ 59
  second : 0 ≤ c.second ∧ c.second ≤ 59

lemma valid_ofTimestamp (secs : Int) : (ofTimestamp secs).Valid where
  month := Split.month_range _
  day := Split.monthDay_range _
  hour := by simp only [ofTimestamp]; omega
  minute := by simp only [ofTimestamp]; omega
  second := by simp only [ofTimestamp]; omega

lemma daysInMonth_le (year month : Int) : daysInMonth year month ≤ 31 := by
  unfold daysInMonth
  split_ifs <;> omega

/-- A clock whose day may be past the end of its month. -/
structure Lenient (c : Clock) : Prop where
  month : 1 ≤ c.month ∧ c.month ≤ 12
  day : 1 ≤ c.day ∧ c.day ≤ 31
  hour : 0 ≤ c.hour ∧ c.hour ≤ 23
  minute : 0 ≤ c.minute ∧ c.minute ≤ 59
  second : 0 ≤ c.second ∧ c.second ≤ 59

lemma Valid.lenient {c : Clock} (hc : c.Valid) : c.Lenient :=
  ⟨hc.month, ⟨hc.day.1, hc.day.2.trans (daysInMonth_le _ _)⟩, hc.hour, hc.minute, hc.second⟩

lemma newYear_le_timestamp_iff {c : Clock} (hc : c.Lenient) (year : Int) :
    timestamp ⟨year, 1, 1, 0, 0, 0⟩ ≤ c.timestamp ↔ year ≤ c.year := by
  have hmonth := hc.month
  have hday := hc.day
  have hhour := hc.hour
  have hminute := hc.minute
  have hsecond := hc.second
  have hdays : daysOf year 1 1 ≤ daysOf c.year c.month c.day ↔ year ≤ c.year := by
    simp only [daysOf]
    split <;> norm_num <;> omega
  simp only [timestamp]
  omega

lemma timestamp_addYears (c : Clock) {n : Int} (hn : 0 ≤ n) :
    c.timestamp + 365 * n * 86400 ≤ { c with year := c.year + n }.timestamp := by
  simp only [timestamp, daysOf]
  split <;> omega

end Clock

end Gregorian
