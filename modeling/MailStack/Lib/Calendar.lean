import Mathlib.Tactic.IntervalCases

/-! The Gregorian calendar in both directions of time: its dates in their order, the date after a
date, and the number of days from the beginning of 1970. -/

namespace MailStack.Lib.Calendar

def isLeap (year : Int) : Bool := (year % 4 = 0 && year % 100 ≠ 0) || year % 400 = 0

def monthLength (year : Int) : Nat → Nat
  | 1 | 3 | 5 | 7 | 8 | 10 | 12 => 31
  | 4 | 6 | 9 | 11 => 30
  | 2 => if isLeap year then 29 else 28
  | _ => 0

/-- A day of the calendar. -/
@[ext] structure Date where
  year : Int
  month : Nat
  day : Nat
  month_pos : 1 ≤ month
  month_le : month ≤ 12
  day_pos : 1 ≤ day
  day_le : day ≤ monthLength year month

/-- A day can only be in one of the twelve months. -/
theorem month_range {year : Int} {month : Nat} (some : 1 ≤ monthLength year month) :
    1 ≤ month ∧ month ≤ 12 := by
  unfold monthLength at some
  split at some <;> omega

namespace Date

/-- The order of time: by year, then by month, then by day. -/
def Before (a b : Date) : Prop :=
  a.year < b.year ∨ a.year = b.year ∧
    (a.month < b.month ∨ a.month = b.month ∧ a.day < b.day)

variable {a b : Date}

theorem before_trichotomy (a b : Date) : a.Before b ∨ a = b ∨ b.Before a := by
  unfold Before
  rw [Date.ext_iff]
  omega

end Date

/-! ### Counting the days

The year is taken to begin in March, so that the day of a leap year is its last. -/

/-- The days before the first of March of the year, from that of the year 0. -/
def yearStart (y : Int) : Int := 365 * y + y / 4 - y / 100 + y / 400

/-- The days of the year before the month that is `mp` months after March. -/
def monthStart (mp : Int) : Int := (153 * mp + 2) / 5

/-- The days from the beginning of 1970 to the day of the month. -/
def dayCount (year : Int) (month : Nat) (day : Int) : Int :=
  if month ≤ 2 then yearStart (year - 1) + monthStart (month + 9) + day - 719469
  else yearStart year + monthStart (month - 3) + day - 719469

def Date.count (a : Date) : Int := dayCount a.year a.month a.day

/-- A leap year has one day more. -/
theorem yearStart_eq (year : Int) :
    yearStart year = yearStart (year - 1) + 337 + monthLength year 2 := by
  have february : (monthLength year 2 : Int) = if isLeap year then 29 else 28 := by
    show ((if isLeap year then 29 else 28 : Nat) : Int) = _
    split <;> rfl
  have four : year / 4 = (year - 1) / 4 + if year % 4 = 0 then 1 else 0 := by split <;> omega
  have hundred : year / 100 = (year - 1) / 100 + if year % 100 = 0 then 1 else 0 := by
    split <;> omega
  have fourHundred : year / 400 = (year - 1) / 400 + if year % 400 = 0 then 1 else 0 := by
    split <;> omega
  -- A year that 400 divides is divided by 100, and one that 100 divides by 4.
  have ofHundred : year % 100 = 0 → year % 4 = 0 := by omega
  have ofFourHundred : year % 400 = 0 → year % 100 = 0 := by omega
  rw [february, yearStart, yearStart, four, hundred, fourHundred]
  by_cases by4 : year % 4 = 0 <;> by_cases by100 : year % 100 = 0 <;>
    by_cases by400 : year % 400 = 0 <;> simp [isLeap, by4, by100, by400] at * <;> omega

/-- A month ends where the next begins. -/
theorem dayCount_month_succ {year : Int} {month : Nat} (low : 1 ≤ month) (high : month < 12) :
    dayCount year (month + 1) 1 = dayCount year month 1 + monthLength year month := by
  have february := yearStart_eq year
  interval_cases month
  case «2» =>
    simp [dayCount, monthStart]
    omega
  all_goals
    simp [dayCount, monthLength, monthStart]
    omega

theorem dayCount_year_succ (year : Int) :
    dayCount (year + 1) 1 1 = dayCount year 12 1 + 31 := by
  simp [dayCount, yearStart, monthStart]
  omega

theorem yearStart_mono {y z : Int} (le : y ≤ z) : yearStart y ≤ yearStart z := by
  unfold yearStart
  omega

theorem dayCount_months_mono {year : Int} {month later : Nat} (low : 1 ≤ month)
    (le : month ≤ later) (high : later ≤ 12) : dayCount year month 1 ≤ dayCount year later 1 := by
  induction later, le using Nat.le_induction with
  | base => exact Int.le_refl _
  | succ m after ih =>
    rw [dayCount_month_succ (by omega) (by omega)]
    have := ih (by omega)
    omega

theorem dayCount_years_mono {year later : Int} (le : year ≤ later) :
    dayCount year 1 1 ≤ dayCount later 1 1 := by
  have := yearStart_mono (show year - 1 ≤ later - 1 by omega)
  simp only [dayCount]
  omega

/-- Days of a month are counted one after the other. -/
theorem dayCount_day (year : Int) (month : Nat) (day : Int) :
    dayCount year month day = dayCount year month 1 + (day - 1) := by
  unfold dayCount
  split <;> omega

namespace Date

variable {a b : Date}

theorem count_eq (a : Date) : a.count = dayCount a.year a.month 1 + (a.day - 1) := dayCount_day ..

/-- Later days have greater numbers. -/
theorem count_lt (before : a.Before b) : a.count < b.count := by
  have low := a.month_pos
  have last := a.day_le
  have end_le := b.month_le
  have first := b.day_pos
  rw [count_eq, count_eq]
  rcases before with years | ⟨year, months | ⟨month, days⟩⟩
  · -- The year of `a` ends before that of `b` begins.
    have ends : dayCount a.year a.month 1 + monthLength a.year a.month ≤
        dayCount (a.year + 1) 1 1 := by
      rw [dayCount_year_succ]
      rcases Nat.lt_or_ge a.month 12 with inYear | december
      · have step := @dayCount_month_succ a.year a.month low inYear
        have mono := @dayCount_months_mono a.year (a.month + 1) 12 (by omega) inYear
            (Nat.le_refl 12)
        omega
      · have december : a.month = 12 := by have := a.month_le; omega
        rw [december]
        exact Int.le_refl _
    have between := dayCount_years_mono (show a.year + 1 ≤ b.year from years)
    have start := @dayCount_months_mono b.year 1 b.month (Nat.le_refl 1) b.month_pos end_le
    omega
  · have step := @dayCount_month_succ a.year a.month low (by omega)
    have mono := @dayCount_months_mono a.year (a.month + 1) b.month (by omega) months end_le
    rw [← year]
    omega
  · rw [← year, ← month]
    omega

theorem count_injective : Function.Injective count := by
  intro a b same
  rcases before_trichotomy a b with before | eq | after
  · exact absurd same (count_lt before).ne
  · exact eq
  · exact absurd same (count_lt after).ne'

theorem count_lt_iff : a.count < b.count ↔ a.Before b := by
  constructor
  · intro less
    rcases before_trichotomy a b with before | rfl | after
    · exact before
    · exact absurd less (Int.lt_irrefl _)
    · exact absurd less (Int.lt_asymm (count_lt after))
  · exact count_lt

end Date

end MailStack.Lib.Calendar
