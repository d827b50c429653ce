import MailStack.Lib.Calendar
import MailStack.Maildir.Folder
import MailStack.Mime.Dates
import MailStack.Queue.Entry
import MailStack.Smtpd.Sink

/-! Day numbers and calendar dates: the two conversions of the source are those of the calendar, and
a date-time that is written is read back. -/

namespace MailStack.Mime

open Lib Calendar Maildir

/-- The source's division of a number that can be negative cuts downwards. -/
theorem floor_tdiv {n k : Int} (pos : 0 < k) :
    (if n ≥ 0 then n else n - (k - 1)).tdiv k = n / k := by
  split
  case isTrue nonneg => exact Int.tdiv_eq_ediv_of_nonneg nonneg
  case isFalse negative =>
    have flipped : n - (k - 1) = -(k - 1 - n) := by omega
    rw [flipped, Int.neg_tdiv, Int.tdiv_eq_ediv_of_nonneg (by omega)]
    have split := Int.emod_add_mul_ediv n k
    have low := Int.emod_nonneg n pos.ne'
    have high := Int.emod_lt_of_pos n pos
    have whole : k - 1 - n = (k - 1 - n % k) + k * -(n / k) := by
      rw [Int.mul_neg]
      omega
    rw [whole, Int.add_mul_ediv_left _ _ pos.ne', Int.ediv_eq_zero_of_lt (by omega) (by omega)]
    omega

theorem tmod_eq_zero {n k : Int} : n.tmod k = 0 ↔ n % k = 0 := by
  rw [← Int.dvd_iff_tmod_eq_zero, ← Int.dvd_iff_emod_eq_zero]

theorem isLeap_eq (year : Int) : isLeap year = Calendar.isLeap year := by
  simp only [isLeap, Calendar.isLeap, ne_eq, tmod_eq_zero]

theorem daysInMonth_eq (year : Int) (month : Nat) :
    daysInMonth year month = monthLength year month := by
  rcases Nat.lt_or_ge 12 month with beyond | inside
  · have none : monthLength year month = 0 := by
      unfold monthLength
      split <;> omega
    rw [none, daysInMonth]
    simp only [List.contains_iff_mem, List.mem_cons, List.not_mem_nil, or_false]
    rw [if_neg, if_neg, if_neg] <;> omega
  · interval_cases month <;> simp [daysInMonth, monthLength, isLeap_eq]

theorem daysFromCivil_eq {year : Int} {month : Nat} (low : 1 ≤ month) (high : month ≤ 12)
    (day : Nat) : daysFromCivil year month day = dayCount year month day := by
  have months : ∀ mp : Int, 0 ≤ mp → (153 * mp + 2).tdiv 5 = monthStart mp := fun mp nonneg =>
    Int.tdiv_eq_ediv_of_nonneg (by omega)
  have years : ∀ y : Int, let era := (if y ≥ 0 then y else y - 399).tdiv 400
      era * 146097 + ((y - era * 400) * 365 + (y - era * 400).tdiv 4 - (y - era * 400).tdiv 100) =
        yearStart y := by
    intro y
    have era : (if y ≥ 0 then y else y - 399).tdiv 400 = y / 400 :=
      floor_tdiv (k := 400) (by decide)
    simp only [era]
    rw [Int.tdiv_eq_ediv_of_nonneg (by omega), Int.tdiv_eq_ediv_of_nonneg (by omega), yearStart]
    omega
  by_cases early : month ≤ 2
  · have later : ¬ month > 2 := by omega
    have year' := years (year - 1)
    simp only [daysFromCivil, dayCount, if_pos early, if_neg later] at year' ⊢
    rw [months _ (by omega), ← year']
    omega
  · have later : month > 2 := by omega
    have year' := years year
    simp only [daysFromCivil, dayCount, if_neg early, if_pos later] at year' ⊢
    rw [months _ (by omega), ← year']
    omega

/-! The conversion to a date takes the day of the era first. -/

/-- The days of the era without its leap days so far. -/
def withoutLeapDays (doe : Int) : Int := doe - doe / 1460 + doe / 36524 - doe / 146096

theorem withoutLeapDays_mono {n m : Int} (low : 0 ≤ n) (le : n ≤ m) (high : m < 146097) :
    withoutLeapDays n ≤ withoutLeapDays m := by
  induction m, le using Int.leInduction with
  | base => exact Int.le_refl _
  | succ m le ih =>
    have step : withoutLeapDays m ≤ withoutLeapDays (m + 1) := by
      unfold withoutLeapDays
      rcases lt_or_ge (m + 1) 146096 with inside | last
      · omega
      · have eq : m = 146095 := by omega
        rw [eq]
        decide
    exact (ih (by omega)).trans step

theorem withoutLeapDays_ends {yoe : Int} (low : 0 ≤ yoe) (high : yoe < 400) :
    365 * yoe ≤ withoutLeapDays (yearStart yoe) ∧
      withoutLeapDays (yearStart (yoe + 1) - 1) < 365 * (yoe + 1) := by
  have all : ∀ yoe : Fin 400, 365 * (yoe : Int) ≤ withoutLeapDays (yearStart yoe) ∧
      withoutLeapDays (yearStart (yoe + 1) - 1) < 365 * ((yoe : Int) + 1) := by
    decide +kernel
  have one := all ⟨yoe.toNat, by omega⟩
  rwa [show ((⟨yoe.toNat, by omega⟩ : Fin 400) : Int) = yoe from Int.toNat_of_nonneg low] at one

theorem yearStart_era (yoe era : Int) :
    yearStart (yoe + era * 400) = yearStart yoe + era * 146097 := by
  unfold yearStart
  omega

/-- Each day of the era is in the year that the source computes for it. -/
theorem yearStart_withoutLeapDays {doe : Int} (low : 0 ≤ doe) (high : doe < 146097) :
    let yoe := withoutLeapDays doe / 365
    0 ≤ yoe ∧ yoe < 400 ∧ yearStart yoe ≤ doe ∧ doe < yearStart (yoe + 1) := by
  intro yoe
  have nonneg : 0 ≤ yoe := by
    have := withoutLeapDays_mono (Int.le_refl 0) low high
    have zero : withoutLeapDays 0 = 0 := by decide
    omega
  have small : yoe < 400 := by
    have := withoutLeapDays_mono low (show doe ≤ 146096 by omega) (by decide)
    have last : withoutLeapDays 146096 = 145999 := by decide
    omega
  have bound : ∀ y : Int, 0 ≤ y → y ≤ 400 → 0 ≤ yearStart y ∧ yearStart y ≤ 146097 := by
    intro y first last
    exact ⟨yearStart_mono first, yearStart_mono last⟩
  have start := bound yoe nonneg (by omega)
  have stop := bound (yoe + 1) (by omega) (by omega)
  refine ⟨nonneg, small, ?_, ?_⟩
  · -- Else the day is not after the last day of the year before.
    by_contra early
    have first : 1 ≤ yoe := by
      by_contra zero
      have eq : yoe = 0 := by omega
      rw [eq] at early
      exact early low
    have last := (withoutLeapDays_ends (show 0 ≤ yoe - 1 by omega) (by omega)).2
    rw [show yoe - 1 + 1 = yoe by omega] at last
    have mono := withoutLeapDays_mono low (show doe ≤ yearStart yoe - 1 by omega) (by omega)
    omega
  · -- Else the day is not before the first day of the year after.
    by_contra late
    have inside : yoe + 1 < 400 := by
      by_contra end_
      have eq : yoe + 1 = 400 := by omega
      rw [eq] at late
      exact late high
    have first := (withoutLeapDays_ends (show 0 ≤ yoe + 1 by omega) inside).1
    have mono := withoutLeapDays_mono stop.1 (show yearStart (yoe + 1) ≤ doe by omega) high
    omega

/-- Each day of the year is in the month that the source computes for it. -/
theorem monthStart_month {doy : Int} (low : 0 ≤ doy) (high : doy < 366) :
    let mp := (5 * doy + 2) / 153
    0 ≤ mp ∧ mp ≤ 11 ∧ monthStart mp ≤ doy ∧ (mp < 11 → doy < monthStart (mp + 1)) := by
  intro mp
  unfold monthStart
  refine ⟨?_, ?_, ?_, fun _ => ?_⟩ <;> omega

/-- The year from March, the month after March and the day that the source computes. -/
theorem civilFromDays_eq (days : Int) : ∃ y mp day : Int,
    civilFromDays days =
      (if mp < 10 then y else y + 1, (if mp < 10 then mp + 3 else mp - 9).toNat, day.toNat) ∧
    0 ≤ mp ∧ mp ≤ 11 ∧ 1 ≤ day ∧ yearStart y + monthStart mp + day - 719469 = days ∧
    (mp < 11 → monthStart mp + day ≤ monthStart (mp + 1)) ∧
    (mp = 11 → day ≤ monthLength (y + 1) 2) := by
  have era : (if days + 719468 ≥ 0 then days + 719468 else days + 719468 - 146096).tdiv 146097 =
      (days + 719468) / 146097 := floor_tdiv (k := 146097) (by decide)
  set z := days + 719468 with hz
  set doe := z - z / 146097 * 146097 with hdoe
  obtain ⟨nonneg, small, start, stop⟩ :=
    yearStart_withoutLeapDays (show 0 ≤ doe by omega) (by omega)
  set yoe := withoutLeapDays doe / 365 with hyoe
  have starts : 365 * yoe + yoe / 4 - yoe / 100 = yearStart yoe := by
    unfold yearStart
    omega
  set y := yoe + z / 146097 * 400 with hy
  have year : yearStart y = yearStart yoe + z / 146097 * 146097 := yearStart_era yoe _
  have after : yearStart (y + 1) = yearStart (yoe + 1) + z / 146097 * 146097 := by
    rw [← yearStart_era, hy]
    congr 1
    omega
  have february := yearStart_eq (y + 1)
  rw [show y + 1 - 1 = y by omega] at february
  have length : monthLength (y + 1) 2 ≤ 29 := by
    unfold monthLength
    simp only
    split <;> omega
  set doy := doe - yearStart yoe with hdoy
  obtain ⟨low, high, first, last⟩ := monthStart_month (show 0 ≤ doy by omega) (by omega)
  set mp := (5 * doy + 2) / 153 with hmp
  refine ⟨y, mp, doy - monthStart mp + 1, ?_, low, high, by omega, by omega, ?_, ?_⟩
  · have computed : civilFromDays days =
        (if (if mp < 10 then mp + 3 else mp - 9).toNat ≤ 2 then y + 1 else y,
          (if mp < 10 then mp + 3 else mp - 9).toNat, (doy - monthStart mp + 1).toNat) := by
      have yoe_eq : (doe - doe / 1460 + doe / 36524 - doe / 146096) / 365 = yoe := rfl
      have month_eq : (153 * mp + 2) / 5 = monthStart mp := rfl
      simp only [civilFromDays, ← hz, era, ← hdoe, yoe_eq, starts, ← hdoy, ← hmp, month_eq, ← hy]
    rw [computed]
    congr 1
    split_ifs <;> omega
  · intro inside
    have := last inside
    omega
  · intro eq
    rw [eq] at first ⊢
    have last : monthStart 11 = 337 := by decide
    omega

/-- What the source computes for a day: a month of the calendar, a day in it, and the number that
this date has. -/
theorem civilFromDays_spec (days : Int) :
    let date := civilFromDays days
    1 ≤ date.2.1 ∧ date.2.1 ≤ 12 ∧ 1 ≤ date.2.2 ∧ date.2.2 ≤ monthLength date.1 date.2.1 ∧
      dayCount date.1 date.2.1 date.2.2 = days := by
  obtain ⟨y, mp, day, computed, low, high, first, count, inside, february⟩ := civilFromDays_eq days
  have nat : ((day.toNat : Nat) : Int) = day := by omega
  simp only [computed]
  rw [nat]
  refine ⟨by split <;> omega, by split <;> omega, by omega, ?_, ?_⟩
  · rcases high.lt_or_eq with before | last
    · have ends := inside before
      interval_cases mp <;> simp [monthStart, monthLength] at ends ⊢ <;> omega
    · subst last
      have := february rfl
      show day.toNat ≤ monthLength (y + 1) 2
      omega
  · by_cases early : mp < 10
    · simp only [if_pos early, dayCount]
      rw [if_neg (by omega), show (((mp + 3).toNat : Nat) : Int) - 3 = mp by omega]
      exact count
    · simp only [if_neg early, dayCount]
      rw [if_pos (by omega), show (((mp - 9).toNat : Nat) : Int) + 9 = mp by omega,
        show y + 1 - 1 = y by omega]
      exact count

/-- The date of a day. -/
def civilDate (days : Int) : Date where
  year := (civilFromDays days).1
  month := (civilFromDays days).2.1
  day := (civilFromDays days).2.2
  month_pos := (civilFromDays_spec days).1
  month_le := (civilFromDays_spec days).2.1
  day_pos := (civilFromDays_spec days).2.2.1
  day_le := (civilFromDays_spec days).2.2.2.1

@[simp] theorem count_civilDate (days : Int) : (civilDate days).count = days :=
  (civilFromDays_spec days).2.2.2.2

theorem civilDate_count (date : Date) : civilDate date.count = date :=
  Date.count_injective (count_civilDate _)

theorem before_civilDate {earlier later : Int} (less : earlier < later) :
    (civilDate earlier).Before (civilDate later) := by
  rwa [← Date.count_lt_iff, count_civilDate, count_civilDate]

theorem daysFromCivil_date (date : Date) :
    daysFromCivil date.year date.month date.day = date.count :=
  daysFromCivil_eq date.month_pos date.month_le date.day

theorem civilFromDays_smtpd (days : Int) : Smtpd.civilFromDays days = civilFromDays days := rfl

def invalidDate (value : String) : MailError := .invalid ("invalid date: " ++ Queue.debugText value)

def invalidDateTime (value : String) : MailError :=
  .invalid ("invalid date-time: " ++ Queue.debugText value)

def invalidZone (zone : String) : MailError :=
  .invalid ("invalid date-time zone: " ++ Queue.debugText zone)

def split (c : Char) (s : String) : List String := (s.toList.splitOn c).map String.ofList

def parseDateOnly (value : String) : Except MailError Int := do
  let parts := split '-' (trim value)
  let some day := parts[0]?.bind fun part => parseUnsigned u32Max (trim part)
    | .error (invalidDate value)
  let some month := parts[1]?.bind monthNumber | .error (invalidDate value)
  let some year := parts[2]?.bind fun part => parseI64 (trim part)
    | .error (invalidDate value)
  if parts[3]?.isSome then .error (invalidDate value)
  else if isValidDate year month day then .ok (daysFromCivil year month day)
  else .error (invalidDate value)

def parseDateTime (value : String) : Except MailError Int := do
  let fields := splitWhitespace (trim (trimMatches '"' (trim value)))
  let some dateField := fields[0]? | .error (invalidDateTime value)
  let days ← parseDateOnly dateField
  let some timeField := fields[1]? | .error (invalidDateTime value)
  let clock := split ':' timeField
  let some hour := clock[0]?.bind parseI64 | .error (invalidDateTime value)
  let some minute := clock[1]?.bind parseI64 | .error (invalidDateTime value)
  let some second := clock[2]?.bind parseI64 | .error (invalidDateTime value)
  if !(0 ≤ hour && hour < 24) || !(0 ≤ minute && minute < 60) || !(0 ≤ second && second ≤ 60) then
    .error (invalidDateTime value)
  else
    let offset ← match fields[2]? with
      | some zone =>
        match parseZone zone with
        | some offset => .ok offset
        | none => .error (invalidZone zone)
      | none => .ok 0
    if fields[3]?.isSome then .error (invalidDateTime value)
    else .ok (days * 86400 + hour * 3600 + minute * 60 + second - offset)

example : parseDateTime "\"23-Oct-2026 14:30:00 +0800\"" = .ok 1792737000 := by decide

example : parseDateOnly "29-Feb-2025" = .error (invalidDate "29-Feb-2025") := by decide

structure IsDigits (s : String) : Prop where
  some : s.toList ≠ []
  inside : ∀ c ∈ s.toList, c.isDigit = true

theorem toList_zeroPadded (width n : Nat) : (zeroPadded width n).toList =
    List.replicate (width - (toString n).length) '0' ++ (toString n).toList := by
  have nonneg : ¬ ((n : Int) < 0) := by omega
  simp [zeroPadded, nonneg]

theorem isDigits_zeroPadded (width n : Nat) : IsDigits (zeroPadded width n) := by
  constructor
  · rw [toList_zeroPadded]
    simp
  · intro c mem
    rw [toList_zeroPadded] at mem
    rcases List.mem_append.mp mem with zero | digit
    · rw [List.eq_of_mem_replicate zero]
      decide
    · exact isDigit_of_mem_toString digit

variable {s : String} {timestamp : Int} {date : Date}

variable {c : Char}

theorem isDigit_range (digit : c.isDigit = true) : 48 ≤ c.toNat ∧ c.toNat ≤ 57 := by
  simp only [Char.isDigit, Bool.and_eq_true, decide_eq_true_eq, ge_iff_le,
    UInt32.le_iff_toNat_le] at digit
  exact digit

theorem IsDigits.not_mem (digits : IsDigits s) (other : c.isDigit = false) :
    c ∉ s.toList := by
  intro mem
  rw [digits.inside c mem] at other
  cases other

theorem IsDigits.isWord (digits : IsDigits s) : IsWord s where
  some := digits.some
  inside c mem := by
    have range := isDigit_range (digits.inside c mem)
    exact isWhitespace_eq_false (by omega)

theorem IsDigits.trim_eq (digits : IsDigits s) : trim s = s :=
  trim_visible digits.isWord.inside

theorem parseUnsigned_zeroPadded {top n : Nat} (width : Nat) (small : n ≤ top) :
    parseUnsigned top (zeroPadded width n) = some n := by
  have digits := isDigits_zeroPadded width n
  have noSign : (zeroPadded width n).toList.head? ≠ some '+' := fun sign =>
    digits.not_mem (by decide) (List.mem_of_head? sign)
  have zeros : ∀ k,
      (List.replicate k '0').foldl (fun n c => 10 * n + (c.toNat - '0'.toNat)) 0 = 0 := by
    intro k
    induction k with
    | zero => rfl
    | succ k ih => rw [List.replicate_succ, List.foldl_cons]; exact ih
  have value : (zeroPadded width n).toList.foldl
      (fun n c => 10 * n + (c.toNat - '0'.toNat)) 0 = n := by
    rw [toList_zeroPadded, List.foldl_append, zeros, Nat.toString_eq_repr, Nat.toList_repr]
    exact Nat.ofDigitChars_ten_toDigits
  have inside : (zeroPadded width n).toList.all Char.isDigit = true :=
    List.all_eq_true.mpr digits.inside
  have some : (zeroPadded width n).toList.isEmpty = false := by
    rw [List.isEmpty_eq_false_iff]
    exact digits.some
  simp only [parseUnsigned, if_neg noSign, some, inside, Bool.not_true, Bool.or_self,
    Bool.false_eq_true, if_false, value, if_pos small]

theorem parseI64_zeroPadded {n : Nat} (width : Nat) (small : n ≤ 2 ^ 63 - 1) :
    parseI64 (zeroPadded width n) = some (n : Int) := by
  have noSign : (zeroPadded width n).toList.head? ≠ some '-' := fun sign =>
    (isDigits_zeroPadded width n).not_mem (by decide) (List.mem_of_head? sign)
  rw [parseI64, if_neg noSign, parseUnsigned_zeroPadded width small]
  rfl

theorem split_append {part : String} (absent : c ∉ part.toList) (rest : String) :
    split c (part ++ String.singleton c ++ rest) = part :: split c rest := by
  simp [split, List.splitOn_append_cons_self_of_not_mem absent]

theorem split_eq_singleton (absent : c ∉ s.toList) : split c s = [s] := by
  simp [split, List.splitOn_eq_singleton absent]

theorem monthNumber_months : ∀ month : Fin 12,
    monthNumber (months[month.val]?.getD "Jan") = some (month.val + 1) ∧
      ∀ c ∈ (months[month.val]?.getD "Jan").toList, 65 ≤ c.toNat ∧ c.toNat ≤ 122 := by
  decide

def writtenDate (date : Date) : String :=
  zeroPadded 2 date.day ++ "-" ++ months[date.month - 1]?.getD "Jan" ++ "-" ++
    zeroPadded 4 date.year

def writtenClock (seconds : Int) : String :=
  zeroPadded 2 (seconds / 3600) ++ ":" ++ zeroPadded 2 (seconds % 3600 / 60) ++ ":" ++
    zeroPadded 2 (seconds % 60)

theorem formatDateTime_eq (timestamp : Int) : formatDateTime timestamp =
    sentence (writtenDate (civilDate (timestamp / 86400)))
      [writtenClock (timestamp % 86400), "+0000"] := by
  rw [← String.toList_inj]
  simp [formatDateTime, writtenDate, writtenClock, civilDate]

theorem visible_of_mem_writtenDate {year : Nat} (positive : date.year = year)
    (mem : c ∈ (writtenDate date).toList) : 45 ≤ c.toNat ∧ c.toNat ≤ 122 := by
  have low := date.month_pos
  have high := date.month_le
  have name := (monthNumber_months ⟨date.month - 1, by omega⟩).2 c
  have digit : ∀ width n, c ∈ (zeroPadded width (n : Nat)).toList → 48 ≤ c.toNat ∧ c.toNat ≤ 57 :=
    fun width n inside => isDigit_range ((isDigits_zeroPadded width n).inside c inside)
  have hyphen : "-".toList = ['-'] := rfl
  have code : '-'.toNat = 45 := rfl
  simp only [writtenDate, positive, String.toList_append, List.mem_append, hyphen,
    List.mem_singleton] at mem
  rcases mem with (((day | dash) | month) | dash) | year
  · have := digit 2 _ day
    omega
  · rw [dash]
    omega
  · have := name month
    omega
  · rw [dash]
    omega
  · have := digit 4 _ year
    omega

theorem isWord_of_range {low : Nat} (some : s.toList ≠ []) (above : 33 ≤ low)
    (inside : ∀ c ∈ s.toList, low ≤ c.toNat ∧ c.toNat ≤ 122) : IsWord s where
  some := some
  inside c mem := by
    have := inside c mem
    exact isWhitespace_eq_false (by omega)

theorem parseDateOnly_writtenDate (low : 1 ≤ date.year) (high : date.year ≤ 9999) :
    parseDateOnly (writtenDate date) = .ok date.count := by
  obtain ⟨year, positive⟩ := Int.eq_ofNat_of_zero_le (show 0 ≤ date.year by omega)
  have month_pos := date.month_pos
  have month_le := date.month_le
  obtain ⟨number, name⟩ := monthNumber_months ⟨date.month - 1, by omega⟩
  simp only [show date.month - 1 + 1 = date.month by omega] at number
  have word : IsWord (writtenDate date) :=
    isWord_of_range (by simp [writtenDate]) (by decide : 33 ≤ 45)
      fun c mem => visible_of_mem_writtenDate positive mem
  have noHyphen : '-' ∉ (months[date.month - 1]?.getD "Jan").toList := by
    intro mem
    exact absurd (name '-' mem).1 (by decide)
  have parts : split '-' (writtenDate date) =
      [zeroPadded 2 date.day, months[date.month - 1]?.getD "Jan", zeroPadded 4 year] := by
    have text : writtenDate date = zeroPadded 2 date.day ++ String.singleton '-' ++
        (months[date.month - 1]?.getD "Jan" ++ String.singleton '-' ++ zeroPadded 4 year) := by
      rw [← String.toList_inj]
      simp [writtenDate, positive]
    rw [text, split_append ((isDigits_zeroPadded _ _).not_mem (by decide)), split_append noHyphen,
      split_eq_singleton ((isDigits_zeroPadded _ _).not_mem (by decide))]
  have days : date.day ≤ 31 := by
    have := date.day_le
    have : monthLength date.year date.month ≤ 31 := by
      unfold monthLength
      split <;> (try split) <;> omega
    omega
  have valid : isValidDate year date.month date.day = true := by
    have first := date.day_pos
    have last := date.day_le
    simp only [isValidDate, daysInMonth_eq, ← positive, Bool.and_eq_true, decide_eq_true_eq]
    omega
  have day : parseUnsigned u32Max (zeroPadded 2 date.day) = some date.day :=
    parseUnsigned_zeroPadded 2 (by unfold u32Max; omega)
  have years : parseI64 (zeroPadded 4 year) = some (year : Int) :=
    parseI64_zeroPadded 4 (by omega)
  have count := daysFromCivil_date date
  rw [positive] at count
  simp only [parseDateOnly, trim_visible word.inside, parts, List.getElem?_cons_zero, List.getElem?_cons_succ,
    Option.bind_some, (isDigits_zeroPadded 2 date.day).trim_eq, day, number,
    (isDigits_zeroPadded 4 year).trim_eq, years, valid, count]
  rfl

theorem dropWhile_of_not_mem {cs : List Char} (absent : c ∉ cs) :
    cs.dropWhile (· = c) = cs := by
  cases cs with
  | nil => rfl
  | cons first rest =>
    have other : first ≠ c := fun eq => absurd List.mem_cons_self (eq ▸ absent)
    exact List.dropWhile_cons_of_neg (by simpa using other)

theorem trimMatches_eq_self (absent : c ∉ s.toList) : trimMatches c s = s := by
  rw [trimMatches, dropWhile_of_not_mem absent, dropWhile_of_not_mem (by simpa using absent)]
  simp

theorem parseZone_zero : parseZone "+0000" = some 0 := by decide

theorem split_writtenClock {seconds : Int} (low : 0 ≤ seconds) (high : seconds < 86400) :
    ∃ hour minute second : Nat,
      split ':' (writtenClock seconds) =
        [zeroPadded 2 hour, zeroPadded 2 minute, zeroPadded 2 second] ∧
      hour < 24 ∧ minute < 60 ∧ second < 60 ∧
      (hour : Int) * 3600 + minute * 60 + second = seconds ∧
      ∀ c ∈ (writtenClock seconds).toList, 48 ≤ c.toNat ∧ c.toNat ≤ 122 := by
  obtain ⟨hour, hour_eq⟩ := Int.eq_ofNat_of_zero_le (show 0 ≤ seconds / 3600 by omega)
  obtain ⟨minute, minute_eq⟩ := Int.eq_ofNat_of_zero_le (show 0 ≤ seconds % 3600 / 60 by omega)
  obtain ⟨second, second_eq⟩ := Int.eq_ofNat_of_zero_le (show 0 ≤ seconds % 60 by omega)
  refine ⟨hour, minute, second, ?_, by omega, by omega, by omega, by omega, ?_⟩
  · have text : writtenClock seconds = zeroPadded 2 hour ++ String.singleton ':' ++
        (zeroPadded 2 minute ++ String.singleton ':' ++ zeroPadded 2 second) := by
      rw [← String.toList_inj]
      simp [writtenClock, hour_eq, minute_eq, second_eq]
    rw [text, split_append ((isDigits_zeroPadded _ _).not_mem (by decide)),
      split_append ((isDigits_zeroPadded _ _).not_mem (by decide)),
      split_eq_singleton ((isDigits_zeroPadded _ _).not_mem (by decide))]
  · intro c mem
    have colon : ":".toList = [':'] := rfl
    have code : ':'.toNat = 58 := rfl
    have digit : ∀ width n, c ∈ (zeroPadded width (n : Nat)).toList → 48 ≤ c.toNat ∧ c.toNat ≤ 57 :=
      fun width n inside => isDigit_range ((isDigits_zeroPadded width n).inside c inside)
    simp only [writtenClock, hour_eq, minute_eq, second_eq, String.toList_append, List.mem_append,
      colon, List.mem_singleton] at mem
    rcases mem with (((digits | rfl) | digits) | rfl) | digits
    · have := digit 2 _ digits
      omega
    · omega
    · have := digit 2 _ digits
      omega
    · omega
    · have := digit 2 _ digits
      omega

theorem fields_formatDateTime (low : 1 ≤ (civilDate (timestamp / 86400)).year) :
    splitWhitespace (trim (trimMatches '"' (trim (formatDateTime timestamp)))) =
      [writtenDate (civilDate (timestamp / 86400)), writtenClock (timestamp % 86400), "+0000"] := by
  obtain ⟨year, positive⟩ :=
    Int.eq_ofNat_of_zero_le (show 0 ≤ (civilDate (timestamp / 86400)).year by omega)
  obtain ⟨_, _, _, _, _, _, _, _, clockRange⟩ :=
    split_writtenClock (show 0 ≤ timestamp % 86400 by omega) (by omega)
  have date : IsWord (writtenDate (civilDate (timestamp / 86400))) :=
    isWord_of_range (by simp [writtenDate]) (by decide : 33 ≤ 45)
      fun c mem => visible_of_mem_writtenDate positive mem
  have clock : IsWord (writtenClock (timestamp % 86400)) :=
    isWord_of_range (by simp [writtenClock]) (by decide : 33 ≤ 48) clockRange
  have zone : IsWord "+0000" :=
    isWord_of_range (by decide) (by decide : 33 ≤ 43) (by decide)
  have unquoted : '"' ∉ (trim (formatDateTime timestamp)).toList := by
    intro mem
    have inside := mem_of_mem_trim mem
    have code : '"'.toNat = 34 := rfl
    rw [formatDateTime_eq, sentence_toList] at inside
    simp only [List.flatMap_cons, List.flatMap_nil, List.append_nil, List.mem_append,
      List.mem_cons] at inside
    rcases inside with day | (blank | time) | (blank | offset)
    · have := visible_of_mem_writtenDate positive day
      omega
    · exact absurd blank (by decide)
    · have := clockRange _ time
      omega
    · exact absurd blank (by decide)
    · exact absurd offset (by decide)
  rw [splitWhitespace_trim, trimMatches_eq_self unquoted, splitWhitespace_trim, formatDateTime_eq]
  apply splitWhitespace_sentence date
  intro w mem
  rcases List.mem_cons.mp mem with rfl | mem
  · exact clock
  · rw [List.mem_singleton.mp mem]
    exact zone

/-- A date-time of four digits of the year is read back. -/
theorem parseDateTime_formatDateTime
    (low : 1 ≤ (civilDate (timestamp / 86400)).year)
    (high : (civilDate (timestamp / 86400)).year ≤ 9999) :
    parseDateTime (formatDateTime timestamp) = .ok timestamp := by
  obtain ⟨hour, minute, second, clock, hours, minutes, seconds, sum, _⟩ :=
    split_writtenClock (show 0 ≤ timestamp % 86400 by omega) (by omega)
  have date := parseDateOnly_writtenDate low high
  rw [count_civilDate] at date
  have inside : (!(decide (0 ≤ (hour : Int)) && decide ((hour : Int) < 24)) ||
      !(decide (0 ≤ (minute : Int)) && decide ((minute : Int) < 60)) ||
      !(decide (0 ≤ (second : Int)) && decide ((second : Int) ≤ 60))) = false := by
    simp
    omega
  have parsed : ∀ n : Nat, n < 60 → parseI64 (zeroPadded 2 n) = some (n : Int) := fun n small =>
    parseI64_zeroPadded 2 (by omega)
  have back : timestamp / 86400 * 86400 + hour * 3600 + minute * 60 + second - 0 = timestamp := by
    omega
  unfold parseDateTime
  rw [fields_formatDateTime low]
  simp only [List.getElem?_cons_zero, date, bind, Except.bind]
  simp only [List.getElem?_cons_succ, List.getElem?_cons_zero, clock, Option.bind_some,
    parsed hour (by omega), parsed minute (by omega), parsed second (by omega), inside,
    parseZone_zero, Bool.false_eq_true, if_false, List.getElem?_nil, Option.isSome_none, back]

def Earlier (a b : Int × Nat × Nat) : Prop :=
  a.1 < b.1 ∨ a.1 = b.1 ∧ (a.2.1 < b.2.1 ∨ a.2.1 = b.2.1 ∧ a.2.2 < b.2.2)

/-- A date of the calendar, whatever its year: the source's check without its bounds on the year. -/
def IsCalendarDate (date : Int × Nat × Nat) : Prop :=
  1 ≤ date.2.2 ∧ date.2.2 ≤ daysInMonth date.1 date.2.1

/-- The two conversions are inverse to each other and keep the order of time, a date-time is read
back, and the copy of the conversion in the SMTP server is the same function. -/
theorem dates_round_trip :
    (∀ days, IsCalendarDate (civilFromDays days) ∧
      daysFromCivil (civilFromDays days).1 (civilFromDays days).2.1 (civilFromDays days).2.2 =
        days) ∧
    (∀ date, IsCalendarDate date →
      civilFromDays (daysFromCivil date.1 date.2.1 date.2.2) = date) ∧
    (∀ earlier later, earlier < later → Earlier (civilFromDays earlier) (civilFromDays later)) ∧
    (∀ timestamp, 1 ≤ (civilFromDays (timestamp / 86400)).1 →
      (civilFromDays (timestamp / 86400)).1 ≤ 9999 →
      parseDateTime (formatDateTime timestamp) = .ok timestamp) ∧
    ∀ days, Smtpd.civilFromDays days = civilFromDays days := by
  refine ⟨fun days => ⟨?_, ?_⟩, ?_, ?_, ?_, civilFromDays_smtpd⟩
  · refine ⟨(civilDate days).day_pos, ?_⟩
    rw [daysInMonth_eq]
    exact (civilDate days).day_le
  · exact (daysFromCivil_date (civilDate days)).trans (count_civilDate days)
  · rintro ⟨year, month, day⟩ ⟨day_pos, day_le⟩
    rw [daysInMonth_eq] at day_le
    have range := month_range (day_pos.trans day_le)
    let date : Date := ⟨year, month, day, range.1, range.2, day_pos, day_le⟩
    show civilFromDays (daysFromCivil date.year date.month date.day) = _
    rw [daysFromCivil_date]
    have same := civilDate_count date
    have parts := Date.ext_iff.mp same
    exact Prod.ext parts.1 (Prod.ext parts.2.1 parts.2.2)
  · exact fun earlier later less => before_civilDate less
  · exact fun timestamp low high => parseDateTime_formatDateTime low high

end MailStack.Mime
