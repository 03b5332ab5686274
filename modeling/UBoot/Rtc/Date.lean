import UBoot.Library.Gregorian

/-!
rtc/date.c: to_tm, GregorianDay and mktime. A long has 32 bits; the month table is passed on.
-/

namespace UBoot.Rtc.Date

open Library.Gregorian

structure RtcTime where
  tmSec : Int
  tmMin : Int
  tmHour : Int
  tmMday : Int
  tmMon : Int
  tmYear : Int
  tmWday : Int
  tmYday : Int
  tmIsdst : Int
deriving DecidableEq, Repr

def startoftime : Int := 1970
def secday : Int := 86400

def leapyear (year : Int) : Prop := year.tmod 4 = 0

instance (year : Int) : Decidable (leapyear year) := inferInstanceAs (Decidable (_ = _))

def daysInYear (year : Int) : Int := if leapyear year then 366 else 365

def monthDays : List Int := [31, 28, 31, 30, 31, 30, 31, 31, 30, 31, 30, 31]

def monthOffsets : List Int := [0, 31, 59, 90, 120, 151, 181, 212, 243, 273, 304, 334]

/-- No result for a month that the table does not have. -/
def gregorianDay (tm : RtcTime) : Option RtcTime :=
  let lastYear := tm.tmYear - 1
  let leapsToDate := lastYear.tdiv 4 - lastYear.tdiv 100 + lastYear.tdiv 400
  let day : Int :=
    -- past February 29 in a leap year
    if tm.tmYear.tmod 4 = 0 ∧ (tm.tmYear.tmod 100 ≠ 0 ∨ tm.tmYear.tmod 400 = 0) ∧ tm.tmMon > 2 then 1 else 0
  if tm.tmMon < 1 then none
  else (monthOffsets[(tm.tmMon - 1).toNat]?).map fun monthOffset =>
    { tm with tmWday := (day + (lastYear * 365 + leapsToDate + monthOffset + tm.tmMday)).tmod 7 }

theorem days_in_year_positive (year : Int) : 365 ≤ daysInYear year := by
  rw [daysInYear]
  split
  · decide
  · decide

/-- The days that are left, and the year. -/
def yearLoop (day i : Int) : Int × Int :=
  if day ≥ daysInYear i then yearLoop (day - daysInYear i) (i + 1) else (day, i)
termination_by day.toNat
decreasing_by
  have := days_in_year_positive i
  omega

/-- The table from the month `i` on; no result behind its end. -/
def monthLoop : List Int → (day i : Int) → Option (Int × Int)
  | [], _, _ => none
  | daysInMonth :: rest, day, i =>
      if day ≥ daysInMonth then monthLoop rest (day - daysInMonth) (i + 1) else some (day, i)

/-- The time, and the month table behind the call. -/
def toTm (monthDays : List Int) (tim : Int) (tm : RtcTime) : Option (RtcTime × List Int) :=
  let day := tim.tdiv secday
  let hms := tim.tmod secday
  let tm := { tm with
    tmHour := hms.tdiv 3600
    tmMin := (hms.tmod 3600).tdiv 60
    tmSec := (hms.tmod 3600).tmod 60 }
  let years := yearLoop day startoftime
  let tm := { tm with tmYear := years.2 }
  let monthDays := if leapyear tm.tmYear then monthDays.set 1 29 else monthDays
  (monthLoop monthDays years.1 1).bind fun months =>
    let monthDays := monthDays.set 1 28
    let tm := { tm with tmMon := months.2, tmMday := months.1 + 1 }
    (gregorianDay tm).map fun tm => (tm, monthDays)

def mktime (year mon day hour min sec : BitVec 32) : BitVec 32 :=
  let mon := mon - 2
  -- February is last, since it has the leap day
  let year := if 0 ≥ mon.toInt then year - 1 else year
  let mon := if 0 ≥ mon.toInt then mon + 12 else mon
  (((year / 4 - year / 100 + year / 400 + 367 * mon / 12 + day + year * 365 - 719499) * 24 + hour) * 60
    + min) * 60 + sec

/-! ### Moments -/

structure Moment extends Date where
  hour : Nat
  min : Nat
  sec : Nat
  hour_range : hour < 24
  min_range : min < 60
  sec_range : sec < 60

/-- The first of January 1970 was a Thursday; Sunday is 0. -/
def weekday (date : Date) : Nat := (date.dayNumber 1970 + 4) % 7

/-- The seconds since 1970. -/
def Moment.seconds (moment : Moment) : Nat :=
  ((moment.dayNumber 1970 * 24 + moment.hour) * 60 + moment.min) * 60 + moment.sec

def Moment.fields (moment : Moment) : List Nat :=
  [moment.year, moment.month, moment.day, moment.hour, moment.min, moment.sec]

def Moment.NotAfter (moment : Moment) (fields : List Nat) : Prop :=
  moment.fields = fields ∨ List.Lex (· < ·) moment.fields fields

/-- A time with the fields of a moment. -/
def RtcTime.showing (tm : RtcTime) (moment : Moment) : RtcTime :=
  { tm with
    tmSec := moment.sec, tmMin := moment.min, tmHour := moment.hour
    tmMday := moment.day, tmMon := moment.month, tmYear := moment.year
    tmWday := weekday moment.toDate }

/-- The fields as arguments of mktime. -/
def RtcTime.mktime (tm : RtcTime) : BitVec 32 :=
  Date.mktime (BitVec.ofInt 32 tm.tmYear) (BitVec.ofInt 32 tm.tmMon) (BitVec.ofInt 32 tm.tmMday)
    (BitVec.ofInt 32 tm.tmHour) (BitVec.ofInt 32 tm.tmMin) (BitVec.ofInt 32 tm.tmSec)

/-! ### mktime -/

theorem word_div {number divisor : Nat} (small : number < 2 ^ 32) (divisor_small : divisor < 2 ^ 32) :
    BitVec.ofNat 32 number / BitVec.ofNat 32 divisor = BitVec.ofNat 32 (number / divisor) := by
  apply BitVec.eq_of_toNat_eq
  rw [BitVec.toNat_udiv, BitVec.toNat_ofNat, BitVec.toNat_ofNat, BitVec.toNat_ofNat, Nat.mod_eq_of_lt small,
    Nat.mod_eq_of_lt divisor_small, Nat.mod_eq_of_lt (Nat.lt_of_le_of_lt (Nat.div_le_self _ _) small)]

theorem word_sub {left right : Nat} (le : right ≤ left) :
    BitVec.ofNat 32 left - BitVec.ofNat 32 right = BitVec.ofNat 32 (left - right) := by
  rw [BitVec.sub_eq_iff_eq_add, ← BitVec.ofNat_add, Nat.sub_add_cancel le]

/-- The days as mktime counts them, from a year that begins in March. -/
theorem gauss_days {year mon day days : Nat} (year_small : year < 2 ^ 32) (mon_small : mon ≤ 12)
    (count : leapsTo year + 367 * mon / 12 + day + year * 365 = days + 719499) :
    BitVec.ofNat 32 year / 4 - BitVec.ofNat 32 year / 100 + BitVec.ofNat 32 year / 400
        + 367 * BitVec.ofNat 32 mon / 12 + BitVec.ofNat 32 day + BitVec.ofNat 32 year * 365 - 719499 =
      BitVec.ofNat 32 days := by
  have four : BitVec.ofNat 32 year / 4 = BitVec.ofNat 32 (year / 4) := word_div year_small (by decide)
  have hundred : BitVec.ofNat 32 year / 100 = BitVec.ofNat 32 (year / 100) := word_div year_small (by decide)
  have long : BitVec.ofNat 32 year / 400 = BitVec.ofNat 32 (year / 400) := word_div year_small (by decide)
  have months : 367 * BitVec.ofNat 32 mon / 12 = BitVec.ofNat 32 (367 * mon / 12) := by
    rw [← word_div (by omega) (by decide), BitVec.ofNat_mul]
    rfl
  have whole : BitVec.ofNat 32 (year * 365) = BitVec.ofNat 32 year * 365 := BitVec.ofNat_mul _ _
  rw [four, hundred, long, months, ← whole, word_sub (by omega), ← BitVec.ofNat_add, ← BitVec.ofNat_add,
    ← BitVec.ofNat_add, ← BitVec.ofNat_add, ← leapsTo, count, BitVec.ofNat_add]
  exact BitVec.add_sub_cancel _ _

theorem days_since_1970 (count : Nat) :
    daysOfYears 1970 count + 477 = 365 * count + leapsTo (1969 + count) :=
  days_of_years_closed 1969 count

theorem day_number_closed {date : Date} (since : 1970 ≤ date.year) :
    date.dayNumber 1970 + 719163 =
      (date.year - 1) * 365 + leapsTo (date.year - 1) + daysOfMonths date.year (date.month - 1) + date.day := by
  have closed := days_since_1970 (date.year - 1970)
  have last : 1969 + (date.year - 1970) = date.year - 1 := by omega
  have one := date.day_range.1
  rw [last] at closed
  rw [Date.dayNumber]
  omega

theorem leaps_year {year : Nat} (positive : 0 < year) :
    leapsTo year = leapsTo (year - 1) + if leap year then 1 else 0 := by
  have step := leaps_step (year - 1)
  rwa [Nat.sub_add_cancel positive] at step

/-- January and February belong to the year before. -/
theorem winter_count {date : Date} (since : 1970 ≤ date.year) (winter : date.month ≤ 2) :
    leapsTo (date.year - 1) + 367 * (date.month + 10) / 12 + date.day + (date.year - 1) * 365 =
      date.dayNumber 1970 + 719499 := by
  have closed := day_number_closed since
  have first := date.month_range.1
  have months : 367 * (date.month + 10) / 12 = daysOfMonths date.year (date.month - 1) + 336 := by
    generalize date.month = month at *
    interval_cases month
    · simp [daysOfMonths]
    · simp [daysOfMonths, monthLengths]
  omega

theorem summer_count {date : Date} (since : 1970 ≤ date.year) (summer : 3 ≤ date.month) :
    leapsTo date.year + 367 * (date.month - 2) / 12 + date.day + date.year * 365 =
      date.dayNumber 1970 + 719499 := by
  have closed := day_number_closed since
  have last := date.month_range.2
  have step := leaps_year (show 0 < date.year by omega)
  have months : 367 * (date.month - 2) / 12 + 29 + (if leap date.year then 1 else 0) =
      daysOfMonths date.year (date.month - 1) := by
    generalize date.month = month at *
    by_cases long : leap date.year
    · interval_cases month <;> simp [daysOfMonths, monthLengths, long]
    · interval_cases month <;> simp [daysOfMonths, monthLengths, long]
  omega

/-- What mktime makes of the month. -/
theorem shifted_month {month : Nat} (first : 1 ≤ month) (last : month ≤ 12) :
    (0 ≥ (BitVec.ofNat 32 month - 2).toInt ∧ month ≤ 2 ∧
      BitVec.ofNat 32 month - 2 + 12 = BitVec.ofNat 32 (month + 10)) ∨
    (¬ 0 ≥ (BitVec.ofNat 32 month - 2).toInt ∧ 3 ≤ month ∧
      BitVec.ofNat 32 month - 2 = BitVec.ofNat 32 (month - 2)) := by
  interval_cases month <;> decide

theorem mktime_days (date : Date) (since : 1970 ≤ date.year) (small : date.year < 2 ^ 32) :
    (let mon := BitVec.ofNat 32 date.month - 2
      let year := if 0 ≥ mon.toInt then BitVec.ofNat 32 date.year - 1 else BitVec.ofNat 32 date.year
      let mon := if 0 ≥ mon.toInt then mon + 12 else mon
      year / 4 - year / 100 + year / 400 + 367 * mon / 12 + BitVec.ofNat 32 date.day + year * 365 - 719499) =
    BitVec.ofNat 32 (date.dayNumber 1970) := by
  obtain ⟨first, last⟩ := date.month_range
  rcases shifted_month first last with ⟨front, winter, shifted⟩ | ⟨behind, summer, shifted⟩
  · have before : BitVec.ofNat 32 date.year - 1 = BitVec.ofNat 32 (date.year - 1) :=
      word_sub (show 1 ≤ date.year by omega)
    simp only [if_pos front]
    rw [before, shifted]
    exact gauss_days (by omega) (by omega) (winter_count since winter)
  · simp only [if_neg behind]
    rw [shifted]
    exact gauss_days small (by omega) (summer_count since summer)

theorem mktime_seconds {moment : Moment} (since : 1970 ≤ moment.year) (small : moment.year < 2 ^ 32) :
    mktime (BitVec.ofNat 32 moment.year) (BitVec.ofNat 32 moment.month) (BitVec.ofNat 32 moment.day)
        (BitVec.ofNat 32 moment.hour) (BitVec.ofNat 32 moment.min) (BitVec.ofNat 32 moment.sec) =
      BitVec.ofNat 32 moment.seconds := by
  have days := mktime_days moment.toDate since small
  rw [Moment.seconds, BitVec.ofNat_add, BitVec.ofNat_mul, BitVec.ofNat_add, BitVec.ofNat_mul, BitVec.ofNat_add,
    BitVec.ofNat_mul, ← days]
  rfl

/-! ### to_tm -/

theorem tdiv_cast (left right : Nat) : (left : Int).tdiv (right : Int) = ((left / right : Nat) : Int) := rfl

theorem tmod_cast (left right : Nat) : (left : Int).tmod (right : Int) = ((left % right : Nat) : Int) := rfl

/-- Every fourth year is a leap year in these years. -/
theorem leapyear_iff {year : Nat} (since : 1970 ≤ year) (before : year < 2100) :
    leapyear (year : Int) ↔ leap year := by
  have fourth : (year : Int).tmod 4 = ((year % 4 : Nat) : Int) := tmod_cast year 4
  rw [leapyear, leap, fourth]
  omega

theorem days_in_year {year : Nat} (since : 1970 ≤ year) (before : year < 2100) :
    daysInYear (year : Int) = (yearLength year : Int) := by
  rw [daysInYear, yearLength]
  simp only [leapyear_iff since before]
  split
  · rfl
  · rfl

/-- The loop over the years, from the year `1970 + count` on. -/
theorem year_loop {days : Nat} (small : days < daysOfYears 1970 130) (rest : Nat) {count : Nat}
    (left : count + rest = 130) (passed : daysOfYears 1970 count ≤ days) :
    ∃ years < 130, daysOfYears 1970 years ≤ days ∧ days < daysOfYears 1970 (years + 1) ∧
      yearLoop ((days - daysOfYears 1970 count : Nat) : Int) ((1970 + count : Nat) : Int) =
        (((days - daysOfYears 1970 years : Nat) : Int), ((1970 + years : Nat) : Int)) := by
  induction rest generalizing count with
  | zero =>
      have over_end : count = 130 := by omega
      subst over_end
      omega
  | succ rest ih =>
      have length := days_in_year (show 1970 ≤ 1970 + count by omega) (by omega)
      rw [yearLoop, length]
      by_cases further : daysOfYears 1970 (count + 1) ≤ days
      · have next := ih (show count + 1 + rest = 130 by omega) further
        rw [daysOfYears] at further
        rw [if_pos (by omega)]
        have day : (((days - daysOfYears 1970 count : Nat) : Int) - (yearLength (1970 + count) : Int)) =
            ((days - daysOfYears 1970 (count + 1) : Nat) : Int) := by
          rw [daysOfYears]
          omega
        rw [day]
        exact next
      · refine ⟨count, by omega, passed, Nat.not_le.mp further, ?_⟩
        rw [daysOfYears] at further
        rw [if_neg (by omega)]

/-- The loop over the months, with the lengths of the months from `i` on. -/
theorem month_loop (lengths : List Nat) {day : Nat} (within : day < lengths.sum) (i : Nat) :
    ∃ count < lengths.length, (lengths.take count).sum ≤ day ∧ day < (lengths.take (count + 1)).sum ∧
      monthLoop (lengths.map Int.ofNat) (day : Int) (i : Int) =
        some (((day - (lengths.take count).sum : Nat) : Int), ((i + count : Nat) : Int)) := by
  induction lengths generalizing day i with
  | nil => exact absurd within (Nat.not_lt_zero day)
  | cons length rest ih =>
      rw [List.map_cons, monthLoop, Int.ofNat_eq_natCast]
      by_cases further : length ≤ day
      · rw [if_pos (by omega)]
        rw [List.sum_cons] at within
        obtain ⟨count, bound, passed, before, result⟩ := ih (show day - length < rest.sum by omega) (i + 1)
        refine ⟨count + 1, Nat.succ_lt_succ bound, ?_, ?_, ?_⟩
        · rw [List.take_succ_cons, List.sum_cons]
          omega
        · rw [List.take_succ_cons, List.sum_cons]
          omega
        · rw [List.take_succ_cons, List.sum_cons, ← Nat.sub_sub, ← Nat.add_assoc, Nat.add_right_comm i count 1,
            ← result, Nat.cast_sub further, Nat.cast_add, Nat.cast_one]
      · rw [if_neg (by omega)]
        exact ⟨0, Nat.succ_pos _, Nat.zero_le _, by simpa using further, by simp⟩

/-- The offset of the month, and February 29 where it has passed. -/
theorem month_offset (date : Date) :
    ∃ offset : Nat, monthOffsets[date.month - 1]? = some (offset : Int) ∧
      daysOfMonths date.year (date.month - 1) =
        offset + if leap date.year ∧ 2 < date.month then 1 else 0 := by
  obtain ⟨first, last⟩ := date.month_range
  generalize date.month = month at *
  by_cases long : leap date.year
  · interval_cases month <;> exact ⟨_, rfl, by simp [daysOfMonths, monthLengths, long]⟩
  · interval_cases month <;> exact ⟨_, rfl, by simp [daysOfMonths, monthLengths, long]⟩

theorem past_february (year month : Nat) :
    (year : Int).tmod 4 = 0 ∧ ((year : Int).tmod 100 ≠ 0 ∨ (year : Int).tmod 400 = 0) ∧ (month : Int) > 2 ↔
      leap year ∧ 2 < month := by
  have four : (year : Int).tmod 4 = ((year % 4 : Nat) : Int) := tmod_cast year 4
  have hundred : (year : Int).tmod 100 = ((year % 100 : Nat) : Int) := tmod_cast year 100
  have long : (year : Int).tmod 400 = ((year % 400 : Nat) : Int) := tmod_cast year 400
  rw [four, hundred, long, leap]
  omega

theorem leaps_to_date (year : Nat) :
    (year : Int).tdiv 4 - (year : Int).tdiv 100 + (year : Int).tdiv 400 = (leapsTo year : Int) := by
  have four : (year : Int).tdiv 4 = ((year / 4 : Nat) : Int) := tdiv_cast year 4
  have hundred : (year : Int).tdiv 100 = ((year / 100 : Nat) : Int) := tdiv_cast year 100
  have long : (year : Int).tdiv 400 = ((year / 400 : Nat) : Int) := tdiv_cast year 400
  rw [four, hundred, long, leapsTo]
  omega

theorem gregorian_day (date : Date) (since : 1970 ≤ date.year) {tm : RtcTime}
    (year : tm.tmYear = date.year) (mon : tm.tmMon = date.month) (mday : tm.tmMday = date.day) :
    gregorianDay tm = some { tm with tmWday := weekday date } := by
  obtain ⟨offset, found, passed⟩ := month_offset date
  have closed := day_number_closed since
  have first := date.month_range.1
  have index : ((date.month : Int) - 1).toNat = date.month - 1 := by omega
  have last : (date.year : Int) - 1 = ((date.year - 1 : Nat) : Int) := by omega
  have total : (if leap date.year ∧ 2 < date.month then (1 : Int) else 0)
      + (((date.year - 1 : Nat) : Int) * 365 + (leapsTo (date.year - 1) : Int) + (offset : Int) + (date.day : Int)) =
      ((date.dayNumber 1970 + 719163 : Nat) : Int) := by
    rw [closed, passed]
    split
    · push_cast
      omega
    · push_cast
      omega
  have week : ((date.dayNumber 1970 + 719163 : Nat) : Int).tmod 7 = (weekday date : Int) := by
    have seven : ((date.dayNumber 1970 + 719163 : Nat) : Int).tmod 7 =
        (((date.dayNumber 1970 + 719163) % 7 : Nat) : Int) := tmod_cast _ 7
    rw [weekday]
    omega
  simp only [gregorianDay, year, mon, mday, index, found, last, leaps_to_date, past_february, Option.map_some]
  rw [if_neg (by omega), total, week]

theorem month_table {year : Nat} (since : 1970 ≤ year) (before : year < 2100) :
    (if leapyear (year : Int) then monthDays.set 1 29 else monthDays) = (monthLengths year).map Int.ofNat := by
  by_cases long : leap year
  · rw [if_pos ((leapyear_iff since before).mpr long)]
    simp [monthDays, monthLengths, long]
  · rw [if_neg (fun there => long ((leapyear_iff since before).mp there))]
    simp [monthDays, monthLengths, long]

/-- The month table is as it was, leap year or not. -/
theorem table_restored (year : Nat) : ((monthLengths year).map Int.ofNat).set 1 28 = monthDays := rfl

/-- The date that the loops of to_tm find. -/
theorem date_found {days : Nat} (small : days < daysOfYears 1970 130) :
    ∃ date : Date, 1970 ≤ date.year ∧ date.year < 2100 ∧ date.dayNumber 1970 = days ∧
      ∃ left : Int, yearLoop (days : Int) 1970 = (left, (date.year : Int)) ∧
        monthLoop ((monthLengths date.year).map Int.ofNat) left 1 =
          some (((date.day - 1 : Nat) : Int), (date.month : Int)) := by
  obtain ⟨years, few, year_passed, year_before, year_result⟩ := @year_loop days small 130 0 rfl (Nat.zero_le _)
  have in_year : days - daysOfYears 1970 years < (monthLengths (1970 + years)).sum := by
    have fill := months_fill_year (1970 + years)
    rw [daysOfMonths, List.take_of_length_le (Nat.le_refl 12)] at fill
    rw [daysOfYears] at year_before
    omega
  obtain ⟨count, bound, month_passed, month_before, month_result⟩ := month_loop _ in_year 1
  have step := @days_of_months_step (1970 + years) count bound
  rw [daysOfMonths, daysOfMonths] at step
  have twelve : count < 12 := bound
  obtain ⟨date, year, month, day⟩ : ∃ date : Date, date.year = 1970 + years ∧ date.month = 1 + count ∧
      date.day = days - daysOfYears 1970 years - ((monthLengths (1970 + years)).take count).sum + 1 := by
    refine ⟨⟨_, 1 + count, _, by omega, Nat.succ_pos _, ?_⟩, rfl, rfl, rfl⟩
    rw [Nat.add_sub_cancel_left]
    omega
  refine ⟨date, by omega, by omega, ?_, ((days - daysOfYears 1970 years : Nat) : Int), ?_, ?_⟩
  · rw [Date.dayNumber, year, month, day, Nat.add_sub_cancel_left, Nat.add_sub_cancel_left, daysOfMonths]
    omega
  · rw [year]
    exact year_result
  · rw [year, month, day]
    exact month_result

theorem many_days : daysOfYears 1970 130 = 47482 := by
  have closed := days_since_1970 130
  rwa [show 365 * 130 + leapsTo (1969 + 130) = 47482 + 477 by decide, Nat.add_right_cancel_iff] at closed

theorem to_tm_shows {time : Nat} (small : time < 2 ^ 31) (tm : RtcTime) :
    ∃ moment : Moment, 1970 ≤ moment.year ∧ moment.year < 2100 ∧ moment.seconds = time ∧
      toTm monthDays (time : Int) tm = some (tm.showing moment, monthDays) := by
  obtain ⟨date, since, before, number, left, years, months⟩ :=
    @date_found (time / 86400) (by rw [many_days]; omega)
  refine ⟨⟨date, time % 86400 / 3600, time % 86400 % 3600 / 60, time % 86400 % 3600 % 60, by omega, by omega,
    by omega⟩, since, before, ?_, ?_⟩
  · simp only [Moment.seconds, number]
    omega
  · have day : (time : Int).tdiv secday = ((time / 86400 : Nat) : Int) := rfl
    have hms : (time : Int).tmod secday = ((time % 86400 : Nat) : Int) := rfl
    rw [toTm]
    simp only [day, hms, startoftime, years, month_table since before, months, Option.bind_some, table_restored]
    rw [gregorian_day date since rfl rfl (by have := date.day_range.1; simp only; omega)]
    have mday : ((date.day - 1 : Nat) : Int) + 1 = (date.day : Int) := by
      have := date.day_range.1
      omega
    rw [mday]
    rfl

theorem seconds_injective {left right : Moment} (left_since : 1970 ≤ left.year) (right_since : 1970 ≤ right.year)
    (same : left.seconds = right.seconds) : left = right := by
  obtain ⟨left_date, left_hour, left_min, left_sec, left_hours, left_mins, left_secs⟩ := left
  obtain ⟨right_date, right_hour, right_min, right_sec, right_hours, right_mins, right_secs⟩ := right
  simp only [Moment.seconds] at same
  have dates : left_date = right_date := day_number_injective left_since right_since (by omega)
  subst dates
  have hours : left_hour = right_hour := by omega
  have mins : left_min = right_min := by omega
  have secs : left_sec = right_sec := by omega
  subst hours mins secs
  rfl

theorem showing_mktime (tm : RtcTime) {moment : Moment} (since : 1970 ≤ moment.year) (small : moment.year < 2 ^ 32) :
    (tm.showing moment).mktime = BitVec.ofNat 32 moment.seconds := by
  rw [← mktime_seconds since small]
  simp only [RtcTime.mktime, RtcTime.showing, BitVec.ofInt_natCast]

/-- The last moment before the time turns negative is 2038-01-19 03:14:07. -/
theorem seconds_small {moment : Moment} (since : 1970 ≤ moment.year)
    (early : moment.NotAfter [2038, 1, 19, 3, 14, 7]) : moment.seconds < 2 ^ 31 := by
  have closed := day_number_closed since
  have within := day_in_year moment.toDate
  have month := moment.month_range.1
  have := moment.hour_range
  have := moment.min_range
  have := moment.sec_range
  simp only [Moment.NotAfter, Moment.fields, List.cons_lex_cons_iff, List.not_lex_nil, List.cons.injEq,
    and_true, and_false, or_false] at early
  rw [Moment.seconds]
  by_cases last : moment.year < 2038
  · have leaps : 365 * (moment.year - 1) + leapsTo (moment.year - 1) ≤ 743634 := by
      rw [leapsTo]
      omega
    have long : yearLength moment.year ≤ 366 := by
      rw [yearLength]
      split
      · exact Nat.le_refl 366
      · decide
    omega
  · have year : moment.year = 2038 := by omega
    have january : moment.month = 1 := by omega
    have leaps : leapsTo (moment.year - 1) = 494 := by rw [year]; decide
    have none_before : daysOfMonths moment.year (moment.month - 1) = 0 := by rw [january]; rfl
    omega

/-- to_tm and mktime are inverse to each other, and the month table is as it was. -/
theorem to_tm_mktime :
    (∀ tim : Int, 0 ≤ tim → tim < 2 ^ 31 → ∀ tm : RtcTime, ∃ moment : Moment,
      toTm monthDays tim tm = some (tm.showing moment, monthDays) ∧
      (tm.showing moment).mktime = BitVec.ofInt 32 tim) ∧
    ∀ moment : Moment, 1970 ≤ moment.year → moment.NotAfter [2038, 1, 19, 3, 14, 7] → ∀ given tm : RtcTime,
      toTm monthDays (given.showing moment).mktime.toInt tm = some (tm.showing moment, monthDays) := by
  constructor
  · intro tim positive small tm
    lift tim to Nat using positive
    obtain ⟨moment, since, before, seconds, result⟩ := @to_tm_shows tim (by omega) tm
    refine ⟨moment, result, ?_⟩
    rw [showing_mktime tm since (by omega), seconds, BitVec.ofInt_natCast]
  · intro moment since early given tm
    have small := seconds_small since early
    obtain ⟨found, found_since, found_before, seconds, result⟩ := to_tm_shows small tm
    have same := seconds_injective found_since since seconds
    subst same
    have time : (BitVec.ofNat 32 found.seconds).toInt = (found.seconds : Int) := by
      have number : (BitVec.ofNat 32 found.seconds).toNat = found.seconds := by
        rw [BitVec.toNat_ofNat, Nat.mod_eq_of_lt (by omega)]
      rw [BitVec.toInt_eq_toNat_of_lt (by omega), number]
    rw [showing_mktime given since (by omega), time]
    exact result

/-- February 29, 2000, at 23:59:58. -/
def leapDay : Moment := ⟨⟨2000, 2, 29, by decide, by decide⟩, 23, 59, 58, by decide, by decide, by decide⟩

def blank : RtcTime := ⟨0, 0, 0, 0, 0, 0, 0, 0, 0⟩

theorem leap_day_there_and_back :
    (∃ moment : Moment, toTm monthDays 951868798 blank = some (blank.showing moment, monthDays) ∧
      (blank.showing moment).mktime = BitVec.ofInt 32 951868798) ∧
    toTm monthDays (blank.showing leapDay).mktime.toInt blank = some (blank.showing leapDay, monthDays) :=
  ⟨to_tm_mktime.1 951868798 (by decide) (by decide) blank,
    to_tm_mktime.2 leapDay (by decide) (Or.inr (List.Lex.rel (by decide))) blank blank⟩

end UBoot.Rtc.Date
