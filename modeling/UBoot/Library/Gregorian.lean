import Mathlib.Tactic

/-!
The Gregorian calendar: days are counted from the first of January of a year, the epoch.
-/

namespace UBoot.Library.Gregorian

def leap (year : Nat) : Prop := 4 ∣ year ∧ (¬ 100 ∣ year ∨ 400 ∣ year)

instance (year : Nat) : Decidable (leap year) := inferInstanceAs (Decidable (_ ∧ _))

def yearLength (year : Nat) : Nat := if leap year then 366 else 365

def monthLengths (year : Nat) : List Nat :=
  [31, if leap year then 29 else 28, 31, 30, 31, 30, 31, 31, 30, 31, 30, 31]

structure Date where
  year : Nat
  month : Nat
  day : Nat
  month_range : 1 ≤ month ∧ month ≤ 12
  day_range : 1 ≤ day ∧ day ≤ ((monthLengths year)[month - 1]?).getD 0

/-- The days of `count` years from the epoch on. -/
def daysOfYears (epoch : Nat) : Nat → Nat
  | 0 => 0
  | count + 1 => daysOfYears epoch count + yearLength (epoch + count)

def daysOfMonths (year count : Nat) : Nat := ((monthLengths year).take count).sum

/-- The days since the epoch. -/
def Date.dayNumber (epoch : Nat) (date : Date) : Nat :=
  daysOfYears epoch (date.year - epoch) + daysOfMonths date.year (date.month - 1) + (date.day - 1)

/-! ### Day numbers name days -/

theorem year_length_positive (year : Nat) : 365 ≤ yearLength year := by
  rw [yearLength]
  split
  · decide
  · decide

theorem days_of_years_mono (epoch : Nat) {left right : Nat} (le : left ≤ right) :
    daysOfYears epoch left ≤ daysOfYears epoch right := by
  induction le with
  | refl => exact Nat.le_refl _
  | step _ ih => exact ih.trans (Nat.le_add_right _ _)

theorem days_of_months_step {year count : Nat} (within : count < 12) :
    daysOfMonths year (count + 1) =
      daysOfMonths year count + ((monthLengths year)[count]?).getD 0 := by
  have bound : count < (monthLengths year).length := within
  rw [daysOfMonths, daysOfMonths, List.sum_take_succ _ _ bound, List.getElem?_eq_getElem bound, Option.getD_some]

theorem days_of_months_mono (year : Nat) {left right : Nat} (le : left ≤ right) :
    daysOfMonths year left ≤ daysOfMonths year right := by
  induction le with
  | refl => exact Nat.le_refl _
  | @step right _ ih =>
      by_cases within : right < 12
      · exact ih.trans (by rw [days_of_months_step within]; exact Nat.le_add_right _ _)
      · have short : (monthLengths year).length ≤ right := Nat.not_lt.mp within
        rw [daysOfMonths, daysOfMonths] at ih ⊢
        rw [List.take_of_length_le short] at ih
        rwa [List.take_of_length_le (short.trans (Nat.le_succ right))]

theorem months_fill_year (year : Nat) : daysOfMonths year 12 = yearLength year := by
  by_cases long : leap year
  · simp [daysOfMonths, monthLengths, yearLength, long]
  · simp [daysOfMonths, monthLengths, yearLength, long]

/-- The day of a date lies within its month, and the month within its year. -/
theorem day_in_month (date : Date) :
    daysOfMonths date.year (date.month - 1) + (date.day - 1) < daysOfMonths date.year date.month := by
  obtain ⟨first, last⟩ := date.month_range
  obtain ⟨one, short⟩ := date.day_range
  have step := @days_of_months_step date.year (date.month - 1) (by omega)
  rw [Nat.sub_add_cancel first] at step
  omega

theorem day_in_year (date : Date) :
    daysOfMonths date.year (date.month - 1) + (date.day - 1) < yearLength date.year := by
  rw [← months_fill_year]
  exact Nat.lt_of_lt_of_le (day_in_month date) (days_of_months_mono _ date.month_range.2)

theorem earlier_year {epoch : Nat} {left right : Date} (since : epoch ≤ left.year)
    (less : left.year < right.year) : left.dayNumber epoch < right.dayNumber epoch := by
  have whole := days_of_years_mono epoch (show left.year - epoch + 1 ≤ right.year - epoch by omega)
  have inside := day_in_year left
  rw [daysOfYears, Nat.add_sub_cancel' since] at whole
  rw [Date.dayNumber, Date.dayNumber]
  omega

theorem earlier_month {epoch : Nat} {left right : Date} (same : left.year = right.year)
    (less : left.month < right.month) : left.dayNumber epoch < right.dayNumber epoch := by
  have whole := days_of_months_mono right.year (show left.month ≤ right.month - 1 by omega)
  have inside := day_in_month left
  rw [Date.dayNumber, Date.dayNumber, same]
  rw [same] at inside
  omega

theorem day_number_injective {epoch : Nat} {left right : Date} (left_since : epoch ≤ left.year)
    (right_since : epoch ≤ right.year) (same : left.dayNumber epoch = right.dayNumber epoch) : left = right := by
  have years : left.year = right.year := by
    rcases Nat.lt_trichotomy left.year right.year with less | equal | more
    · exact absurd same (earlier_year left_since less).ne
    · exact equal
    · exact absurd same (earlier_year right_since more).ne'
  have months : left.month = right.month := by
    rcases Nat.lt_trichotomy left.month right.month with less | equal | more
    · exact absurd same (earlier_month years less).ne
    · exact equal
    · exact absurd same (earlier_month years.symm more).ne'
  have days : left.day = right.day := by
    rw [Date.dayNumber, Date.dayNumber, years, months] at same
    have := left.day_range.1
    have := right.day_range.1
    omega
  cases left
  cases right
  subst years months days
  rfl

/-! ### The closed form -/

/-- The leap years up to and with a year, from the year 1 on. -/
def leapsTo (year : Nat) : Nat := year / 4 - year / 100 + year / 400

theorem leaps_step (year : Nat) : leapsTo (year + 1) = leapsTo year + if leap (year + 1) then 1 else 0 := by
  rw [leapsTo, leapsTo]
  split
  · rename_i long
    obtain ⟨four, other⟩ := long
    omega
  · rename_i short
    rw [leap] at short
    omega

theorem days_of_years_closed (year count : Nat) :
    daysOfYears (year + 1) count + leapsTo year = 365 * count + leapsTo (year + count) := by
  induction count with
  | zero => rw [daysOfYears, Nat.mul_zero, Nat.add_zero]
  | succ count ih =>
      have step := leaps_step (year + count)
      rw [daysOfYears, yearLength, Nat.add_right_comm year 1 count, ← Nat.add_assoc, step]
      split
      · omega
      · omega

end UBoot.Library.Gregorian
