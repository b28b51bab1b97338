import Mathlib.Algebra.BigOperators.Group.Finset.Basic
import Mathlib.Algebra.Order.Ring.Nat
import Mathlib.Tactic.IntervalCases
import Mathlib.Tactic.Ring

set_option autoImplicit false

/-! # The calendar

The Gregorian calendar as a count of days. Years and months are the same thing twice: a sequence of
blocks of different lengths, in which a day is found by walking past the blocks that end before it
(`locate`). `ofDay` finds the date of a day, `dayNumber` counts up to a date, and they are inverse to
each other (`dayNumber_ofDay`, `ofDay_dayNumber`); the date of the next day is the next date
(`ofDay_succ`), and later days have later dates (`ofDay_lt_iff`). -/

namespace Calendar

/-! ## Blocks -/

/-- Walks past blocks, from the `i`-th on. -/
def locate (len : ℕ → ℕ) : (fuel : ℕ) → (i d : ℕ) → ℕ × ℕ
  | 0, i, d => (i, d)
  | fuel + 1, i, d => if d < len i then (i, d) else locate len fuel (i + 1) (d - len i)

/-- Everything before the `i`-th block. -/
def before (len : ℕ → ℕ) (i : ℕ) : ℕ := ∑ j ∈ Finset.range i, len j

section
variable {len : ℕ → ℕ}

theorem before_succ (i : ℕ) : before len (i + 1) = before len i + len i := Finset.sum_range_succ len i

theorem before_mono {i j : ℕ} (h : i ≤ j) : before len i ≤ before len j := by
  induction h with
  | refl => exact Nat.le_refl _
  | step _ ih => exact Nat.le_trans ih (by rw [before_succ]; exact Nat.le_add_right _ _)

/-- The walk ends in the block that the day lies in. -/
theorem locate_spec (fuel i d : ℕ) (h : before len i + d < before len (i + fuel)) :
    (locate len fuel i d).2 < len (locate len fuel i d).1 ∧
      before len (locate len fuel i d).1 + (locate len fuel i d).2 = before len i + d ∧
      (locate len fuel i d).1 < i + fuel := by
  induction fuel generalizing i d with
  | zero => exact absurd h (by rw [Nat.add_zero]; omega)
  | succ fuel ih =>
      rw [locate]
      by_cases hd : d < len i
      · rw [if_pos hd]
        exact ⟨hd, rfl, by omega⟩
      · rw [if_neg hd]
        have hnext : before len (i + 1) + (d - len i) = before len i + d := by
          rw [before_succ]
          omega
        have hrest := ih (i + 1) (d - len i) (by rwa [hnext, show i + 1 + fuel = i + (fuel + 1) by omega])
        rw [hnext] at hrest
        exact ⟨hrest.1, hrest.2.1, by omega⟩

/-- Places in blocks are ordered like the days. -/
theorem place_lt_iff {i j r s : ℕ} (hr : r < len i) (hs : s < len j) :
    before len i + r < before len j + s ↔ i < j ∨ (i = j ∧ r < s) := by
  rcases Nat.lt_trichotomy i j with hij | hij | hij
  · have hle := @before_mono len (i + 1) j hij
    rw [before_succ] at hle
    exact iff_of_true (by omega) (.inl hij)
  · subst hij
    simp
  · have hle := @before_mono len (j + 1) i hij
    rw [before_succ] at hle
    exact iff_of_false (by omega) (by omega)

end

/-! ## Years and months -/

def isLeap (y : ℕ) : Bool := y % 4 = 0 && (y % 100 ≠ 0 || y % 400 = 0)

def yearLength (y : ℕ) : ℕ := if isLeap y then 366 else 365

/-- Months are numbered from 0. -/
def monthLength (leap : Bool) : (month : ℕ) → ℕ
  | 0 => 31
  | 1 => if leap then 29 else 28
  | 2 => 31
  | 3 => 30
  | 4 => 31
  | 5 => 30
  | 6 => 31
  | 7 => 31
  | 8 => 30
  | 9 => 31
  | 10 => 30
  | 11 => 31
  | _ => 0

theorem monthLength_pos (leap : Bool) {month : ℕ} (h : month < 12) : 1 ≤ monthLength leap month := by
  cases leap <;> interval_cases month <;> decide

/-- The months fill the year. -/
theorem before_monthLength (y : ℕ) : before (monthLength (isLeap y)) 12 = yearLength y := by
  rw [yearLength]
  cases isLeap y <;> rfl

/-- The calendar repeats after 400 years. -/
def kEra : ℕ := 146097

theorem before_yearLength : before yearLength 400 = kEra := by decide +kernel

/-- A date; months and days are numbered from 1. -/
@[ext] structure Date where
  year : ℤ
  month : ℕ
  day : ℕ
  month_pos : 1 ≤ month
  month_le : month ≤ 12
  day_pos : 1 ≤ day
  day_le : day ≤ monthLength (isLeap (year % 400).toNat) (month - 1)
  deriving DecidableEq, Repr

namespace Date

/-- The date these numbers make, if they do. -/
def ofNumbers? (year : ℤ) (month day : ℕ) : Option Date :=
  if h : (1 ≤ month ∧ month ≤ 12) ∧ 1 ≤ day ∧ day ≤ monthLength (isLeap (year % 400).toNat) (month - 1) then
    some ⟨year, month, day, h.1.1, h.1.2, h.2.1, h.2.2⟩
  else none

theorem ofNumbers?_self (d : Date) : ofNumbers? d.year d.month d.day = some d :=
  dif_pos ⟨⟨d.month_pos, d.month_le⟩, d.day_pos, d.day_le⟩

/-- The year within its 400. -/
def yearOfEra (d : Date) : ℕ := (d.year % 400).toNat

/-- The lengths of the months of the date's year. -/
def months (d : Date) : ℕ → ℕ := monthLength (isLeap d.yearOfEra)

def dayOfYear (d : Date) : ℕ := before d.months (d.month - 1) + (d.day - 1)

end Date

/-- The first day of 1970, counted from that of the year 0. -/
def kEpoch : ℤ := 719528

/-- The days before a year. -/
def yearStart (y : ℤ) : ℤ := kEra * (y / 400) + before yearLength (y % 400).toNat

theorem yearStart_succ (y : ℤ) : yearStart (y + 1) = yearStart y + yearLength (y % 400).toNat := by
  have hsucc := @before_succ yearLength (y % 400).toNat
  rw [yearStart, yearStart, kEra]
  by_cases hlast : y % 400 = 399
  · -- The last year of its 400.
    have hwhole : before yearLength ((y % 400).toNat + 1) = 146097 := by
      rw [show (y % 400).toNat + 1 = 400 by omega]
      exact before_yearLength
    have hzero : before yearLength 0 = 0 := rfl
    rw [show ((y + 1) % 400).toNat = 0 by omega, hzero]
    omega
  · rw [show ((y + 1) % 400).toNat = (y % 400).toNat + 1 by omega, hsucc]
    omega

/-- The number of a date's day; the first of 1970 is 0. -/
def Date.dayNumber (d : Date) : ℤ := yearStart d.year + d.dayOfYear - kEpoch

namespace Date

theorem yearOfEra_lt (d : Date) : d.yearOfEra < 400 := by
  have hmod := Int.emod_lt_of_pos d.year (show (0 : ℤ) < 400 by decide)
  rw [yearOfEra]
  omega

theorem year_eq (d : Date) : d.year = 400 * (d.year / 400) + d.yearOfEra := by
  rw [yearOfEra]
  omega

theorem day_lt (d : Date) : d.day - 1 < d.months (d.month - 1) := by
  have hpos := d.day_pos
  have hle : d.day ≤ d.months (d.month - 1) := d.day_le
  omega

theorem dayOfYear_lt (d : Date) : d.dayOfYear < yearLength d.yearOfEra := by
  have hday := d.day_lt
  have hmonth : d.month - 1 + 1 ≤ 12 := by
    have hpos := d.month_pos
    have hle := d.month_le
    omega
  have hlast := @before_mono d.months _ _ hmonth
  rw [before_succ] at hlast
  rw [dayOfYear, ← before_monthLength]
  exact Nat.lt_of_lt_of_le (Nat.add_lt_add_left hday _) hlast

/-- The place within 400 years. -/
theorem dayOfEra_lt (d : Date) : before yearLength d.yearOfEra + d.dayOfYear < kEra := by
  have hlast := @before_mono yearLength (d.yearOfEra + 1) 400 d.yearOfEra_lt
  rw [before_succ, before_yearLength] at hlast
  exact Nat.lt_of_lt_of_le (Nat.add_lt_add_left d.dayOfYear_lt _) hlast

/-- An earlier date. -/
def Before (d d' : Date) : Prop :=
  d.year < d'.year ∨ (d.year = d'.year ∧ (d.month < d'.month ∨ (d.month = d'.month ∧ d.day < d'.day)))

theorem dayOfYear_lt_iff {d d' : Date} (h : d.year = d'.year) :
    d.dayOfYear < d'.dayOfYear ↔ d.month < d'.month ∨ (d.month = d'.month ∧ d.day < d'.day) := by
  have hmonths : d.months = d'.months := by rw [months, months, yearOfEra, yearOfEra, h]
  have hplace := place_lt_iff d.day_lt (hmonths ▸ d'.day_lt)
  rw [dayOfYear, dayOfYear, ← hmonths, hplace]
  have hmonth := d.month_pos
  have hmonth' := d'.month_pos
  have hday := d.day_pos
  have hday' := d'.day_pos
  omega

/-- **Later days have later dates.** -/
theorem dayNumber_lt_iff (d d' : Date) : d.dayNumber < d'.dayNumber ↔ d.Before d' := by
  have hera := d.dayOfEra_lt
  have hera' := d'.dayOfEra_lt
  have hyear := d.year_eq
  have hyear' := d'.year_eq
  have hoe := d.yearOfEra_lt
  have hoe' := d'.yearOfEra_lt
  have hplace := place_lt_iff d.dayOfYear_lt d'.dayOfYear_lt
  have hnumber : d.dayNumber = kEra * (d.year / 400) + before yearLength d.yearOfEra + d.dayOfYear - kEpoch :=
    rfl
  have hnumber' : d'.dayNumber =
      kEra * (d'.year / 400) + before yearLength d'.yearOfEra + d'.dayOfYear - kEpoch := rfl
  rw [hnumber, hnumber', Before, kEra]
  rw [kEra] at hera hera'
  rcases lt_trichotomy (d.year / 400) (d'.year / 400) with h | h | h
  · exact iff_of_true (by omega) (.inl (by omega))
  · -- Of the same 400 years.
    constructor
    · intro hlt
      rcases hplace.1 (by omega) with hlt | ⟨heq, hlt⟩
      · exact .inl (by omega)
      · have hsame : d.year = d'.year := by omega
        exact .inr ⟨hsame, (dayOfYear_lt_iff hsame).1 hlt⟩
    · rintro (hlt | ⟨hsame, hlt⟩)
      · have hbefore := hplace.2 (.inl (by omega))
        omega
      · have hbefore := hplace.2 (.inr ⟨by omega, (dayOfYear_lt_iff hsame).2 hlt⟩)
        omega
  · exact iff_of_false (by omega) (by omega)

theorem dayNumber_inj {d d' : Date} (h : d.dayNumber = d'.dayNumber) : d = d' := by
  have hle := (not_congr (dayNumber_lt_iff d d')).1 (by omega)
  have hge := (not_congr (dayNumber_lt_iff d' d)).1 (by omega)
  unfold Before at hle hge
  ext <;> omega

end Date

/-! ## The date of a day -/

/-- The day within 400 years, and the year and the month that it lies in. -/
def yearAt (doe : ℕ) : ℕ × ℕ := locate yearLength 400 0 doe

def monthAt (yoe doy : ℕ) : ℕ × ℕ := locate (monthLength (isLeap yoe)) 12 0 doy

theorem yearAt_spec {doe : ℕ} (h : doe < kEra) :
    (yearAt doe).2 < yearLength (yearAt doe).1 ∧
      before yearLength (yearAt doe).1 + (yearAt doe).2 = doe ∧ (yearAt doe).1 < 400 := by
  have hspec := @locate_spec yearLength 400 0 doe (by
    rw [Nat.zero_add, before_yearLength, before, Finset.range_zero, Finset.sum_empty, Nat.zero_add]
    exact h)
  rwa [show before yearLength 0 = 0 from rfl, Nat.zero_add, Nat.zero_add] at hspec

theorem monthAt_spec {yoe doy : ℕ} (h : doy < yearLength yoe) :
    (monthAt yoe doy).2 < monthLength (isLeap yoe) (monthAt yoe doy).1 ∧
      before (monthLength (isLeap yoe)) (monthAt yoe doy).1 + (monthAt yoe doy).2 = doy ∧
      (monthAt yoe doy).1 < 12 := by
  have hspec := @locate_spec (monthLength (isLeap yoe)) 12 0 doy (by
    rw [Nat.zero_add, before_monthLength, before, Finset.range_zero, Finset.sum_empty, Nat.zero_add]
    exact h)
  rwa [show before (monthLength (isLeap yoe)) 0 = 0 from rfl, Nat.zero_add, Nat.zero_add] at hspec

/-- The day of the 400 years that the `n`-th day lies in. -/
def dayOfEra (n : ℤ) : ℕ := ((n + kEpoch) % kEra).toNat

theorem dayOfEra_lt (n : ℤ) : dayOfEra n < kEra := by
  rw [dayOfEra, kEra]
  omega

theorem yearOfEra_mk (era : ℤ) {yoe : ℕ} (h : yoe < 400) : ((400 * era + yoe) % 400).toNat = yoe := by
  omega

/-- The date of the `n`-th day. -/
def ofDay (n : ℤ) : Date :=
  let year := yearAt (dayOfEra n)
  let month := monthAt year.1 year.2
  { year := 400 * ((n + kEpoch) / kEra) + year.1
    month := month.1 + 1
    day := month.2 + 1
    month_pos := Nat.le_add_left 1 _
    month_le := (monthAt_spec (yearAt_spec (dayOfEra_lt n)).1).2.2
    day_pos := Nat.le_add_left 1 _
    day_le := by
      rw [yearOfEra_mk _ (yearAt_spec (dayOfEra_lt n)).2.2]
      exact (monthAt_spec (yearAt_spec (dayOfEra_lt n)).1).1 }

theorem dayNumber_ofDay (n : ℤ) : (ofDay n).dayNumber = n := by
  obtain ⟨hday, hyear, hlt⟩ := yearAt_spec (dayOfEra_lt n)
  obtain ⟨-, hmonth, -⟩ := monthAt_spec hday
  have hoe : (ofDay n).yearOfEra = (yearAt (dayOfEra n)).1 := yearOfEra_mk _ hlt
  have hdoy : (ofDay n).dayOfYear = (yearAt (dayOfEra n)).2 := by
    rw [Date.dayOfYear, Date.months, hoe]
    exact hmonth
  have hera : (ofDay n).year / 400 = (n + kEpoch) / kEra := by
    have heq : (ofDay n).year = 400 * ((n + kEpoch) / kEra) + (yearAt (dayOfEra n)).1 := rfl
    omega
  have hstart : yearStart (ofDay n).year =
      kEra * ((n + kEpoch) / kEra) + before yearLength (yearAt (dayOfEra n)).1 := by
    rw [← hera, ← hoe]
    rfl
  have hdoe : (dayOfEra n : ℤ) = (n + kEpoch) % kEra := by
    rw [dayOfEra, kEra]
    omega
  rw [Date.dayNumber, hstart, hdoy]
  rw [kEra] at hdoe ⊢
  omega

theorem ofDay_dayNumber (d : Date) : ofDay d.dayNumber = d := Date.dayNumber_inj (dayNumber_ofDay _)

theorem ofDay_lt_iff (m n : ℤ) : (ofDay m).Before (ofDay n) ↔ m < n := by
  rw [← Date.dayNumber_lt_iff, dayNumber_ofDay, dayNumber_ofDay]

/-! ## The next day -/

namespace Date

/-- Within the month, to the next month, or to the next year. -/
def next (d : Date) : Date :=
  if hday : d.day < d.months (d.month - 1) then
    { d with day := d.day + 1, day_pos := Nat.le_add_left 1 _, day_le := hday }
  else if hmonth : d.month < 12 then
    { d with
      month := d.month + 1
      day := 1
      month_pos := Nat.le_add_left 1 _
      month_le := hmonth
      day_pos := Nat.le_refl 1
      day_le := monthLength_pos _ hmonth }
  else
    { year := d.year + 1
      month := 1
      day := 1
      month_pos := Nat.le_refl 1
      month_le := by decide
      day_pos := Nat.le_refl 1
      day_le := monthLength_pos _ (by decide) }

theorem dayNumber_next (d : Date) : d.next.dayNumber = d.dayNumber + 1 := by
  have hmonth := d.month_pos
  have hday := d.day_pos
  have hle : d.day ≤ d.months (d.month - 1) := d.day_le
  have hsucc : before d.months d.month = before d.months (d.month - 1) + d.months (d.month - 1) := by
    rw [← before_succ, Nat.sub_add_cancel hmonth]
  have hdoy : d.dayOfYear = before d.months (d.month - 1) + (d.day - 1) := rfl
  by_cases hlast : d.day < d.months (d.month - 1)
  · have hnext : d.next.dayNumber =
        yearStart d.year + (before d.months (d.month - 1) + d.day : ℕ) - kEpoch := by
      rw [next, dif_pos hlast]
      rfl
    rw [hnext, dayNumber, hdoy]
    omega
  · by_cases hend : d.month < 12
    · have hnext : d.next.dayNumber = yearStart d.year + (before d.months d.month : ℕ) - kEpoch := by
        rw [next, dif_neg hlast, dif_pos hend]
        rfl
      rw [hnext, dayNumber, hdoy, hsucc]
      omega
    · -- The last day of the year.
      have hnext : d.next.dayNumber = yearStart (d.year + 1) - kEpoch := by
        rw [next, dif_neg hlast, dif_neg hend]
        show yearStart (d.year + 1) + (0 : ℕ) - kEpoch = _
        omega
      have hfull : before d.months 12 = yearLength (d.year % 400).toNat := before_monthLength _
      have htwelve : d.month = 12 := by
        have hmonthLe := d.month_le
        omega
      rw [← htwelve, hsucc] at hfull
      rw [hnext, yearStart_succ, dayNumber, hdoy, ← hfull]
      omega

end Date

/-- **From day to day.** -/
theorem ofDay_succ (n : ℤ) : ofDay (n + 1) = (ofDay n).next :=
  Date.dayNumber_inj (by rw [Date.dayNumber_next, dayNumber_ofDay, dayNumber_ofDay])

/-- The first of January 1970. -/
example : ((ofDay 0).year, (ofDay 0).month, (ofDay 0).day) = (1970, 1, 1) := by decide +kernel

end Calendar
