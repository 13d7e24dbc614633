import Mathlib.Algebra.Order.Ring.Int
import Mathlib.Data.Int.Basic
import Mathlib.Tactic.Linarith

/-!
# The proleptic Gregorian calendar

Dates of all years, counted in days from the first of January of the year 0. Every day
has one date, and the days come in the order of the dates: year first, then month, then
day of the month. Months are counted from 0.
-/

namespace FileMover.Framework.Calendar

def isLeap (year : Int) : Bool := year % 4 = 0 && (year % 100 ≠ 0 || year % 400 = 0)

def yearLength (leap : Bool) : Int := if leap then 366 else 365

def daysIn (leap : Bool) : Nat → Nat
  | 1 => if leap then 29 else 28
  | 3 | 5 | 8 | 10 => 30
  | _ => 31

/-- The days of a year before one of its months. -/
def monthStart (leap : Bool) : Nat → Nat
  | 0 => 0
  | month + 1 => monthStart leap month + daysIn leap month

/-- The days from the year 0 to this one. -/
def yearStart (year : Int) : Int :=
  365 * year + (year + 3) / 4 - (year + 99) / 100 + (year + 399) / 400

structure Date where
  year : Int
  month : Nat
  /-- Counted from 1. -/
  day : Nat
deriving DecidableEq, Repr

structure Date.Valid (d : Date) : Prop where
  month : d.month < 12
  first : 1 ≤ d.day
  last : d.day ≤ daysIn (isLeap d.year) d.month

/-- The number of the day. -/
def Date.number (d : Date) : Int :=
  yearStart d.year + (monthStart (isLeap d.year) d.month : Nat) + ((d.day : Int) - 1)

/-- The order of the calendar. -/
def Date.Before (d e : Date) : Prop :=
  d.year < e.year ∨ d.year = e.year ∧ (d.month < e.month ∨ d.month = e.month ∧ d.day < e.day)

/-! ## Years and months -/

theorem yearStart_succ (year : Int) :
    yearStart (year + 1) = yearStart year + yearLength (isLeap year) := by
  unfold yearStart yearLength isLeap
  by_cases h4 : year % 4 = 0 <;> by_cases h100 : year % 100 = 0 <;>
    by_cases h400 : year % 400 = 0 <;> simp [h4, h100, h400] <;> omega

theorem yearStart_mono {year year' : Int} (h : year ≤ year') :
    yearStart year ≤ yearStart year' := by
  unfold yearStart
  omega

theorem monthStart_mono {leap : Bool} {month month' : Nat} (h : month ≤ month') :
    monthStart leap month ≤ monthStart leap month' := by
  induction h with
  | refl => exact le_rfl
  | step _ ih => exact ih.trans (Nat.le_add_right _ _)

theorem monthStart_end (leap : Bool) : (monthStart leap 12 : Int) = yearLength leap := by
  cases leap <;> rfl

/-- The days of a month end before the next one begins. -/
theorem Date.Valid.before_next {d : Date} (h : d.Valid) :
    monthStart (isLeap d.year) d.month + d.day ≤ monthStart (isLeap d.year) (d.month + 1) :=
  Nat.add_le_add_left h.last _

theorem Date.Valid.within_year {d : Date} (h : d.Valid) :
    yearStart d.year ≤ d.number ∧ d.number < yearStart (d.year + 1) := by
  have hmonth := h.before_next
  have hyear : monthStart (isLeap d.year) (d.month + 1) ≤ monthStart (isLeap d.year) 12 :=
    monthStart_mono h.month
  have hend := monthStart_end (isLeap d.year)
  have hfirst := h.first
  rw [yearStart_succ, Date.number]
  omega

/-! ## Order -/

theorem Date.number_lt {d e : Date} (hd : d.Valid) (he : e.Valid) (h : d.Before e) :
    d.number < e.number := by
  rcases h with hyear | ⟨hyear, hmonth | ⟨hmonth, hday⟩⟩
  · have hnext := yearStart_mono (show d.year + 1 ≤ e.year by omega)
    exact (hd.within_year.2.trans_le hnext).trans_le he.within_year.1
  · have hnext := hd.before_next
    have hlater : monthStart (isLeap d.year) (d.month + 1) ≤ monthStart (isLeap d.year) e.month :=
      monthStart_mono hmonth
    have hfirst := he.first
    rw [Date.number, Date.number, ← hyear]
    omega
  · rw [Date.number, Date.number, ← hyear, ← hmonth]
    omega

theorem Date.before_trichotomy (d e : Date) : d.Before e ∨ d = e ∨ e.Before d := by
  obtain ⟨y, m, k⟩ := d
  obtain ⟨y', m', k'⟩ := e
  simp only [Date.Before, Date.mk.injEq]
  omega

theorem Date.before_of_number_lt {d e : Date} (hd : d.Valid) (he : e.Valid)
    (h : d.number < e.number) : d.Before e := by
  rcases d.before_trichotomy e with hbefore | rfl | hafter
  · exact hbefore
  · exact absurd h (lt_irrefl _)
  · exact absurd (Date.number_lt he hd hafter) (not_lt.mpr h.le)

theorem Date.number_injective {d e : Date} (hd : d.Valid) (he : e.Valid)
    (h : d.number = e.number) : d = e := by
  rcases d.before_trichotomy e with hbefore | heq | hafter
  · exact absurd (Date.number_lt hd he hbefore) (by omega)
  · exact heq
  · exact absurd (Date.number_lt he hd hafter) (by omega)

/-! ## The date of a day -/

/-- The average length of a year gives the year, or one next to it. -/
def yearOf (number : Int) : Int :=
  let year := number * 400 / 146097
  if number < yearStart year then year - 1
  else if yearStart (year + 1) ≤ number then year + 1
  else year

theorem yearStart_average (year : Int) :
    146097 * year - 400 ≤ 400 * yearStart year ∧ 400 * yearStart year ≤ 146097 * year + 800 := by
  unfold yearStart
  omega

theorem yearStart_yearOf (number : Int) :
    yearStart (yearOf number) ≤ number ∧ number < yearStart (yearOf number + 1) := by
  unfold yearOf
  dsimp only
  generalize hyear : number * 400 / 146097 = year
  have hquotient : 146097 * year ≤ number * 400 ∧ number * 400 < 146097 * year + 146097 := by
    omega
  split_ifs with hearly hlate
  · have hbefore := yearStart_average (year - 1)
    rw [Int.sub_add_cancel]
    exact ⟨by omega, hearly⟩
  · have hafter := yearStart_average (year + 1 + 1)
    exact ⟨hlate, by omega⟩
  · exact ⟨by omega, by omega⟩

/-- The month that a day of the year falls into, at or after the given one. -/
def monthOf (leap : Bool) (day : Nat) : Nat → Nat → Nat
  | 0, month => month
  | rounds + 1, month =>
      if day < monthStart leap (month + 1) then month else monthOf leap day rounds (month + 1)

theorem monthOf_spec {leap : Bool} {day rounds month : Nat} (hrounds : month + rounds = 11)
    (hstart : monthStart leap month ≤ day) (hend : day < monthStart leap 12) :
    monthOf leap day rounds month < 12 ∧
      monthStart leap (monthOf leap day rounds month) ≤ day ∧
      day < monthStart leap (monthOf leap day rounds month + 1) := by
  induction rounds generalizing month with
  | zero =>
      obtain rfl : month = 11 := hrounds
      exact ⟨Nat.lt_succ_self 11, hstart, hend⟩
  | succ rounds ih =>
      rw [monthOf]
      split_ifs with hhere
      · exact ⟨by omega, hstart, hhere⟩
      · exact ih (by omega) (by omega)

def Date.ofNumber (number : Int) : Date :=
  let year := yearOf number
  let day := (number - yearStart year).toNat
  let month := monthOf (isLeap year) day 11 0
  ⟨year, month, day - monthStart (isLeap year) month + 1⟩

theorem Date.ofNumber_spec (number : Int) :
    (Date.ofNumber number).Valid ∧ (Date.ofNumber number).number = number := by
  obtain ⟨hstart, hend⟩ := yearStart_yearOf number
  rw [yearStart_succ, ← monthStart_end] at hend
  unfold Date.ofNumber
  dsimp only
  generalize yearOf number = year at hstart hend ⊢
  generalize hday : (number - yearStart year).toNat = day
  have hzero : monthStart (isLeap year) 0 ≤ day := Nat.zero_le _
  have hwithin : day < monthStart (isLeap year) 12 := by omega
  obtain ⟨hmonth, hfirst, hlast⟩ := monthOf_spec (show 0 + 11 = 11 from rfl) hzero hwithin
  generalize monthOf (isLeap year) day 11 0 = month at hmonth hfirst hlast ⊢
  have hnext : monthStart (isLeap year) (month + 1) =
      monthStart (isLeap year) month + daysIn (isLeap year) month := rfl
  refine ⟨⟨hmonth, Nat.le_add_left _ _, ?_⟩, ?_⟩
  · show day - monthStart (isLeap year) month + 1 ≤ daysIn (isLeap year) month
    omega
  · rw [Date.number]
    show yearStart year + (monthStart (isLeap year) month : Nat) +
      (((day - monthStart (isLeap year) month + 1 : Nat) : Int) - 1) = number
    omega

/-! ## Seconds -/

/-- A second of a day that has 86400 of them. -/
structure Moment where
  date : Date
  hour : Nat
  minute : Nat
  second : Nat
deriving DecidableEq, Repr

structure Moment.Valid (m : Moment) : Prop where
  date : m.date.Valid
  hour : m.hour < 24
  minute : m.minute < 60
  second : m.second < 60

/-- The seconds from the first one of the year 0. -/
def Moment.number (m : Moment) : Int :=
  m.date.number * 86400 + m.hour * 3600 + m.minute * 60 + m.second

def Moment.Before (m m' : Moment) : Prop :=
  m.date.Before m'.date ∨ m.date = m'.date ∧ (m.hour < m'.hour ∨ m.hour = m'.hour ∧
    (m.minute < m'.minute ∨ m.minute = m'.minute ∧ m.second < m'.second))

theorem Moment.before_of_number_lt {m m' : Moment} (hm : m.Valid) (hm' : m'.Valid)
    (h : m.number < m'.number) : m.Before m' := by
  rw [Moment.number, Moment.number] at h
  have hbounds := And.intro hm.hour (And.intro hm.minute hm.second)
  have hbounds' := And.intro hm'.hour (And.intro hm'.minute hm'.second)
  rcases lt_trichotomy m.date.number m'.date.number with hday | hday | hday
  · exact .inl (Date.before_of_number_lt hm.date hm'.date hday)
  · refine .inr ⟨Date.number_injective hm.date hm'.date hday, ?_⟩
    omega
  · omega

theorem Moment.number_injective {m m' : Moment} (hm : m.Valid) (hm' : m'.Valid)
    (h : m.number = m'.number) : m = m' := by
  rw [Moment.number, Moment.number] at h
  have hbounds := And.intro hm.hour (And.intro hm.minute hm.second)
  have hbounds' := And.intro hm'.hour (And.intro hm'.minute hm'.second)
  have hday : m.date.number = m'.date.number := by omega
  have hdate := Date.number_injective hm.date hm'.date hday
  obtain ⟨date, hour, minute, second⟩ := m
  obtain ⟨date', hour', minute', second'⟩ := m'
  obtain rfl : date = date' := hdate
  simp only [Moment.mk.injEq, true_and]
  dsimp only at h hbounds hbounds'
  omega

def Moment.ofNumber (number : Int) : Moment :=
  let second := (number % 86400).toNat
  ⟨Date.ofNumber (number / 86400), second / 3600, second / 60 % 60, second % 60⟩

theorem Moment.ofNumber_spec (number : Int) :
    (Moment.ofNumber number).Valid ∧ (Moment.ofNumber number).number = number := by
  obtain ⟨hvalid, hnumber⟩ := Date.ofNumber_spec (number / 86400)
  have hday : number % 86400 < 86400 ∧ 0 ≤ number % 86400 := by omega
  refine ⟨⟨hvalid, ?_, ?_, ?_⟩, ?_⟩
  · show (number % 86400).toNat / 3600 < 24
    omega
  · show (number % 86400).toNat / 60 % 60 < 60
    omega
  · show (number % 86400).toNat % 60 < 60
    omega
  · rw [Moment.number]
    show (Date.ofNumber (number / 86400)).number * 86400 +
      (((number % 86400).toNat / 3600 : Nat) : Int) * 3600 +
      (((number % 86400).toNat / 60 % 60 : Nat) : Int) * 60 +
      (((number % 86400).toNat % 60 : Nat) : Int) = number
    rw [hnumber]
    omega

end FileMover.Framework.Calendar
