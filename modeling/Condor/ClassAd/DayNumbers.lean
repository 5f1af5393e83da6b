import Mathlib.Tactic.IntervalCases

/-! `day_numbers` takes both from `fixed_from_gregorian`, a closed formula for the number of a day.
All arithmetic is on `int`. -/
namespace Condor.ClassAd

/-- The value of an `int` operation, if it does not overflow. -/
def toInt? (n : Int) : Option Int := if -2 ^ 31 ≤ n ∧ n < 2 ^ 31 then some n else none

def isLeapYear (year : Int) : Bool :=
  let mod4 := year.tmod 4
  let mod400 := year.tmod 400
  mod4 = 0 && mod400 ≠ 100 && mod400 ≠ 200 && mod400 ≠ 300

/-- The sum is added up from the left; there is no result if it overflows on the way. -/
def fixedFromGregorian (year month day : Int) : Option Int := do
  let monthAdjustment := if month ≤ 2 then 0 else if isLeapYear year then -1 else -2
  let y ← toInt? (year - 1)
  let fixed ← toInt? (365 * y)
  let fixed ← toInt? (fixed + y.tdiv 4)
  let fixed ← toInt? (fixed - y.tdiv 100)
  let fixed ← toInt? (fixed + y.tdiv 400)
  let m ← toInt? (367 * month)
  let m ← toInt? (m - 362)
  let fixed ← toInt? (fixed + m.tdiv 12)
  let fixed ← toInt? (fixed + monthAdjustment)
  toInt? (fixed + day)

def dayNumbers (year month day : Int) : Option (Int × Int) := do
  let fixed ← fixedFromGregorian year month day
  let jan1Fixed ← fixedFromGregorian year 1 1
  let yearday ← toInt? (fixed - jan1Fixed)
  return (fixed.tmod 7, yearday)

/-! ### The proleptic Gregorian calendar -/

def leap (year : Int) : Prop := 4 ∣ year ∧ (¬ 100 ∣ year ∨ 400 ∣ year)

instance (year : Int) : Decidable (leap year) := inferInstanceAs (Decidable (_ ∧ _))

def daysInMonth (year month : Int) : Int :=
  if month = 2 then if leap year then 29 else 28
  else if month = 4 ∨ month = 6 ∨ month = 9 ∨ month = 11 then 30 else 31

structure Date where
  year : Int
  month : Int
  day : Int

namespace Date

/-- A date from the year 1 on. -/
structure Valid (d : Date) : Prop where
  year : 1 ≤ d.year
  month : 1 ≤ d.month ∧ d.month ≤ 12
  day : 1 ≤ d.day ∧ d.day ≤ daysInMonth d.year d.month

def next (d : Date) : Date :=
  if d.day < daysInMonth d.year d.month then { d with day := d.day + 1 }
  else if d.month < 12 then ⟨d.year, d.month + 1, 1⟩
  else ⟨d.year + 1, 1, 1⟩

end Date

/-- A date with its weekday, from Sunday on, and its day of the year. The calendar starts on
a Monday. -/
inductive Calendar : Date → Int → Int → Prop
  | first : Calendar ⟨1, 1, 1⟩ 1 0
  | next {d : Date} {weekday yearday : Int} : Calendar d weekday yearday →
      Calendar d.next ((weekday + 1) % 7) (if d.next.year = d.year then yearday + 1 else 0)

/-- The formula over all integers. -/
def fixedOf (d : Date) : Int :=
  365 * (d.year - 1) + (d.year - 1) / 4 - (d.year - 1) / 100 + (d.year - 1) / 400 +
    (367 * d.month - 362) / 12 +
    (if d.month ≤ 2 then 0 else if leap d.year then -1 else -2) + d.day

theorem isLeapYear_iff {year : Int} (positive : 1 ≤ year) : isLeapYear year = true ↔ leap year := by
  simp only [isLeapYear, leap, Int.tmod_eq_emod_of_nonneg (by omega : 0 ≤ year), Bool.and_eq_true,
    decide_eq_true_eq]
  omega

theorem daysInMonth_pos (year month : Int) : 28 ≤ daysInMonth year month := by
  simp only [daysInMonth]
  split_ifs <;> omega

theorem daysInMonth_le (year month : Int) : daysInMonth year month ≤ 31 := by
  simp only [daysInMonth]
  split_ifs <;> omega

variable {d : Date}

theorem Date.Valid.next (valid : d.Valid) : d.next.Valid := by
  obtain ⟨year, month, day⟩ := valid
  have long := daysInMonth_pos d.year (d.month + 1)
  have long' := daysInMonth_pos (d.year + 1) 1
  simp only [Date.next]
  split_ifs
  · exact ⟨year, month, by dsimp only; omega⟩
  · exact ⟨year, by dsimp only; omega, by dsimp only; omega⟩
  · exact ⟨by dsimp only; omega, by dsimp only; omega, by dsimp only; omega⟩

theorem fixedOf_next (valid : d.Valid) : fixedOf d.next = fixedOf d + 1 := by
  obtain ⟨year, month, day⟩ := d
  obtain ⟨positive, ⟨low, high⟩, first, last⟩ := valid
  dsimp only at positive low high first last
  by_cases same : day < daysInMonth year month
  · simp only [Date.next, if_pos same, fixedOf]
    omega
  · have ends : day = daysInMonth year month := by omega
    simp only [Date.next, fixedOf, ends, daysInMonth]
    interval_cases month <;> simp [leap] <;> (try split_ifs) <;> omega

theorem Date.next_year (other : d.next.year ≠ d.year) : d.next = ⟨d.next.year, 1, 1⟩ := by
  simp only [Date.next] at other ⊢
  split_ifs at other ⊢ <;> simp_all

variable {weekday n : Int} {α : Type}

theorem Calendar.numbers {yearday : Int} (known : Calendar d weekday yearday) :
    d.Valid ∧ weekday = fixedOf d % 7 ∧ yearday = fixedOf d - fixedOf ⟨d.year, 1, 1⟩ := by
  induction known with
  | first => exact ⟨⟨by decide, by decide, by decide⟩, by decide, by decide⟩
  | @next d weekday yearday _ ih =>
    obtain ⟨valid, week, number⟩ := ih
    have step := fixedOf_next valid
    refine ⟨valid.next, by omega, ?_⟩
    split_ifs with same
    · rw [same, number, step]
      omega
    · rw [← Date.next_year same, Int.sub_self]

/-! ### Every date is in the calendar -/

def InCalendar (d : Date) : Prop := ∃ weekday yearday, Calendar d weekday yearday

theorem InCalendar.next (known : InCalendar d) : InCalendar d.next := by
  obtain ⟨_, _, known⟩ := known
  exact ⟨_, _, known.next⟩

variable {year month : Int}

theorem inCalendar_day {day : Int} (known : InCalendar ⟨year, month, 1⟩) (low : 1 ≤ day)
    (high : day ≤ daysInMonth year month) : InCalendar ⟨year, month, day⟩ := by
  induction day, low using Int.leInduction with
  | base => exact known
  | succ day _ ih =>
    have step := (ih (by omega)).next
    rwa [Date.next, if_pos (by exact high)] at step

theorem InCalendar.month_ends (known : InCalendar ⟨year, month, 1⟩) :
    InCalendar (Date.next ⟨year, month, daysInMonth year month⟩) := by
  have long := daysInMonth_pos year month
  exact (inCalendar_day known (by omega) (Int.le_refl _)).next

theorem inCalendar_month (known : InCalendar ⟨year, 1, 1⟩) (low : 1 ≤ month)
    (high : month ≤ 12) : InCalendar ⟨year, month, 1⟩ := by
  induction month, low using Int.leInduction with
  | base => exact known
  | succ month _ ih =>
    have step := (ih (by omega)).month_ends
    rwa [Date.next, if_neg (Int.lt_irrefl _), if_pos (by dsimp only; omega)] at step

theorem inCalendar_year (positive : 1 ≤ year) : InCalendar ⟨year, 1, 1⟩ := by
  induction year, positive using Int.leInduction with
  | base => exact ⟨_, _, .first⟩
  | succ year _ ih =>
    have step := (inCalendar_month ih (by decide : (1 : Int) ≤ 12) (Int.le_refl _)).month_ends
    rwa [Date.next, if_neg (Int.lt_irrefl _), if_neg (Int.lt_irrefl _)] at step

theorem Date.Valid.inCalendar (valid : d.Valid) : InCalendar d :=
  inCalendar_day (inCalendar_month (inCalendar_year valid.year) valid.month.1 valid.month.2)
    valid.day.1 valid.day.2

/-! ### The `int` of the formula -/

theorem toInt?_bind (low : -2 ^ 31 ≤ n) (high : n < 2 ^ 31) (f : Int → Option α) :
    (toInt? n >>= f) = f n := by
  rw [toInt?, if_pos ⟨low, high⟩]
  rfl

theorem toInt?_overflow (high : 2 ^ 31 ≤ n) (f : Int → Option α) :
    (toInt? n >>= f) = none := by
  rw [toInt?, if_neg (by omega)]
  rfl

/-- The sum overflows first at the addition of the leap days, from the year 5879491 on. -/
theorem fixedFromGregorian_eq (valid : d.Valid) :
    fixedFromGregorian d.year d.month d.day =
      if d.year ≤ 5879490 then some (fixedOf d) else none := by
  obtain ⟨positive, ⟨low, high⟩, first, last⟩ := valid
  have short := daysInMonth_le d.year d.month
  simp only [fixedFromGregorian, isLeapYear_iff positive, fixedOf]
  have adjusted : ∀ c, c = (if d.month ≤ 2 then 0 else if leap d.year then -1 else (-2 : Int)) →
      -2 ≤ c ∧ c ≤ 0 := by
    intro c value
    split_ifs at value <;> omega
  generalize adjusts : (if d.month ≤ 2 then 0 else if leap d.year then -1 else (-2 : Int)) = c
  obtain ⟨few, many⟩ := adjusted c adjusts.symm
  split_ifs with fits
  · simp (disch := omega) only [toInt?_bind, Int.tdiv_eq_ediv_of_nonneg]
    exact if_pos (by omega)
  · by_cases int : d.year - 1 < 2 ^ 31
    · rw [toInt?_bind (by omega) int, Int.tdiv_eq_ediv_of_nonneg (by omega : 0 ≤ d.year - 1)]
      by_cases product : 365 * (d.year - 1) < 2 ^ 31
      · rw [toInt?_bind (by omega) product]
        exact toInt?_overflow (by omega) _
      · exact toInt?_overflow (by omega) _
    · exact toInt?_overflow (by omega) _

theorem Date.Valid.jan1 (valid : d.Valid) : Date.Valid ⟨d.year, 1, 1⟩ :=
  have long := daysInMonth_pos d.year 1
  ⟨valid.year, by dsimp only; omega, by dsimp only; omega⟩

theorem Date.Valid.yearday (valid : d.Valid) :
    0 ≤ fixedOf d ∧ 0 ≤ fixedOf d - fixedOf ⟨d.year, 1, 1⟩ ∧
      fixedOf d - fixedOf ⟨d.year, 1, 1⟩ < 400 := by
  obtain ⟨positive, ⟨low, high⟩, first, last⟩ := valid
  have short := daysInMonth_le d.year d.month
  simp only [fixedOf]
  split_ifs <;> omega

theorem dayNumbers_eq (valid : d.Valid) {yearday : Int} (known : Calendar d weekday yearday) :
    dayNumbers d.year d.month d.day =
      if d.year ≤ 5879490 then some (weekday, yearday) else none := by
  obtain ⟨-, week, number⟩ := known.numbers
  have first := fixedFromGregorian_eq valid.jan1
  dsimp only at first
  simp only [dayNumbers, fixedFromGregorian_eq valid, first]
  split_ifs with fits
  · obtain ⟨natural, low, high⟩ := valid.yearday
    simp only [Option.bind_eq_bind, Option.bind_some]
    rw [← Option.bind_eq_bind, toInt?_bind (by omega) (by omega), week, number,
      Int.tmod_eq_emod_of_nonneg natural]
    rfl
  · rfl

/-- The days are numbered one by one, and the weekday and the day of the year are those of the
calendar, up to the last year whose sums are an `int`. -/
theorem dayNumbers_iff (d : Date) (valid : d.Valid) :
    fixedFromGregorian 1 1 1 = some 1 ∧
    ((∃ n, fixedFromGregorian d.year d.month d.day = some n ∧
      fixedFromGregorian d.next.year d.next.month d.next.day = some (n + 1)) ↔
        d.next.year ≤ 5879490) ∧
    InCalendar d ∧
    ∀ weekday yearday, Calendar d weekday yearday →
      (dayNumbers d.year d.month d.day = some (weekday, yearday) ↔ d.year ≤ 5879490) := by
  refine ⟨by decide, ?_, valid.inCalendar, fun weekday yearday known => ?_⟩
  · rw [fixedFromGregorian_eq valid, fixedFromGregorian_eq valid.next]
    have later : d.year ≤ d.next.year := by
      simp only [Date.next]
      split_ifs <;> dsimp only <;> omega
    rw [fixedOf_next valid]
    split_ifs <;> simp <;> omega
  · rw [dayNumbers_eq valid known]
    split_ifs with fits <;> simp [fits]

theorem dayNumbers_iff_leap_day : Date.Valid ⟨2000, 2, 29⟩ ∧
    ∀ weekday yearday, Calendar ⟨2000, 2, 29⟩ weekday yearday →
      dayNumbers 2000 2 29 = some (weekday, yearday) := by
  have valid : Date.Valid ⟨2000, 2, 29⟩ := ⟨by decide, by decide, by decide⟩
  exact ⟨valid, fun _ _ known => ((dayNumbers_iff _ valid).2.2.2 _ _ known).mpr (by decide)⟩

/-- The year from which the sum overflows. -/
theorem dayNumbers_overflow :
    (fixedFromGregorian 5879490 12 31).isSome ∧ fixedFromGregorian 5879491 1 1 = none := by
  decide

end Condor.ClassAd
