import Mathlib.Data.List.Perm.Subperm
import Mathlib.Order.Bounds.Basic
import Mathlib.Tactic.IntervalCases
import Condor.Utils.CronSearch

/-! In a zone with a fixed offset the search finds the least minute that the schedule selects. -/
namespace Condor.Utils.CronTab
open Condor.Utils

/-! ## The Gregorian calendar -/

def daysBefore (month year : Int) : Int :=
  [0, 0, 31, 59, 90, 120, 151, 181, 212, 243, 273, 304, 334, 365].getD month.toNat 0 +
    (if 2 < month ∧ leap year then 1 else 0)

def daysBeforeYear (year : Int) : Int :=
  365 * (year - 1) + (year - 1) / 4 - (year - 1) / 100 + (year - 1) / 400

def dayNumber (year month day : Int) : Int :=
  daysBeforeYear year + daysBefore month year + day - 719163

variable {year month zone : Int} {a b : Date} {tm : Tm} {host : Host}

theorem leap_iff : leap year = true ↔ year % 4 = 0 ∧ year % 100 ≠ 0 ∨ year % 400 = 0 := by
  have four : year.tmod 4 = 0 ↔ year % 4 = 0 := by
    rw [← Int.dvd_iff_tmod_eq_zero, Int.dvd_iff_emod_eq_zero]
  have hundred : year.tmod 100 = 0 ↔ year % 100 = 0 := by
    rw [← Int.dvd_iff_tmod_eq_zero, Int.dvd_iff_emod_eq_zero]
  have cycle : year.tmod 400 = 0 ↔ year % 400 = 0 := by
    rw [← Int.dvd_iff_tmod_eq_zero, Int.dvd_iff_emod_eq_zero]
  simp only [leap, ne_eq, Bool.or_eq_true, Bool.and_eq_true, decide_eq_true_eq, four, hundred,
    cycle]

theorem leap_day (year : Int) : (if leap year then 1 else 0 : Int) =
    year / 4 - year / 100 + year / 400 - (year - 1) / 4 + (year - 1) / 100 - (year - 1) / 400 := by
  split
  · next isLeap =>
      have rule := leap_iff.mp isLeap
      omega
  · next common =>
      have rule := mt leap_iff.mpr common
      omega

theorem daysBeforeYear_succ (year : Int) :
    daysBeforeYear (year + 1) = daysBeforeYear year + daysBefore 13 year := by
  have length : daysBefore 13 year = 365 + if leap year then 1 else 0 := by
    simp [daysBefore]
  rw [length, leap_day, daysBeforeYear, daysBeforeYear]
  omega

theorem daysBefore_succ (first : 1 ≤ month) (last : month ≤ 12) (year : Int) :
    daysBefore (month + 1) year = daysBefore month year + daysInMonth month year := by
  interval_cases month <;> simp [daysBefore, daysInMonth] <;> split <;> rfl

theorem daysBefore_mono {month' : Int} (first : 1 ≤ month) (le : month ≤ month')
    (last : month' ≤ 13) : daysBefore month year ≤ daysBefore month' year := by
  obtain ⟨k, rfl⟩ := Int.le.dest le
  induction k with
  | zero => simp
  | succ k ih =>
    have before := ih (by omega) (by omega)
    have long := twentyEight_le_daysInMonth (by omega : 1 ≤ month + k) (by omega) year
    have next := daysBefore_succ (by omega : 1 ≤ month + k) (by omega) year
    rw [show month + ↑(k + 1) = month + k + 1 by omega, next]
    omega

theorem daysInMonth_le_max (first : 1 ≤ month) (last : month ≤ 12) (year : Int) :
    daysInMonth month year ≤ dayOfMonthMax := by
  refine (daysInMonth_le month year).trans ?_
  interval_cases month <;> decide

structure InRange (d : Date) : Prop where
  minute : 0 ≤ d minutesIdx ∧ d minutesIdx < 60
  hour : 0 ≤ d hoursIdx ∧ d hoursIdx < 24
  month : 1 ≤ d monthsIdx ∧ d monthsIdx ≤ 12
  day : 1 ≤ d domIdx ∧ d domIdx ≤ daysInMonth (d monthsIdx) (d yearsIdx)

def dayOf (d : Date) : Int := dayNumber (d yearsIdx) (d monthsIdx) (d domIdx)

def minuteOf (d : Date) : Int := 1440 * dayOf d + 60 * d hoursIdx + d minutesIdx

theorem dayOf_lt_of_year (inA : InRange a) (inB : InRange b) (later : a yearsIdx < b yearsIdx) :
    dayOf a < dayOf b := by
  have year : daysBeforeYear (a yearsIdx + 1) ≤ daysBeforeYear (b yearsIdx) := by
    unfold daysBeforeYear
    omega
  have next := daysBeforeYear_succ (a yearsIdx)
  have inYear := daysBefore_succ inA.month.1 inA.month.2 (a yearsIdx)
  have last : daysBefore (a monthsIdx + 1) (a yearsIdx) ≤ daysBefore 13 (a yearsIdx) :=
    daysBefore_mono (by have := inA.month; omega) (by have := inA.month; omega) le_rfl
  have first : daysBefore 1 (b yearsIdx) ≤ daysBefore (b monthsIdx) (b yearsIdx) :=
    daysBefore_mono le_rfl inB.month.1 (by have := inB.month; omega)
  have zero : daysBefore 1 (b yearsIdx) = 0 := rfl
  have dayA := inA.day
  have dayB := inB.day
  unfold dayOf dayNumber
  omega

theorem dayOf_lt_of_month (inA : InRange a) (inB : InRange b) (same : a yearsIdx = b yearsIdx)
    (later : a monthsIdx < b monthsIdx) : dayOf a < dayOf b := by
  have inYear := daysBefore_succ inA.month.1 inA.month.2 (a yearsIdx)
  have order : daysBefore (a monthsIdx + 1) (a yearsIdx) ≤ daysBefore (b monthsIdx) (a yearsIdx) :=
    daysBefore_mono (by have := inA.month; omega) later (by have := inB.month; omega)
  have dayA := inA.day
  have dayB := inB.day
  unfold dayOf dayNumber
  rw [← same]
  omega

/-- The order in which the years are searched, and the fields in each year. -/
def Precedes (a b : Date) : Prop :=
  a yearsIdx < b yearsIdx ∨ a yearsIdx = b yearsIdx ∧ NotAfter (monthsIdx + 1) a b

theorem precedes_def : Precedes a b ↔ a yearsIdx < b yearsIdx ∨
    a yearsIdx = b yearsIdx ∧ (a monthsIdx < b monthsIdx ∨ a monthsIdx = b monthsIdx ∧
      (a domIdx < b domIdx ∨ a domIdx = b domIdx ∧ (a hoursIdx < b hoursIdx ∨
        a hoursIdx = b hoursIdx ∧
          (a minutesIdx < b minutesIdx ∨ a minutesIdx = b minutesIdx)))) := by
  rw [← and_true (a minutesIdx = b minutesIdx)]
  exact Iff.rfl

theorem precedes_iff (inA : InRange a) (inB : InRange b) :
    Precedes a b ↔ minuteOf a ≤ minuteOf b := by
  have minuteA := inA.minute
  have minuteB := inB.minute
  have hourA := inA.hour
  have hourB := inB.hour
  rw [precedes_def, minuteOf, minuteOf]
  rcases lt_trichotomy (a yearsIdx) (b yearsIdx) with earlier | sameYear | later
  · have := dayOf_lt_of_year inA inB earlier
    omega
  · rcases lt_trichotomy (a monthsIdx) (b monthsIdx) with earlier | sameMonth | later
    · have := dayOf_lt_of_month inA inB sameYear earlier
      omega
    · have days : dayOf a - dayOf b = a domIdx - b domIdx := by
        rw [dayOf, dayOf, dayNumber, dayNumber, sameYear, sameMonth]
        omega
      omega
    · have := dayOf_lt_of_month inB inA sameYear.symm later
      omega
  · have := dayOf_lt_of_year inB inA later
    omega

theorem eq_of_minuteOf (inA : InRange a) (inB : InRange b)
    (rest : ∀ j, monthsIdx < j → j ≠ yearsIdx → a j = b j) (same : minuteOf a = minuteOf b) :
    a = b := by
  have before := precedes_def.mp ((precedes_iff inA inB).mpr same.le)
  have after := precedes_def.mp ((precedes_iff inB inA).mpr same.ge)
  funext j
  by_cases isYear : j = yearsIdx
  · rw [isYear]
    omega
  · by_cases above : monthsIdx < j
    · exact rest j above isYear
    · have small : j ≤ 3 := Nat.not_lt.mp above
      simp only [monthsIdx, domIdx, hoursIdx, minutesIdx] at before after
      interval_cases j <;> omega

/-- The weekday of the first of a month is right from year 1 on. -/
theorem dayOfWeek_eq (first : 1 ≤ month) (last : month ≤ 12) (positive : 1 ≤ year) :
    dayOfWeek month 1 year = (dayNumber year month 1 + 4) % 7 := by
  have remainder : ∀ {c y : Int}, 0 ≤ c → 0 ≤ y →
      (c + y + y.tdiv 4 - y.tdiv 100 + y.tdiv 400).tmod 7 =
        (c + y + y / 4 - y / 100 + y / 400) % 7 := by
    intro c y _ least
    rw [Int.tdiv_eq_ediv_of_nonneg least, Int.tdiv_eq_ediv_of_nonneg least,
      Int.tdiv_eq_ediv_of_nonneg least, Int.tmod_eq_emod_of_nonneg (by omega)]
  unfold dayOfWeek dayNumber daysBeforeYear daysBefore
  interval_cases month
  all_goals
    simp only [leap_day, Int.reduceLT, Int.reduceAdd, Int.reduceMul, Int.reduceTDiv, if_true,
      if_false, true_and, false_and, Int.reduceToNat, List.getD_cons_succ, List.getD_cons_zero]
    rw [remainder (by decide) (by omega)]
    omega

/-! ## A zone with a fixed offset -/

def dateOf (tm : Tm) : Date := fun idx =>
  if idx = yearsIdx then tm.year + 1900 else if idx ≤ monthsIdx then currentFields tm idx else -1

theorem dateOf_matchTime {found : Date}
    (rest : ∀ j, monthsIdx < j → j ≠ yearsIdx → dateOf tm j = found j) (isdst : Int) :
    dateOf (matchTime found isdst) = found := by
  funext j
  by_cases isYear : j = yearsIdx
  · rw [isYear]
    exact Int.sub_add_cancel ..
  · by_cases above : monthsIdx < j
    · rw [← rest j above isYear, dateOf, dateOf, if_neg isYear, if_neg isYear,
        if_neg (Nat.not_le.mpr above), if_neg (Nat.not_le.mpr above)]
    · have small : j ≤ 3 := Nat.not_lt.mp above
      interval_cases j
      · rfl
      · rfl
      · rfl
      · exact Int.sub_add_cancel ..

/-- `localtime` and `mktime` of a zone that is `zone` seconds ahead. -/
structure FixedOffset (host : Host) (zone : Int) : Prop where
  inRange : ∀ t, InRange (dateOf (host.localtime t))
  second : ∀ t, 0 ≤ (host.localtime t).sec ∧ (host.localtime t).sec < 60
  time : ∀ t, 60 * minuteOf (dateOf (host.localtime t)) + (host.localtime t).sec = t + zone
  weekday : ∀ t, (host.localtime t).wday = (dayOf (dateOf (host.localtime t)) + 4) % 7
  mktime : ∀ tm, InRange (dateOf tm) → tm.sec = 0 →
    host.mktime tm = 60 * minuteOf (dateOf tm) - zone

structure Runs (cron : CronTab) (day : Tm → Prop) (tm : Tm) : Prop where
  whole : tm.sec = 0
  month : tm.mon + 1 ∈ cron.range monthsIdx
  hour : tm.hour ∈ cron.range hoursIdx
  minute : tm.min ∈ cron.range minutesIdx
  day : day tm

variable {cron : CronTab}

theorem Runs.congr {day day' : Tm → Prop} (same : day tm ↔ day' tm) :
    cron.Runs day tm ↔ cron.Runs day' tm :=
  ⟨fun runs => { runs with day := same.mp runs.day },
    fun runs => { runs with day := same.mpr runs.day }⟩

/-- The weekday is one of the schedule, or the day of the month is, unless all days of the
month and not all weekdays are listed. -/
def DayMatches (cron : CronTab) (tm : Tm) : Prop :=
  tm.wday ∈ cron.range dowIdx ∨ tm.mday ∈ cron.range domIdx ∧
    ¬((cron.range domIdx).length = 31 ∧ 1 ≤ (cron.range dowIdx).length ∧
      (cron.range dowIdx).length ≤ 6)

/-- The day is one of the days that the search tries. -/
def DayListed (cron : CronTab) (tm : Tm) : Prop :=
  tm.mday ∈ cron.dayRange (tm.mon + 1) (tm.year + 1900)

theorem length_dow_le {parameters : Nat → Bytes}
    (built : init parameters = some cron) : (cron.range dowIdx).length ≤ 7 := by
  obtain ⟨increasing, within⟩ := init_within built (by decide : dowIdx < fieldCount)
  have nodup : (cron.range dowIdx).Nodup := increasing.imp fun below => ne_of_lt below
  have weekdays : cron.range dowIdx ⊆ [0, 1, 2, 3, 4, 5, 6] := by
    intro v member
    have least : 0 ≤ v := (within v member).least
    have greatest : v < 7 := (within v member).weekday rfl
    interval_cases v <;> decide
  exact (List.subperm_of_subset nodup weekdays).length_le

/-- The days that the search tries are those that match. -/
theorem dayListed_iff {parameters : Nat → Bytes} (built : init parameters = some cron)
    (fixed : FixedOffset host zone) (m : Int)
    (known : cron.range dowIdx = [] ∨ 1 ≤ (host.localtime m).year + 1900) :
    cron.DayListed (host.localtime m) ↔ cron.DayMatches (host.localtime m) := by
  have weekdays := length_dow_le built
  have within := (init_within built (by decide : dowIdx < fieldCount)).2
  have isWeekday := fixed.weekday m
  have inRange := fixed.inRange m
  generalize host.localtime m = tm at *
  have first : 1 ≤ tm.mon + 1 ∧ tm.mon + 1 ≤ 12 := inRange.month
  have isDay : 1 ≤ tm.mday ∧ tm.mday ≤ daysInMonth (tm.mon + 1) (tm.year + 1900) := inRange.day
  have short := daysInMonth_le_max first.1 first.2 (tm.year + 1900)
  rw [DayListed, mem_dayRange, or_comm]
  refine or_congr ?_ (and_congr_right fun _ => ?_)
  · rcases known with anyWeekday | positive
    · simp [anyWeekday]
    · have firstDay := dayOfWeek_eq first.1 first.2 positive
      have number : dayOf (dateOf tm) =
          dayNumber (tm.year + 1900) (tm.mon + 1) 1 + (tm.mday - 1) := by
        change dayNumber (tm.year + 1900) (tm.mon + 1) tm.mday = _
        rw [dayNumber, dayNumber]
        omega
      constructor
      · rintro ⟨weekday, member, -, -, -, sameDay⟩
        have least : 0 ≤ weekday := (within weekday member).least
        have greatest : weekday < 7 := (within weekday member).weekday rfl
        have same : tm.wday = weekday := by omega
        rwa [same]
      · intro member
        exact ⟨tm.wday, member, by omega, by omega, by omega, by omega⟩
  · simp only [dayOfMonthMax, dayOfWeekMax]
    omega

theorem Meets.inRange {parameters : Nat → Bytes}
    (built : init parameters = some cron) {d : Date} (meets : cron.Meets (monthsIdx + 1) d) :
    InRange d := by
  have minute := (init_within built (by decide : minutesIdx < fieldCount)).2 _
    (meets minutesIdx (by decide)).1
  have hour := (init_within built (by decide : hoursIdx < fieldCount)).2 _
    (meets hoursIdx (by decide)).1
  have month := (init_within built (by decide : monthsIdx < fieldCount)).2 _
    (meets monthsIdx (by decide)).1
  obtain ⟨isDay, inMonth⟩ := meets domIdx (by decide)
  refine ⟨⟨minute.least, Int.lt_add_one_of_le minute.greatest⟩,
    ⟨hour.least, Int.lt_add_one_of_le hour.greatest⟩, ⟨month.least, month.greatest⟩, ?_, ?_⟩
  · rcases mem_dayRange.mp isDay with listed | ⟨weekday, -, positive, -⟩
    · exact ((init_within built (by decide : domIdx < fieldCount)).2 _ listed.1).least
    · exact positive
  · simpa [dayExists] using inMonth

theorem runs_iff_meets (inRange : InRange (dateOf tm)) :
    cron.Runs cron.DayListed tm ↔ tm.sec = 0 ∧ cron.Meets (monthsIdx + 1) (dateOf tm) := by
  constructor
  · rintro ⟨whole, month, hour, minute, day⟩
    refine ⟨whole, fun idx below => ?_⟩
    have small : idx < 4 := below
    interval_cases idx
    · exact ⟨minute, rfl⟩
    · exact ⟨hour, rfl⟩
    · exact ⟨day, decide_eq_true inRange.day.2⟩
    · exact ⟨month, rfl⟩
  · rintro ⟨whole, meets⟩
    exact ⟨whole, (meets monthsIdx (by decide)).1, (meets hoursIdx (by decide)).1,
      (meets minutesIdx (by decide)).1, (meets domIdx (by decide)).1⟩

variable {t m : Int}

/-- The search finds the least minute that is listed, from the minute of the rounded time
on; a minute that has begun at that time is in the past. -/
theorem nextRunTime_finds {parameters : Nat → Bytes} (built : init parameters = some cron)
    (valid : cron.valid = true) (fixed : FixedOffset host zone) {years : Nat}
    {result : Except PastRunTime Int} {cron' : CronTab}
    (returned : cron.nextRunTime host years t = some (result, cron')) :
    ∃ m, IsLeast {m | roundUp t - 60 < m ∧ cron.Runs cron.DayListed (host.localtime m)} m ∧
      result = if m < roundUp t then .error ⟨m, roundUp t⟩ else .ok m := by
  simp only [nextRunTime, valid, if_true] at returned
  split at returned
  · cases returned
  · next found ended =>
      obtain ⟨isDate, smallest⟩ := matchYears_finds (curRange_increasing built) years false _ ended
      have others : ∀ tm : Tm, ∀ j, monthsIdx < j → j ≠ yearsIdx → dateOf tm j = found j := by
        intro tm j above other
        rw [isDate.rest j above other, initialMatch, if_neg other, dateOf, if_neg other,
          if_neg (Nat.not_le.mpr above)]
      have inRange := isDate.candidate.1.inRange built
      have now := fixed.time (roundUp t)
      have second := fixed.second (roundUp t)
      -- the dates of the search are those from the minute of the rounded time on
      have dates : ∀ d, (∀ j, monthsIdx < j → j ≠ yearsIdx → d j = found j) →
          cron.Meets (monthsIdx + 1) d →
          (FromYear cron (currentFields (host.localtime (roundUp t))) false
            (initialMatch (host.localtime (roundUp t))) d ↔
            minuteOf (dateOf (host.localtime (roundUp t))) ≤ minuteOf d) := by
        intro d rest meets
        rw [← precedes_iff (fixed.inRange _) (meets.inRange built)]
        constructor
        · rintro ⟨-, year, -, later | order⟩
          · exact .inl (of_decide_eq_true later)
          · exact (eq_or_lt_of_le year).symm.imp id fun same => ⟨same, order⟩
        · intro order
          refine ⟨fun j above other => (rest j above other).trans (isDate.rest j above other),
            ?_, meets, ?_⟩
          · exact order.elim le_of_lt fun same => same.1.le
          · exact order.imp decide_eq_true And.right
      have start := (dates found (fun _ _ _ => rfl) isDate.candidate.1).mp isDate
      have matched : dateOf (matchTime found (host.localtime (roundUp t)).isdst) = found :=
        dateOf_matchTime (others (host.localtime t)) _
      have runtime := fixed.mktime (matchTime found (host.localtime (roundUp t)).isdst)
        (by rwa [matched]) rfl
      rw [matched] at runtime
      refine ⟨60 * minuteOf found - zone, ⟨⟨by omega, ?_⟩, ?_⟩, ?_⟩
      · have time := fixed.time (60 * minuteOf found - zone)
        have small := fixed.second (60 * minuteOf found - zone)
        have same : dateOf (host.localtime (60 * minuteOf found - zone)) = found :=
          eq_of_minuteOf (fixed.inRange _) inRange (others _) (by omega)
        refine (runs_iff_meets (fixed.inRange _)).mpr ⟨by omega, ?_⟩
        rw [same]
        exact isDate.candidate.1
      · rintro m ⟨late, runs⟩
        have time := fixed.time m
        obtain ⟨whole, meets⟩ := (runs_iff_meets (fixed.inRange _)).mp runs
        have order := smallest _ ((dates _ (others _) meets).mpr (by omega))
        have le := (precedes_iff inRange (fixed.inRange m)).mp order
        omega
      · rw [runtime] at returned
        split at returned
        · next past =>
            rw [if_pos past]
            exact (congrArg Prod.fst (Option.some.inj returned)).symm
        · next future =>
            rw [if_neg future]
            exact (congrArg Prod.fst (Option.some.inj returned)).symm

theorem hasDate_of_runs (fixed : FixedOffset host zone)
    (runs : cron.Runs cron.DayMatches (host.localtime m)) :
    cron.HasDate := by
  refine ⟨List.ne_nil_of_mem runs.minute, List.ne_nil_of_mem runs.hour,
    List.ne_nil_of_mem runs.month, ?_⟩
  rcases runs.day with weekday | ⟨listed, -⟩
  · exact .inl (List.ne_nil_of_mem weekday)
  · exact .inr ⟨_, runs.month, _, listed, (fixed.inRange m).day.2.trans (daysInMonth_le _ _)⟩

/-- When the search from the rounded time answers for the time itself. -/
structure Answers (cron : CronTab) (host : Host) (t : Int) : Prop where
  /-- rounding leaves out no minute of the schedule -/
  rounded : ∀ m, t < m → m < roundUp t → ¬cron.Runs cron.DayMatches (host.localtime m)
  /-- the minute of the rounded time starts with it, or is not tried -/
  started : ∀ m, roundUp t - 60 < m → m < roundUp t →
    ¬cron.Runs cron.DayListed (host.localtime m)
  /-- the weekdays are known, or do not matter for the first minute -/
  weekdays : cron.range dowIdx = [] ∨ 1 ≤ (host.localtime (roundUp t)).year + 1900 ∨
    ∃ m, roundUp t ≤ m ∧ cron.Runs cron.DayListed (host.localtime m) ∧
      cron.Runs cron.DayMatches (host.localtime m) ∧ ∀ m', roundUp t ≤ m' → m' < m →
        ¬cron.Runs cron.DayListed (host.localtime m') ∧
          ¬cron.Runs cron.DayMatches (host.localtime m')

theorem year_mono {m' : Int} (fixed : FixedOffset host zone) (le : m ≤ m') :
    (host.localtime m).year ≤ (host.localtime m').year := by
  have time := fixed.time m
  have time' := fixed.time m'
  have second := fixed.second m
  have second' := fixed.second m'
  have order := precedes_def.mp ((precedes_iff (fixed.inRange m) (fixed.inRange m')).mpr (by omega))
  change (host.localtime m).year + 1900 < (host.localtime m').year + 1900 ∨
    (host.localtime m).year + 1900 = (host.localtime m').year + 1900 ∧ _ at order
  omega

/-- From 1970 on, in a zone of whole minutes, the search answers. -/
theorem Answers.of_nonneg (fixed : FixedOffset host zone) (minutes : zone % 60 = 0) (since : 0 ≤ t)
    (year : 1 ≤ (host.localtime (roundUp t)).year + 1900) :
    cron.Answers host t := by
  have rounding : roundUp t = t + (60 - t % 60) := by
    rw [roundUp, Int.tmod_eq_emod_of_nonneg since]
  have whole : ∀ {m} {day : Tm → Prop}, cron.Runs day (host.localtime m) → m % 60 = 0 := by
    intro m day runs
    have := fixed.time m
    have := runs.whole
    omega
  refine ⟨fun m later early runs => ?_, fun m later early runs => ?_, .inr (.inl year)⟩
  · have := whole runs
    omega
  · have := whole runs
    omega

/-- The last month that starts by a day of the year, among the first `count + 1`. -/
def monthAt (year day : Int) : (count : Nat) → Int
  | 0 => 1
  | count + 1 => if daysBefore (count + 2) year ≤ day then count + 2 else monthAt year day count

theorem monthAt_spec {day : Int} (least : 0 ≤ day) :
    ∀ (count : Nat), count ≤ 11 → day < daysBefore (count + 2) year →
      1 ≤ monthAt year day count ∧ monthAt year day count ≤ 12 ∧
      daysBefore (monthAt year day count) year ≤ day ∧
      day < daysBefore (monthAt year day count + 1) year
  | 0, _, greatest => ⟨le_rfl, (by decide : (1 : Int) ≤ 12), least, greatest⟩
  | count + 1, bound, greatest => by
    unfold monthAt
    split
    · next started =>
        exact ⟨by omega, by omega, started, by simpa [add_assoc] using greatest⟩
    · next early => exact monthAt_spec least count (by omega) (by omega)

/-- The year of a day, which is counted from the start of year 1. -/
def yearAt (day : Int) : Int :=
  let year := day % 146097 / 365
  400 * (day / 146097) + if daysBeforeYear (year + 1) ≤ day % 146097 then year + 1 else year

theorem daysBeforeYear_cycle (cycle year : Int) :
    daysBeforeYear (400 * cycle + year) = 146097 * cycle + daysBeforeYear year := by
  unfold daysBeforeYear
  omega

theorem yearAt_spec (day : Int) :
    daysBeforeYear (yearAt day) ≤ day ∧ day < daysBeforeYear (yearAt day + 1) := by
  have split := Int.mul_ediv_add_emod day 146097
  have range : 0 ≤ day % 146097 ∧ day % 146097 < 146097 := by omega
  unfold yearAt
  generalize day / 146097 = cycle at *
  generalize day % 146097 = rest at *
  dsimp only
  rw [add_assoc, daysBeforeYear_cycle, daysBeforeYear_cycle]
  split
  · unfold daysBeforeYear at *
    omega
  · unfold daysBeforeYear at *
    omega

def utc : Host where
  localtime t :=
    let day := t / 86400 + 719162
    let year := yearAt day
    let month := monthAt year (day - daysBeforeYear year) 11
    { sec := t % 60, min := t / 60 % 60, hour := t / 3600 % 24,
      mday := day - daysBeforeYear year - daysBefore month year + 1, mon := month - 1,
      year := year - 1900, wday := (t / 86400 + 4) % 7, isdst := 0 }
  mktime tm := 60 * minuteOf (dateOf tm)

theorem fixedOffset_utc : FixedOffset utc 0 := by
  have calendar : ∀ t, InRange (dateOf (utc.localtime t)) ∧
      dayOf (dateOf (utc.localtime t)) = t / 86400 := by
    intro t
    have inYear := yearAt_spec (t / 86400 + 719162)
    have length := daysBeforeYear_succ (yearAt (t / 86400 + 719162))
    obtain ⟨first, last, started, ends⟩ :=
      @monthAt_spec (yearAt (t / 86400 + 719162)) (t / 86400 + 719162 -
        daysBeforeYear (yearAt (t / 86400 + 719162))) (by omega) 11 le_rfl (by
          show _ < daysBefore 13 _
          omega)
    have month := daysBefore_succ first last (yearAt (t / 86400 + 719162))
    have sameYear : dateOf (utc.localtime t) yearsIdx = yearAt (t / 86400 + 719162) :=
      Int.sub_add_cancel ..
    have sameMonth : dateOf (utc.localtime t) monthsIdx = monthAt _ _ 11 := Int.sub_add_cancel ..
    have day : dateOf (utc.localtime t) domIdx = t / 86400 + 719162 -
      daysBeforeYear (yearAt (t / 86400 + 719162)) - daysBefore (monthAt _ _ 11) _ + 1 := rfl
    have minute : dateOf (utc.localtime t) minutesIdx = t / 60 % 60 := rfl
    have hour : dateOf (utc.localtime t) hoursIdx = t / 3600 % 24 := rfl
    refine ⟨⟨by omega, by omega, by omega, ?_⟩, ?_⟩
    · rw [sameMonth, sameYear, day]
      omega
    · rw [dayOf, dayNumber, sameMonth, sameYear, day]
      omega
  have second : ∀ t, (utc.localtime t).sec = t % 60 := fun _ => rfl
  refine ⟨fun t => (calendar t).1, fun t => ?_, fun t => ?_, fun t => ?_, fun tm _ _ => ?_⟩
  · rw [second]
    omega
  · rw [minuteOf, (calendar t).2, second]
    change 60 * (1440 * (t / 86400) + 60 * (t / 3600 % 24) + t / 60 % 60) + t % 60 = _
    omega
  · rw [(calendar t).2]
    rfl
  · exact (Int.sub_zero _).symm

def everyMinute : CronTab where
  ranges := [(List.range 60).map Int.ofNat, (List.range 24).map Int.ofNat,
    (List.range' 1 31).map Int.ofNat, (List.range' 1 12).map Int.ofNat, []]
  lastRunTime := invalid
  valid := true

theorem init_everyMinute : init (parameters "*" "*" "*" "*" "*") = some everyMinute := by
  decide +kernel

instance (cron : CronTab) (tm : Tm) : Decidable (cron.Runs cron.DayMatches tm) :=
  decidable_of_iff (tm.sec = 0 ∧ tm.mon + 1 ∈ cron.range monthsIdx ∧
    tm.hour ∈ cron.range hoursIdx ∧ tm.min ∈ cron.range minutesIdx ∧
    (tm.wday ∈ cron.range dowIdx ∨ tm.mday ∈ cron.range domIdx ∧
      ¬((cron.range domIdx).length = 31 ∧ 1 ≤ (cron.range dowIdx).length ∧
        (cron.range dowIdx).length ≤ 6)))
    ⟨fun ⟨whole, month, hour, minute, day⟩ => ⟨whole, month, hour, minute, day⟩,
      fun ⟨whole, month, hour, minute, day⟩ => ⟨whole, month, hour, minute, day⟩⟩

end Condor.Utils.CronTab
