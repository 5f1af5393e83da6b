import Mathlib.Data.List.DropRight
import Condor.Utils.Stdio

/-! `condor_crontab.cpp` and `date_util.cpp`: the five parameters are expanded into lists of values,
and the next run is searched from the months down to the minutes. The calendar functions of the host
are parameters. -/
namespace Condor.Utils.CronTab
open Condor.Utils

/-! ## Parameters -/

def minutesIdx : Nat := 0
def hoursIdx : Nat := 1
def domIdx : Nat := 2
def monthsIdx : Nat := 3
def dowIdx : Nat := 4
def yearsIdx : Nat := 5

/-- `CRONTAB_FIELDS`. -/
def fieldCount : Nat := 5

def dayOfMonthMax : Int := 31
def dayOfWeekMin : Int := 0
def dayOfWeekMax : Int := 7

def mins (idx : Nat) : Int := [0, 0, 1, 1, dayOfWeekMin].getD idx 0

def maxs (idx : Nat) : Int := [59, 23, dayOfMonthMax, 12, dayOfWeekMax].getD idx 0

/-- `CRONTAB_DELIMITER`, `CRONTAB_WILDCARD`, `CRONTAB_RANGE` and `CRONTAB_STEP`. -/
def delimiter : UInt8 := 44
def wildcard : UInt8 := 42
def rangeMark : UInt8 := 45
def stepMark : UInt8 := 47

/-- What `CRONTAB_PARAMETER_PATTERN` does not match: in its class the delimiter, the
range mark and the step mark are read as the range from `,` to `/`. -/
def allowed (c : UInt8) : Bool := isDigit c || (44 ≤ c && c ≤ 47) || c = wildcard || c = blank

def validateParameter (parameter : Bytes) : Bool := parameter.all allowed

def find (c : UInt8) (s : Bytes) : Int := if c ∈ s then s.idxOf c else -1

/-- What `MyString::GetNextToken` returns until it returns `NULL`, blank tokens skipped. -/
def tokens (delim : UInt8) (s : Bytes) : List Bytes := (s.splitOn delim).filter (· ≠ [])

def trim (s : Bytes) : Bytes := (s.dropWhile isSpace).rdropWhile isSpace

def splitStep (token : Bytes) : Bytes × Int :=
  if find stepMark token > 0 then
    match tokens stepMark token with
    | numerator :: step :: _ => (numerator, atoi (trim step))
    | [numerator] => (numerator, 1)
    | [] => ([], 1)
  else (token, 1)

/-- The values between which a token without its step selects, or `none` where the
token is skipped. -/
def bounds (idx : Nat) (min max : Int) (token : Bytes) : Option (Int × Int) :=
  if find rangeMark token > 0 then
    let ends := tokens rangeMark token
    let first := atoi (trim (ends.getD 0 []))
    let last := atoi (trim (ends.getD 1 []))
    some (if first ≥ min then first else min, if last ≤ max then last else max)
  else if find wildcard token ≥ 0 then
    -- A wildcard day of the week restricts nothing.
    if idx = dowIdx then none else some (min, max)
  else
    let value := atoi token
    if value ≥ min ∧ value ≤ max then some (value, value) else some (min, max)

def normalize (idx : Nat) (ctr : Int) : Int :=
  if idx = dowIdx ∧ ctr = dayOfWeekMax then dayOfWeekMin else ctr

/-- The loop that adds `count` values from `ctr` on; a step of zero is a division by
zero. -/
def fill (idx : Nat) (curStep : Int) : Nat → Int → List Int → Option (List Int)
  | 0, _, list => some list
  | count + 1, ctr, list =>
    if curStep = 0 then none
    else
      let temp := normalize idx ctr
      if temp.tmod curStep = 0 ∧ temp ∉ list then
        fill idx curStep count (ctr + 1) (list ++ [temp])
      else fill idx curStep count (ctr + 1) list

def expandToken (idx : Nat) (min max : Int) (list : List Int) (token : Bytes) : Option (List Int) :=
  let (numerator, curStep) := splitStep token
  match bounds idx min max numerator with
  | none => some list
  | some (curMin, curMax) => fill idx curStep (curMax - curMin + 1).toNat curMin list

def insertValue (sorted : List Int) (value : Int) : List Int :=
  sorted.rdropWhile (· > value) ++ value :: sorted.rtakeWhile (· > value)

def sort (list : List Int) : List Int := list.foldl insertValue []

/-- `CronTab::expandParameter`: whether the parameter is valid, and its values. -/
def expandParameter (idx : Nat) (min max : Int) (param : Bytes) : Option (Bool × List Int) :=
  if validateParameter param then do
    let list ← (tokens delimiter (param.filter (· ≠ blank))).foldlM (expandToken idx min max) []
    return (true, sort list)
  else some (false, [])

end Condor.Utils.CronTab

namespace Condor.Utils
open CronTab

structure CronTab where
  ranges : List (List Int)
  lastRunTime : Int
  valid : Bool
  deriving DecidableEq, Repr

namespace CronTab

def invalid : Int := -1

def range (cron : CronTab) (idx : Nat) : List Int := cron.ranges.getD idx []

/-- `CronTab::init`, unless expanding a parameter divides by zero. -/
def init (parameters : Nat → Bytes) : Option CronTab := do
  let expanded ← (List.range fieldCount).mapM fun ctr =>
    expandParameter ctr (mins ctr) (maxs ctr) (parameters ctr)
  return {
    ranges := expanded.map (·.2)
    lastRunTime := invalid
    valid := expanded.all (·.1) }

/-! ## Calendar -/

def leap (year : Int) : Bool :=
  (year.tmod 4 = 0 && year.tmod 100 ≠ 0) || year.tmod 400 = 0

def daysInMonth (month year : Int) : Int :=
  if month > 0 ∧ month ≤ 12 then
    [0, 31, 28, 31, 30, 31, 30, 31, 31, 30, 31, 30, 31].getD month.toNat 0 +
      (if month = 2 ∧ leap year then 1 else 0)
  else 0

def dayOfWeek (month day year : Int) : Int :=
  let (month, year) := if month < 3 then (month + 12, year - 1) else (month, year)
  (day + 1 + 2 * month + (6 * (month + 1)).tdiv 10 + year + year.tdiv 4 - year.tdiv 100 +
    year.tdiv 400).tmod 7

/-! ## The search -/

/-- The loop over the days of one weekday: `count` passes are enough to leave it. -/
def addWeekday : (count : Nat) → (day : Int) → List Int → List Int
  | 0, _, curRange => curRange
  | count + 1, day, curRange =>
    if day ≤ dayOfMonthMax then
      addWeekday count (day + 7)
        (if day > 0 ∧ day ∉ curRange then curRange ++ [day] else curRange)
    else curRange

/-- The days of the month that are selected by themselves or by their weekday. -/
def dayRange (cron : CronTab) (month year : Int) : List Int :=
  let dow := cron.range dowIdx
  let dom := cron.range domIdx
  let curRange :=
    if dom.length = dayOfMonthMax then
      if dow.length = dayOfWeekMax ∨ dow.length = 0 then dom else []
    else dom
  let firstDay := dayOfWeek month 1 year
  sort (dow.foldl (fun curRange weekday =>
    let day := weekday - firstDay + 1
    addWeekday (dayOfMonthMax + 1 - day).toNat day curRange) curRange)

abbrev Date := Nat → Int

def curRange (cron : CronTab) (idx : Nat) (found : Date) : List Int :=
  if idx = domIdx then cron.dayRange (found monthsIdx) (found yearsIdx) else cron.range idx

/-- A day that the month does not have is skipped. -/
def dayExists (idx : Nat) (found : Date) (value : Int) : Bool :=
  idx ≠ domIdx || value ≤ daysInMonth (found monthsIdx) (found yearsIdx)

/-- The loop of `CronTab::matchFields` over the values of a field; `below` is the call
for the next field. -/
def tryValues (idx : Nat) (curTime : Date) (useFirst : Bool)
    (below : Bool → Date → Bool × Date) : List Int → Bool → Date → Bool × Date
  | [], _, found => (false, found)
  | value :: rest, nextUseFirst, found =>
    if useFirst ∨ value ≥ curTime idx then
      let nextUseFirst := nextUseFirst || value > curTime idx
      if dayExists idx found value then
        match below nextUseFirst (Function.update found idx value) with
        | (true, found) => (true, found)
        | (false, found) => tryValues idx curTime useFirst below rest true found
      else tryValues idx curTime useFirst below rest nextUseFirst found
    else tryValues idx curTime useFirst below rest nextUseFirst found

def matchFields (cron : CronTab) (curTime : Date) : Nat → Bool → Date → Bool × Date
  | 0, useFirst, found =>
    tryValues 0 curTime useFirst (fun _ found => (true, found)) (cron.curRange 0 found)
      useFirst (Function.update found 0 (-1))
  | idx + 1, useFirst, found =>
    tryValues (idx + 1) curTime useFirst (matchFields cron curTime idx)
      (cron.curRange (idx + 1) found) useFirst (Function.update found (idx + 1) (-1))

/-- `CronTab::matchFields` for the months, through at most `years` years. It calls itself
with the next year until there is a match, so it never returns false. -/
def matchYears (cron : CronTab) (curTime : Date) : (years : Nat) → Bool → Date → Option Date
  | 0, _, _ => none
  | years + 1, useFirst, found =>
    match cron.matchFields curTime monthsIdx useFirst found with
    | (true, found) => some found
    | (false, found) =>
      matchYears cron curTime years true
        (Function.update found yearsIdx (found yearsIdx + 1))

structure Tm where
  sec : Int
  min : Int
  hour : Int
  mday : Int
  mon : Int
  year : Int
  wday : Int
  isdst : Int
  deriving DecidableEq, Repr

structure Host where
  localtime : Int → Tm
  mktime : Tm → Int

/-- `EXCEPT`: the run time is in the past. -/
structure PastRunTime where
  runtime : Int
  timestamp : Int
  deriving DecidableEq, Repr

def currentFields (tm : Tm) : Date := fun idx =>
  [tm.min, tm.hour, tm.mday, tm.mon + 1, tm.wday].getD idx 0

def initialMatch (tm : Tm) : Date := fun idx => if idx = yearsIdx then tm.year + 1900 else -1

def matchTime (found : Date) (isdst : Int) : Tm where
  sec := 0
  min := found minutesIdx
  hour := found hoursIdx
  mday := found domIdx
  mon := found monthsIdx - 1
  year := found yearsIdx - 1900
  wday := 0
  isdst := isdst

def roundUp (timestamp : Int) : Int := timestamp + (60 - timestamp.tmod 60)

/-- `CronTab::nextRunTime`, if its search ends within so many years. -/
def nextRunTime (cron : CronTab) (host : Host) (years : Nat) (timestamp : Int) :
    Option (Except PastRunTime Int × CronTab) :=
  if cron.valid then
    let timestamp := roundUp timestamp
    let tm := host.localtime timestamp
    match cron.matchYears (currentFields tm) years false (initialMatch tm) with
    | none => none
    | some found =>
      let runtime := host.mktime (matchTime found tm.isdst)
      if runtime < timestamp then some (.error ⟨runtime, timestamp⟩, cron)
      else some (.ok runtime, { cron with lastRunTime := runtime })
  else some (.ok invalid, { cron with lastRunTime := invalid })

end Condor.Utils.CronTab
