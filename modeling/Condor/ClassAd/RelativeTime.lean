import Mathlib.Data.Rat.Floor
import Condor.ClassAd.IntegerLiterals

/-! `relTimeToString` prints `[-][[[days+]hh:]mm:]ss`, without the leading fields that are zero.
`Literal::MakeRelTime` reads such a text from its end. -/
namespace Condor.ClassAd
open Condor.Utils

structure RealText where
  /-- The `int` that a `double` becomes which no `int` holds. -/
  outOfRange : ℚ → Int
  format02g : ℚ → Bytes
  strtod : Bytes → ℚ

/-- `(int) r`. -/
def RealText.toInt (text : RealText) (r : ℚ) : Int :=
  if r < 2 ^ 31 ∧ -2 ^ 31 - 1 < r then (if r < 0 then ⌈r⌉ else ⌊r⌋) else text.outOfRange r

def format02d (i : Int) : Bytes :=
  if 0 ≤ i ∧ i < 10 then 48 :: unparseInteger i else unparseInteger i

def relTimeToString (text : RealText) (rsecs : ℚ) : Bytes :=
  let sign := if rsecs < 0 then ascii "-" else []
  let rsecs := if rsecs < 0 then -rsecs else rsecs
  let fractionalSeconds := rsecs - ⌊rsecs⌋
  let days := text.toInt rsecs
  let hrs := days.tmod 86400
  let mins := hrs.tmod 3600
  let secs : ℚ := mins.tmod 60 + fractionalSeconds
  let days := days.tdiv 86400
  let hrs := hrs.tdiv 3600
  let mins := mins.tdiv 60
  let last := if fractionalSeconds = 0 then format02d (text.toInt secs) else text.format02g secs
  sign ++
    if days ≠ 0 then
      unparseInteger days ++ 43 :: format02d hrs ++ 58 :: format02d mins ++ 58 :: last
    else if hrs ≠ 0 then format02d hrs ++ 58 :: format02d mins ++ 58 :: last
    else if mins ≠ 0 then format02d mins ++ 58 :: last
    else last

def prevNonSpaceChar (rev : Bytes) : Bytes := rev.dropWhile isSpace

/-- The seconds, which may have a fraction and an `s` behind them. -/
def secondsField (strtod : Bytes → ℚ) (rev : Bytes) : ℚ × Bytes :=
  let rev := prevNonSpaceChar rev
  if at? (fun c => toLower c = 115 || isDigit c) rev then
    let rev := prevNonSpaceChar (windIf (at? (toLower · = 115) rev) rev)
    let digits := rev.takeWhile isDigit
    let rev := rev.dropWhile isDigit
    if starts '.' rev then
      (strtod (digits ++ 46 :: rev.tail.takeWhile isDigit).reverse, rev.tail.dropWhile isDigit)
    else (strtod digits.reverse, rev)
  else (0, rev)

def timeField (unit : UInt8 → Bool) (rev : Bytes) : Int × Bytes :=
  let rev := prevNonSpaceChar rev
  if at? unit rev then
    let rev := prevNonSpaceChar rev.tail
    (atoi (rev.takeWhile isDigit).reverse, rev.dropWhile isDigit)
  else (0, rev)

def isMinuteUnit (c : UInt8) : Bool := toLower c = 109 || c = 58
def isHourUnit (c : UInt8) : Bool := toLower c = 104 || c = 58
def isDayUnit (c : UInt8) : Bool := toLower c = 100 || c = 43

def makeRelTime (strtod : Bytes → ℚ) (timeStr : Bytes) : Literal :=
  let (secs, rev) := secondsField strtod timeStr.reverse
  let (mins, rev) := timeField isMinuteUnit rev
  let (hrs, rev) := timeField isHourUnit rev
  let (days, rev) := timeField isDayUnit rev
  let rev := prevNonSpaceChar rev
  let negative := starts '-' rev
  let rev := prevNonSpaceChar (windIf negative rev)
  if rev ≠ [] then .error
  else
    let whole := Int.bmod (days * 86400 + hrs * 3600 + mins * 60) (2 ^ 32)
    .relativeTime ((if negative then -1 else 1) * (whole + secs))

section Printing
variable (text : RealText)

def clockSign (n : Int) : Bytes := if n < 0 then ascii "-" else []

def clock (n : Nat) : Bytes :=
  let last := format02d (n % 60 : Nat)
  let mins := format02d (n % 3600 / 60 : Nat)
  let hrs := format02d (n % 86400 / 3600 : Nat)
  if n / 86400 ≠ 0 then decimal (n / 86400) ++ 43 :: hrs ++ 58 :: mins ++ 58 :: last
  else if n % 86400 / 3600 ≠ 0 then hrs ++ 58 :: mins ++ 58 :: last
  else if n % 3600 / 60 ≠ 0 then mins ++ 58 :: last
  else last

theorem RealText.toInt_natCast {n : Nat} (small : n < 2 ^ 31) : text.toInt (n : ℚ) = n := by
  have high : (n : ℚ) < 2 ^ 31 := by exact_mod_cast small
  have low : (0 : ℚ) ≤ n := Nat.cast_nonneg n
  rw [toInt, if_pos ⟨high, by linarith⟩, if_neg (not_lt.mpr low)]
  exact Int.floor_natCast n

theorem unparseInteger_natCast (n : Nat) : unparseInteger n = decimal n := by
  simp [unparseInteger]

theorem relTimeToString_whole {n : Int} (small : n.natAbs < 2 ^ 31) :
    relTimeToString text n = clockSign n ++ clock n.natAbs := by
  have sign : ((n : ℚ) < 0) ↔ n < 0 := by exact_mod_cast Iff.rfl
  have magnitude : (if n < 0 then -(n : ℚ) else n) = ((n.natAbs : Nat) : ℚ) := by
    rw [Nat.cast_natAbs]
    split_ifs with negative
    · rw [abs_of_neg negative, Int.cast_neg]
    · rw [abs_of_nonneg (not_lt.mp negative)]
  unfold relTimeToString clockSign
  simp only [sign, magnitude]
  congr 1
  generalize n.natAbs = n at small
  have whole : ((n : ℚ) - (⌊(n : ℚ)⌋ : Int)) = 0 := by rw [Int.floor_natCast]; simp
  have hours : (n : Int).tmod 86400 = (n % 86400 : Nat) := rfl
  have minutes : ((n % 86400 : Nat) : Int).tmod 3600 = (n % 3600 : Nat) := by
    rw [← Nat.mod_mod_of_dvd n (show 3600 ∣ 86400 by decide)]
    rfl
  have seconds : ((n % 3600 : Nat) : Int).tmod 60 = (n % 60 : Nat) := by
    rw [← Nat.mod_mod_of_dvd n (show 60 ∣ 3600 by decide)]
    rfl
  have last : text.toInt (((n % 60 : Nat) : Int) : ℚ) = (n % 60 : Nat) := by
    rw [Int.cast_natCast]
    exact text.toInt_natCast (by omega)
  have divided : ∀ a b : Nat, (a : Int).tdiv b = (a / b : Nat) := fun a b => rfl
  have day := divided n 86400
  have hour := divided (n % 86400) 3600
  have minute := divided (n % 3600) 60
  simp only [Nat.cast_ofNat] at day hour minute
  simp only [text.toInt_natCast small, whole, hours, minutes, seconds, add_zero, last, if_true,
    day, hour, minute, clock, unparseInteger_natCast, ne_eq, Int.natCast_eq_zero]

end Printing

section Reading
variable {strtod : Bytes → ℚ} {unit : UInt8 → Bool} {digits rest : Bytes}

/-- `strtod` is exact on short decimal numbers. -/
def ExactOnDigits (strtod : Bytes → ℚ) : Prop :=
  ∀ digits : Bytes, digits ≠ [] → digits.length ≤ 15 → (∀ c ∈ digits, isDigit c = true) →
    strtod digits = numeral 10 digits

theorem prevNonSpaceChar_stop (stop : at? isSpace rest = false) : prevNonSpaceChar rest = rest :=
  (takeWhile_stop (show ∀ c ∈ ([] : Bytes), isSpace c = true by simp) stop).2

theorem at?_digits {p : UInt8 → Bool} {value : Bool} (some : digits ≠ [])
    (all : ∀ c ∈ digits, isDigit c = true) (each : ∀ c, isDigit c = true → p c = value) :
    at? p (digits ++ rest) = value := by
  cases digits with
  | nil => exact absurd rfl some
  | cons c digits => exact each c (all c List.mem_cons_self)

theorem isDigit_reverse (all : ∀ c ∈ digits, isDigit c = true) :
    ∀ c ∈ digits.reverse, isDigit c = true :=
  fun c member => all c (List.mem_reverse.mp member)

theorem notSpace_digits (some : digits ≠ []) (all : ∀ c ∈ digits, isDigit c = true) :
    at? isSpace (digits ++ rest) = false :=
  at?_digits some all fun _ digit => (not_isSpace_of_isDigit digit).1

theorem secondsField_digits (some : digits ≠ []) (all : ∀ c ∈ digits, isDigit c = true)
    (stop : at? isDigit rest = false) (point : starts '.' rest = false) :
    secondsField strtod (digits.reverse ++ rest) = (strtod digits, rest) := by
  have some' : digits.reverse ≠ [] := by simpa using some
  have all' := isDigit_reverse all
  have space : prevNonSpaceChar (digits.reverse ++ rest) = digits.reverse ++ rest :=
    prevNonSpaceChar_stop (notSpace_digits some' all')
  have unit : at? (fun c => toLower c = 115 || isDigit c) (digits.reverse ++ rest) = true :=
    at?_digits some' all' fun c digit => by simp [digit]
  have letter : at? (toLower · = 115) (digits.reverse ++ rest) = false :=
    at?_digits some' all' (forall_byte (by decide +kernel))
  obtain ⟨taken, dropped⟩ := takeWhile_stop all' stop
  simp [secondsField, space, unit, letter, windIf, taken, dropped, point]

theorem timeField_digits {c : UInt8} (known : unit c = true) (space : isSpace c = false)
    (some : digits ≠ []) (all : ∀ c ∈ digits, isDigit c = true) (stop : at? isDigit rest = false) :
    timeField unit (c :: (digits.reverse ++ rest)) = (atoi digits, rest) := by
  have some' : digits.reverse ≠ [] := by simpa using some
  have all' := isDigit_reverse all
  have first : prevNonSpaceChar (c :: (digits.reverse ++ rest)) = c :: (digits.reverse ++ rest) :=
    prevNonSpaceChar_stop space
  have second : prevNonSpaceChar (digits.reverse ++ rest) = digits.reverse ++ rest :=
    prevNonSpaceChar_stop (notSpace_digits some' all')
  obtain ⟨taken, dropped⟩ := takeWhile_stop all' stop
  simp [timeField, first, second, at?, known, taken, dropped]

theorem timeField_absent (absent : at? unit rest = false) (space : at? isSpace rest = false) :
    timeField unit rest = (0, rest) := by
  simp [timeField, prevNonSpaceChar_stop space, absent]

end Reading

section RoundTrip

theorem format02d_small : ∀ m < 100, format02d (m : Nat) ≠ [] ∧ (format02d (m : Nat)).length = 2 ∧
    (∀ c ∈ format02d (m : Nat), isDigit c = true) ∧ atoi (format02d (m : Nat)) = m ∧
    numeral 10 (format02d (m : Nat)) = m := by
  have digits : ∀ m : Nat, ∀ c ∈ format02d m, isDigit c = true := by
    intro m c inside
    rw [format02d, unparseInteger_natCast] at inside
    split at inside
    · rcases List.mem_cons.mp inside with rfl | inside
      · rfl
      · exact isDigit_decimal c inside
    · exact isDigit_decimal c inside
  have values : ∀ m < 100, format02d (m : Nat) ≠ [] ∧ (format02d (m : Nat)).length = 2 ∧
      atoi (format02d (m : Nat)) = m ∧ numeral 10 (format02d (m : Nat)) = m := by
    decide +kernel
  intro m less
  obtain ⟨some, length, value, same⟩ := values m less
  exact ⟨some, length, digits m, value, same⟩

variable {m : Nat}

theorem secondsField_two {strtod : Bytes → ℚ} (exact : ExactOnDigits strtod) (less : m < 60)
    {rest : Bytes} (stop : at? isDigit rest = false) (point : starts '.' rest = false) :
    secondsField strtod ((format02d m).reverse ++ rest) = ((m : ℚ), rest) := by
  obtain ⟨some, length, all, -, value⟩ := format02d_small m (by omega)
  rw [secondsField_digits some all stop point, exact _ some (by omega) all, value]

theorem timeField_two {unit : UInt8 → Bool} {c : UInt8} (known : unit c = true)
    (space : isSpace c = false) (less : m < 60) {rest : Bytes} (stop : at? isDigit rest = false) :
    timeField unit (c :: ((format02d m).reverse ++ rest)) = ((m : Int), rest) := by
  obtain ⟨some, -, all, value, -⟩ := format02d_small m (by omega)
  rw [timeField_digits known space some all stop, value]

theorem makeRelTime_fields {strtod : Bytes → ℚ} {timeStr rev rev₁ rev₂ rev₃ : Bytes}
    {secs mins hrs days : Nat} {n : Int}
    (fourth : timeField isDayUnit rev₃ = ((days : Int), clockSign n))
    (third : timeField isHourUnit rev₂ = ((hrs : Int), rev₃))
    (second : timeField isMinuteUnit rev₁ = ((mins : Int), rev₂))
    (first : secondsField strtod rev = ((secs : ℚ), rev₁)) (whole : timeStr.reverse = rev)
    (small : n.natAbs < 2 ^ 31)
    (total : days * 86400 + hrs * 3600 + mins * 60 + secs = n.natAbs) :
    makeRelTime strtod timeStr = .relativeTime n := by
  have wrapped : Int.bmod ((days : Int) * 86400 + hrs * 3600 + mins * 60) (2 ^ 32) =
      days * 86400 + hrs * 3600 + mins * 60 := Int.bmod_eq_of_le (by omega) (by omega)
  have sum : (((days : Int) * 86400 + hrs * 3600 + mins * 60 : Int) : ℚ) + secs = (|n| : Int) := by
    rw [← Nat.cast_natAbs, ← total]
    push_cast
    rfl
  simp only [makeRelTime, whole, first, second, third, fourth, wrapped, sum]
  by_cases negative : n < 0
  · have sign : clockSign n = [45] := if_pos negative
    have minus : prevNonSpaceChar [45] = [45] := rfl
    have none : prevNonSpaceChar [] = [] := rfl
    simp [sign, minus, none, starts, at?, windIf, abs_of_neg negative]
  · have sign : clockSign n = [] := if_neg negative
    have none : prevNonSpaceChar [] = [] := rfl
    simp [sign, none, starts, at?, windIf, abs_of_nonneg (not_lt.mp negative)]

theorem clockSign_reverse (n : Int) : (clockSign n).reverse = clockSign n := by
  unfold clockSign
  split_ifs <;> rfl

theorem at?_clockSign {p : UInt8 → Bool} (minus : p 45 = false) (n : Int) :
    at? p (clockSign n) = false := by
  unfold clockSign
  split_ifs
  · exact minus
  · rfl

theorem atoi_decimal {n : Nat} (small : n < 2 ^ 31) : atoi (decimal n) = n := by
  rw [atoi, scanInteger_decimal]
  exact toCInt_of_lt small

/-- Relative times of whole seconds are read back as they were printed. -/
theorem makeRelTime_relTimeToString (text : RealText) (exact : ExactOnDigits text.strtod)
    (n : Int) (small : |n| < 2 ^ 31) :
    makeRelTime text.strtod (relTimeToString text n) = .relativeTime n := by
  have small : n.natAbs < 2 ^ 31 := by
    rw [Int.abs_eq_natAbs] at small
    omega
  rw [relTimeToString_whole text small]
  have seconds : ∀ {rest : Bytes}, at? isDigit rest = false → starts '.' rest = false → _ :=
    secondsField_two exact (show n.natAbs % 60 < 60 by omega)
  have minutes : ∀ {rest : Bytes}, at? isDigit rest = false →
      timeField isMinuteUnit (58 :: _) = _ :=
    timeField_two rfl rfl (show n.natAbs % 3600 / 60 < 60 by omega)
  have hours : ∀ {rest : Bytes}, at? isDigit rest = false → timeField isHourUnit (58 :: _) = _ :=
    timeField_two rfl rfl (show n.natAbs % 86400 / 3600 < 60 by omega)
  have days : timeField isDayUnit (43 :: ((decimal (n.natAbs / 86400)).reverse ++ clockSign n)) =
      (((n.natAbs / 86400 : Nat) : Int), clockSign n) := by
    rw [timeField_digits rfl rfl (decimal_ne_nil _) isDigit_decimal (at?_clockSign rfl n),
      atoi_decimal (by omega)]
  have absent : ∀ {unit : UInt8 → Bool}, unit 45 = false →
      timeField unit (clockSign n) = (((0 : Nat) : Int), clockSign n) := fun other =>
    timeField_absent (at?_clockSign other n) (at?_clockSign rfl n)
  have point := at?_clockSign (p := fun c => c = 46) rfl n
  have digit := at?_clockSign (p := isDigit) rfl n
  unfold clock
  -- The fields that are not printed are read as zero: at their place stands the sign.
  split_ifs with day hour minute
  · exact makeRelTime_fields days (hours rfl) (minutes rfl) (seconds rfl rfl)
      (by simp [clockSign_reverse]) small (by omega)
  · exact makeRelTime_fields (absent rfl) (hours digit) (minutes rfl) (seconds rfl rfl)
      (by simp [clockSign_reverse]) small (by omega)
  · exact makeRelTime_fields (absent rfl) (absent rfl) (minutes digit) (seconds rfl rfl)
      (by simp [clockSign_reverse]) small (by omega)
  · exact makeRelTime_fields (absent rfl) (absent rfl) (absent rfl) (seconds digit point)
      (by simp [clockSign_reverse]) small (by omega)

/-- `-1+01:01:01`. -/
theorem makeRelTime_relTimeToString_days :
    makeRelTime (fun s => numeral 10 s)
      (relTimeToString ⟨fun _ => 0, fun _ => [], fun s => numeral 10 s⟩ (-90061 : Int)) =
        .relativeTime (-90061 : Int) :=
  makeRelTime_relTimeToString ⟨fun _ => 0, fun _ => [], fun s => numeral 10 s⟩
    (fun _ _ _ _ => rfl) (-90061) (by decide)

end RoundTrip

end Condor.ClassAd
