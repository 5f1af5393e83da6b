import Mathlib.Algebra.Group.Int.Defs
import Mathlib.Algebra.Group.Nat.Defs
import Mathlib.Data.List.TakeWhile
import Condor.Lib.Frame

/-! A file that is being read is the list of its unread bytes. A byte is read into a `signed char`,
in which 0xFF compares equal to `EOF`. The locale is "C". -/
namespace Condor.Utils

abbrev Bytes := List UInt8

def ascii (s : String) : Bytes := s.toList.map fun c => UInt8.ofNat c.toNat

def newline : UInt8 := 10
def blank : UInt8 := 32
def nul : UInt8 := 0
def eofByte : UInt8 := 0xFF

def isSpace (c : UInt8) : Bool := c = blank || (9 ≤ c && c ≤ 13)

def isDigit (c : UInt8) : Bool := 48 ≤ c && c ≤ 57

def toLower (c : UInt8) : UInt8 := if 65 ≤ c && c ≤ 90 then c + 32 else c

/-- `strcasecmp` returning zero. -/
def sameIgnoringCase (s t : Bytes) : Bool := s.map toLower = t.map toLower

/-- `%lu`, and `%d` of a number that is not negative. -/
def decimal (n : Nat) : Bytes := (Nat.toDigits 10 n).map fun c => UInt8.ofNat c.toNat

def splitSign : Bytes → Bool × Bytes
  | [] => (false, [])
  | c :: rest =>
    if c = 45 then (true, rest) else if c = 43 then (false, rest) else (false, c :: rest)

/-- The number that `strtol` and the integer conversions of `scanf` read. -/
def scanInteger (s : Bytes) : Option Int :=
  let (negative, s) := splitSign (s.dropWhile isSpace)
  match s.takeWhile isDigit with
  | [] => none
  | c :: digits =>
    let n : Int := (c :: digits).foldl (fun n c => 10 * n + (c.toNat - 48)) 0
    some (if negative then -n else n)

/-- A `strtol` result stored in an `int`. -/
def toCInt (n : Int) : Int := Int.bmod (max (-2 ^ 63) (min (2 ^ 63 - 1) n)) (2 ^ 32)

def atoi (s : Bytes) : Int := toCInt ((scanInteger s).getD 0)

def atol (s : Bytes) : Int := max (-2 ^ 63) (min (2 ^ 63 - 1) ((scanInteger s).getD 0))

/-- `sscanf( s, "%d ", &n )`, if it converts. -/
def sscanfInt (s : Bytes) : Option Int := (scanInteger s).map toCInt

/-- `sscanf( s, "%lu", &n )`, if it converts. -/
def sscanfUnsigned (s : Bytes) : Option UInt64 :=
  (scanInteger s).map fun n => UInt64.ofNat ((min n (2 ^ 64 - 1)) % 2 ^ 64).toNat

/-- Read up to and including the first byte that stops the scan: the bytes before
it, the byte, and what is left. -/
def scanUntil (stop : UInt8 → Bool) : Bytes → Bytes × Option UInt8 × Bytes
  | [] => ([], none, [])
  | c :: rest =>
    if stop c then ([], some c, rest)
    else
      let (word, last, left) := scanUntil stop rest
      (c :: word, last, left)

/-- `fgets` with room for `n` bytes; it returns `NULL` when it reads none. -/
def fgets : Nat → Bytes → Bytes × Bytes
  | 0, fp => ([], fp)
  | _ + 1, [] => ([], [])
  | n + 1, c :: rest =>
    if c = newline then ([c], rest)
    else
      let (line, left) := fgets n rest
      (c :: line, left)

variable {c : UInt8} {n : Nat}
variable {stop : UInt8 → Bool} {word : Bytes}

theorem scanUntil_whole (plain : ∀ b ∈ word, stop b = false) (stops : stop c = true) (rest : Bytes)
    :
    scanUntil stop (word ++ c :: rest) = (word, some c, rest) := by
  induction word with
  | nil => simp [scanUntil, stops]
  | cons b word ih =>
    have inner := ih fun b hb => plain b (List.mem_cons_of_mem _ hb)
    simp [scanUntil, plain b List.mem_cons_self, inner]

theorem scanUntil_torn (plain : ∀ b ∈ word, stop b = false) :
    scanUntil stop word = (word, none, []) := by
  induction word with
  | nil => rfl
  | cons b word ih =>
    have inner := ih fun b hb => plain b (List.mem_cons_of_mem _ hb)
    simp [scanUntil, plain b List.mem_cons_self, inner]

theorem fgets_append (n : Nat) (fp : Bytes) : (fgets n fp).1 ++ (fgets n fp).2 = fp := by
  induction n generalizing fp with
  | zero => rfl
  | succ n ih =>
    cases fp with
    | nil => rfl
    | cons c rest =>
      simp only [fgets]
      split
      · rfl
      · exact congrArg (c :: ·) (ih rest)

theorem length_of_fgets {fp rest buf : Bytes} (read : fgets n fp = (c :: buf, rest)) :
    rest.length < fp.length := by
  have whole := congrArg List.length (fgets_append n fp)
  simp only [read, List.length_append, List.length_cons] at whole
  omega

theorem digit_byte {c : Char} (digit : c.isDigit = true) :
    isDigit (UInt8.ofNat c.toNat) = true := by
  simp only [Char.isDigit_iff_toNat, Char.reduceToNat] at digit
  simp only [isDigit, Bool.and_eq_true, decide_eq_true_eq, UInt8.le_iff_toNat_le,
    UInt8.toNat_ofNat', UInt8.reduceToNat]
  have small : c.toNat % 2 ^ 8 = c.toNat := Nat.mod_eq_of_lt (by omega)
  omega

theorem isDigit_decimal : ∀ b ∈ decimal n, isDigit b = true := by
  intro b hb
  obtain ⟨c, hc, rfl⟩ := List.mem_map.mp hb
  exact digit_byte (Nat.isDigit_of_mem_toDigits (by decide) (by decide) hc)

theorem foldl_digits {cs : List Char} (digits : ∀ c ∈ cs, c.isDigit = true) (n : Nat) :
    (cs.map fun c => UInt8.ofNat c.toNat).foldl (fun (n : Int) c => 10 * n + (c.toNat - 48)) n =
      Nat.ofDigitChars 10 cs n := by
  induction cs generalizing n with
  | nil => simp [Nat.ofDigitChars_nil]
  | cons c cs ih =>
    have digit := digits c List.mem_cons_self
    simp only [Char.isDigit_iff_toNat, Char.reduceToNat] at digit
    have byte : (UInt8.ofNat c.toNat).toNat = c.toNat := by
      rw [UInt8.toNat_ofNat', Nat.mod_eq_of_lt (by omega)]
    have next : (10 * (n : Int) + (((UInt8.ofNat c.toNat).toNat : Int) - 48)) =
        ((10 * n + (c.toNat - '0'.toNat) : Nat) : Int) := by
      simp only [byte, Char.reduceToNat]
      omega
    rw [List.map_cons, List.foldl_cons, next, ih fun c hc => digits c (List.mem_cons_of_mem _ hc),
      Nat.ofDigitChars_cons]

theorem decimal_ne_nil (n : Nat) : decimal n ≠ [] := by
  simp [decimal, Nat.toDigits_ne_nil]

theorem not_isSpace_of_isDigit (digit : isDigit c = true) :
    isSpace c = false ∧ c ≠ 45 ∧ c ≠ 43 := by
  simp only [isDigit, Bool.and_eq_true, decide_eq_true_eq, UInt8.le_iff_toNat_le,
    UInt8.reduceToNat] at digit
  refine ⟨?_, ?_, ?_⟩
  · simp only [isSpace, blank, Bool.or_eq_false_iff, Bool.and_eq_false_iff, decide_eq_false_iff_not,
      UInt8.le_iff_toNat_le, ← UInt8.toNat_inj, UInt8.reduceToNat]
    omega
  · rintro rfl
    exact absurd digit.1 (by decide)
  · rintro rfl
    exact absurd digit.1 (by decide)

theorem foldl_decimal (n : Nat) :
    (decimal n).foldl (fun (n : Int) c => 10 * n + (c.toNat - 48)) (0 : Nat) = n := by
  refine (foldl_digits (fun c hc => ?_) 0).trans (congrArg _ Nat.ofDigitChars_ten_toDigits)
  exact Nat.isDigit_of_mem_toDigits (by decide) (by decide) hc

theorem scanInteger_of_digits {bs : Bytes} (filled : bs ≠ [])
    (digits : ∀ b ∈ bs, isDigit b = true) :
    scanInteger bs = some (bs.foldl (fun (n : Int) c => 10 * n + (c.toNat - 48)) 0) := by
  cases bs with
  | nil => exact absurd rfl filled
  | cons b bs =>
    obtain ⟨space, minus, plus⟩ := not_isSpace_of_isDigit (digits b List.mem_cons_self)
    have all : (b :: bs).takeWhile isDigit = b :: bs := List.takeWhile_eq_self_iff.mpr digits
    simp only [scanInteger, List.dropWhile_cons, space, Bool.false_eq_true, if_false, splitSign,
      if_neg minus, if_neg plus, all]

theorem scanInteger_decimal (n : Nat) : scanInteger (decimal n) = some (n : Int) := by
  rw [scanInteger_of_digits (decimal_ne_nil n) isDigit_decimal]
  exact congrArg some (foldl_decimal n)

theorem toCInt_of_lt (small : n < 2 ^ 31) : toCInt n = n := by
  have kept : max (-2 ^ 63) (min (2 ^ 63 - 1) (n : Int)) = n := by omega
  rw [toCInt, kept]
  exact Int.bmod_eq_of_le (by omega) (by omega)

theorem sscanfUnsigned_decimal (n : UInt64) : sscanfUnsigned (decimal n.toNat) = some n := by
  have bound := n.toNat_lt
  have fits : (min (n.toNat : Int) (2 ^ 64 - 1) % 2 ^ 64).toNat = n.toNat := by omega
  rw [sscanfUnsigned, scanInteger_decimal, Option.map_some, fits, UInt64.ofNat_toNat]

end Condor.Utils
