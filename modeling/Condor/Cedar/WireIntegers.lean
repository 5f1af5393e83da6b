import Mathlib
import Condor.Cedar.Stream

/-! Every external integer takes eight bytes. An `int` is refused when the upper bytes are not its
sign; a `short` is read as an `int` and then cut. -/
namespace Condor.Cedar
open Condor.Lib Condor.Utils

inductive Sign where
  | signed
  | unsigned
  deriving DecidableEq, Repr

inductive Width where
  | short
  | int
  | long
  deriving DecidableEq, Repr

abbrev Width.bits : Width → Nat
  | .short => 16
  | .int => 32
  | .long => 64

def Width.checked : Width → Nat
  | .short => 32
  | .int => 32
  | .long => 64

def value (sign : Sign) {w : Nat} (x : BitVec w) : Int :=
  match sign with
  | .signed => x.toInt
  | .unsigned => x.toNat

def Fits (sign : Sign) (w : Nat) (v : Int) : Prop :=
  match sign with
  | .signed => -2 ^ (w - 1) ≤ v ∧ v < 2 ^ (w - 1)
  | .unsigned => 0 ≤ v ∧ v < 2 ^ w

instance (sign : Sign) (w : Nat) (v : Int) : Decidable (Fits sign w v) :=
  match sign with
  | .signed => inferInstanceAs (Decidable (_ ∧ _))
  | .unsigned => inferInstanceAs (Decidable (_ ∧ _))

variable {w : Nat}

theorem fits_value (sign : Sign) (x : BitVec w) : Fits sign w (value sign x) := by
  cases sign with
  | signed => exact ⟨BitVec.le_toInt x, BitVec.toInt_lt⟩
  | unsigned =>
    refine ⟨Int.natCast_nonneg _, ?_⟩
    rw [value]
    exact_mod_cast x.isLt

theorem Fits.mono {sign : Sign} {w' : Nat} (wider : w ≤ w') {v : Int} (fits : Fits sign w v) :
    Fits sign w' v := by
  cases sign with
  | signed =>
    have bound : (2 : Int) ^ (w - 1) ≤ 2 ^ (w' - 1) :=
      pow_le_pow_right₀ (by decide) (Nat.sub_le_sub_right wider 1)
    exact ⟨by linarith [fits.1], by linarith [fits.2]⟩
  | unsigned =>
    have bound : (2 : Int) ^ w ≤ 2 ^ w' := pow_le_pow_right₀ (by decide) wider
    exact ⟨fits.1, by linarith [fits.2]⟩

theorem value_ofInt_iff (sign : Sign) (some : 0 < w) (v : Int) :
    value sign (BitVec.ofInt w v) = v ↔ Fits sign w v := by
  refine ⟨fun same => same ▸ fits_value sign _, fun fits => ?_⟩
  have double : (2 : Int) ^ w = 2 * 2 ^ (w - 1) := by
    rw [← pow_succ', Nat.sub_add_cancel some]
  cases sign with
  | signed =>
    obtain ⟨lower, upper⟩ := fits
    rw [value, BitVec.toInt_ofInt]
    apply Int.bmod_eq_of_le <;> push_cast <;> omega
  | unsigned =>
    obtain ⟨lower, upper⟩ := fits
    rw [value, BitVec.toNat_ofInt]
    push_cast
    rw [Int.emod_eq_of_lt lower upper, Int.toNat_of_nonneg lower]

namespace Stream
variable {C : Cipher}

def putInteger : (sign : Sign) → (T : Width) → BitVec T.bits → Coding C Unit
  | .signed, .short, s => putShort s
  | .signed, .int, i => putInt i
  | .signed, .long, l => putLong l
  | .unsigned, .short, s => putUnsignedShort s
  | .unsigned, .int, i => putUnsignedInt i
  | .unsigned, .long, l => putUnsignedLong l

def getInteger : (sign : Sign) → (U : Width) → Coding C (BitVec U.bits)
  | .signed, .short => getShort
  | .signed, .int => getInt
  | .signed, .long => getLong
  | .unsigned, .short => getUnsignedShort
  | .unsigned, .int => getUnsignedInt
  | .unsigned, .long => getUnsignedLong

/-! ### The layout of an external integer -/

def word (v : Int) : Bytes := bigEndian intSize (v % 2 ^ 64).toNat

variable {size x y : Nat}

theorem memory_hton (host : ByteOrder) (full : 2 ^ w = 256 ^ size) (x : BitVec w) :
    memory host size (hton host size x) = bigEndian size x.toNat := by
  cases host with
  | big => rfl
  | little =>
    have back := littleEndian_ofLittleEndian (littleEndian size x.toNat).reverse
    rw [List.length_reverse, length_littleEndian] at back
    rw [hton, memory, load, memory, BitVec.toNat_ofNat, full, littleEndian_mod, back, bigEndian]

theorem hton_load (host : ByteOrder) (full : 2 ^ w = 256 ^ size) (bs : Bytes)
    (length : bs.length = size) :
    hton host size (load host w bs) = BitVec.ofNat w (ofBigEndian bs) := by
  cases host with
  | big => rfl
  | little =>
    have bound := ofLittleEndian_lt bs
    rw [length, ← full] at bound
    rw [hton, memory, load, load, BitVec.toNat_ofNat, Nat.mod_eq_of_lt bound, ← length,
      littleEndian_ofLittleEndian, ofBigEndian]

theorem putPad_apply (pad : UInt8) (n : Nat) (s : Stream C) :
    putPad pad n s = (some (), s.send (List.replicate n pad)) := by
  induction n generalizing s with
  | zero =>
    cases s with
    | mk host code crypto wire buf => cases crypto <;> simp [putPad, send, Cipher.wrap]
  | succ n ih =>
    rw [putPad, Attempt.bind_of_some _ (putBytes_apply _ _), ih, send_send]
    rfl

theorem putExternal_apply (size : Nat) (full : 2 ^ w = 256 ^ size) (pad : UInt8) (x : BitVec w)
    (s : Stream C) :
    putExternal size pad x s =
      (some (), s.send (List.replicate (intSize - size) pad ++ bigEndian size x.toNat)) := by
  rw [putExternal, Attempt.look_bind, Attempt.bind_of_some _ (putPad_apply _ _ _), putBytes_apply,
    send_send, memory_hton _ full]

theorem word_eq_append (size : Nat) (room : size ≤ intSize) (v : Int) :
    word v = bigEndian (intSize - size) ((v % 2 ^ 64).toNat / 256 ^ size) ++
      bigEndian size (v % 2 ^ 64).toNat := by
  rw [← bigEndian_add, Nat.sub_add_cancel room, word]

variable {n : Nat}

theorem bigEndian_congr (same : x % 256 ^ n = y % 256 ^ n) :
    bigEndian n x = bigEndian n y := by
  rw [bigEndian, bigEndian, ← littleEndian_mod n x, same, littleEndian_mod]

theorem bigEndian_eq_iff : bigEndian n x = bigEndian n y ↔ x % 256 ^ n = y % 256 ^ n := by
  refine ⟨fun same => ?_, bigEndian_congr⟩
  rw [← ofBigEndian_bigEndian, same, ofBigEndian_bigEndian]

theorem toInt_mod (l : BitVec 64) : (l.toInt % 2 ^ 64).toNat = l.toNat := by
  have bound := l.isLt
  rw [BitVec.toInt_eq_toNat_cond]
  split <;> omega

theorem word_toInt_long (l : BitVec 64) : word l.toInt = bigEndian 8 l.toNat := by
  rw [word, toInt_mod, intSize]

theorem word_toNat (room : w ≤ 64) (x : BitVec w) : word x.toNat = bigEndian 8 x.toNat := by
  have bound := x.isLt
  have wide : 2 ^ w ≤ 2 ^ 64 := Nat.pow_le_pow_right (by omega) room
  have kept : ((x.toNat : Int) % 2 ^ 64).toNat = x.toNat := by omega
  rw [word, kept, intSize]

theorem pad_append_int (i : BitVec 32) :
    List.replicate 4 (if 0 ≤ i.toInt then 0 else 0xff) ++ bigEndian 4 i.toNat = word i.toInt := by
  have bound := i.isLt
  have form := BitVec.toInt_eq_toNat_cond i
  rw [word_eq_append 4 (by decide)]
  by_cases positive : 0 ≤ i.toInt
  · have same : (i.toInt % 2 ^ 64).toNat = i.toNat := by split at form <;> omega
    have high : i.toNat / 256 ^ 4 = 0 := by omega
    rw [if_pos positive, same, high]
    rfl
  · have low : (i.toInt % 2 ^ 64).toNat % 256 ^ 4 = i.toNat % 256 ^ 4 := by
      split at form <;> omega
    have high : (i.toInt % 2 ^ 64).toNat / 256 ^ 4 = 2 ^ 32 - 1 := by split at form <;> omega
    rw [if_neg positive, bigEndian_congr low, high]
    rfl

theorem pad_append_unsigned (i : BitVec 32) :
    List.replicate 4 0 ++ bigEndian 4 i.toNat = word i.toNat := by
  have bound := i.isLt
  have high : i.toNat / 256 ^ 4 = 0 := by omega
  rw [word_toNat (by omega), show (8 : Nat) = 4 + 4 from rfl, bigEndian_add, high]
  rfl

section Put
variable {s : Stream C} (external : s.code = .external)
include external

theorem putInt_apply (i : BitVec 32) : putInt i s = (some (), s.send (word i.toInt)) := by
  rw [putInt, Attempt.look_bind, external, ← pad_append_int]
  exact putExternal_apply 4 rfl _ i s

theorem putUnsignedInt_apply (i : BitVec 32) :
    putUnsignedInt i s = (some (), s.send (word i.toNat)) := by
  rw [putUnsignedInt, Attempt.look_bind, external, ← pad_append_unsigned]
  exact putExternal_apply 4 rfl _ i s

theorem putLong_apply (l : BitVec 64) : putLong l s = (some (), s.send (bigEndian 8 l.toNat)) := by
  rw [putLong, Attempt.look_bind, external]
  exact putExternal_apply 8 rfl _ l s

theorem putShort_apply (v : BitVec 16) : putShort v s = (some (), s.send (word v.toInt)) := by
  have widened : (v.signExtend 32).toInt = v.toInt := BitVec.toInt_signExtend_of_le (by decide)
  rw [putShort, Attempt.look_bind, external, ← widened]
  exact putInt_apply external _

theorem putUnsignedShort_apply (v : BitVec 16) :
    putUnsignedShort v s = (some (), s.send (word v.toNat)) := by
  have widened : (v.setWidth 32).toNat = v.toNat := BitVec.toNat_setWidth_of_le (by decide)
  rw [putUnsignedShort, Attempt.look_bind, external, ← widened]
  exact putUnsignedInt_apply external _

/-- Whatever its type, an external integer is put as one word. -/
theorem putInteger_apply (sign : Sign) (T : Width) (v : BitVec T.bits) :
    putInteger sign T v s = (some (), s.send (word (value sign v))) := by
  cases sign with
  | signed =>
    cases T with
    | short => exact putShort_apply external v
    | int => exact putInt_apply external v
    | long =>
      refine (putLong_apply external v).trans ?_
      rw [← word_toInt_long]
      rfl
  | unsigned =>
    cases T with
    | short => exact putUnsignedShort_apply external v
    | int => exact putUnsignedInt_apply external v
    | long =>
      refine (putLong_apply external v).trans ?_
      rw [← word_toNat (by decide)]
      rfl

end Put

theorem setWidth_ofInt {m : Nat} (narrow : m ≤ n) (v : Int) :
    (BitVec.ofInt n v).setWidth m = BitVec.ofInt m v := by
  have positive : 0 ≤ v % 2 ^ n := Int.emod_nonneg _ (by positivity)
  have positive' : 0 ≤ v % 2 ^ m := Int.emod_nonneg _ (by positivity)
  apply BitVec.eq_of_toNat_eq
  apply Int.ofNat_inj.mp
  rw [BitVec.toNat_setWidth, BitVec.toNat_ofInt, BitVec.toNat_ofInt, Int.natCast_emod]
  push_cast
  rw [Int.toNat_of_nonneg positive, Int.toNat_of_nonneg positive']
  exact Int.emod_emod_of_dvd _ (pow_dvd_pow 2 narrow)

theorem ofNat_word (v : Int) (room : w ≤ 64) :
    BitVec.ofNat w (v % 2 ^ 64).toNat = BitVec.ofInt w v := by
  rw [← setWidth_ofInt room]
  apply BitVec.eq_of_toNat_eq
  rw [BitVec.toNat_ofNat, BitVec.toNat_setWidth, BitVec.toNat_ofInt]
  rfl

def Padded (size : Nat) {w : Nat} (pad : BitVec w → UInt8) (v : Int) : Bool :=
  (bigEndian (intSize - size) ((v % 2 ^ 64).toNat / 256 ^ size)).all (· = pad (BitVec.ofInt w v))

theorem getExternal_word (size : Nat) (room : size ≤ intSize) (narrow : w ≤ 64)
    (full : 2 ^ w = 256 ^ size) (pad : BitVec w → UInt8) (v : Int) (s : Stream C) (rest : Bytes) :
    getExternal size w pad (s.awaiting (word v) rest) =
      (if Padded size pad v then some (BitVec.ofInt w v) else none,
        { s.past (word v) with wire := rest }) := by
  have low : hton s.host size (load s.host w (bigEndian size (v % 2 ^ 64).toNat)) =
      BitVec.ofInt w v := by
    rw [hton_load _ full _ (length_bigEndian _ _), ofBigEndian_bigEndian, ← full,
      ← ofNat_word v narrow]
    apply BitVec.eq_of_toNat_eq
    rw [BitVec.toNat_ofNat, BitVec.toNat_ofNat, Nat.mod_mod]
  have first := getBytes_awaiting s
    (length_bigEndian (intSize - size) ((v % 2 ^ 64).toNat / 256 ^ size))
    (bigEndian size (v % 2 ^ 64).toNat) rest
  have second := getBytes_awaiting
    (s.past (bigEndian (intSize - size) ((v % 2 ^ 64).toNat / 256 ^ size)))
    (length_bigEndian size (v % 2 ^ 64).toNat) [] rest
  rw [List.append_nil, awaiting_nil, past_past, ← word_eq_append size room] at second
  rw [← word_eq_append size room] at first
  rw [getExternal, Attempt.look_bind, Attempt.bind_of_some _ first, Attempt.bind_of_some _ second]
  change (if List.all _ _ then _ else _ : Coding C _) _ = _
  simp only [awaiting, low]
  change (if Padded size pad v then _ else _ : Coding C _) _ = _
  split <;> rfl

theorem all_eq_iff (bs : Bytes) (b : UInt8) :
    bs.all (· = b) = true ↔ bs = List.replicate bs.length b := by
  rw [List.eq_replicate_iff, List.all_eq_true]
  simp only [decide_eq_true_eq, true_and]

theorem padded_signed (v : Int) (long : Fits .signed 64 v) :
    Padded 4 (fun i : BitVec 32 => if 0 ≤ i.toInt then 0 else 0xff) v = true ↔
      Fits .signed 32 v := by
  have zeros : List.replicate 4 (0 : UInt8) = bigEndian 4 0 := rfl
  have ones : List.replicate 4 (0xff : UInt8) = bigEndian 4 (2 ^ 32 - 1) := rfl
  have form : 0 ≤ (BitVec.ofInt 32 v).toInt ↔ v % 2 ^ 32 < 2 ^ 31 := by
    rw [BitVec.toInt_ofInt, Int.bmod_def]
    split <;> omega
  simp only [Fits] at long ⊢
  rw [Padded, all_eq_iff, length_bigEndian, intSize]
  simp only [form]
  by_cases positive : v % 2 ^ 32 < 2 ^ 31
  · rw [if_pos positive, zeros, bigEndian_eq_iff]
    omega
  · rw [if_neg positive, ones, bigEndian_eq_iff]
    omega

theorem padded_unsigned (v : Int) (long : Fits .unsigned 64 v) :
    Padded 4 (fun _ : BitVec 32 => 0) v = true ↔ Fits .unsigned 32 v := by
  have zeros : List.replicate 4 (0 : UInt8) = bigEndian 4 0 := rfl
  simp only [Fits] at long ⊢
  rw [Padded, all_eq_iff, length_bigEndian, intSize, zeros, bigEndian_eq_iff]
  omega

theorem narrowed {get : Coding C (BitVec 32)} {s t : Stream C} {v : Int} {fits : Prop}
    [Decidable fits] (int : get s = (if fits then some (BitVec.ofInt 32 v) else none, t)) :
    (do let i ← get; pure (i.setWidth 16) : Coding C (BitVec 16)) s =
      (if fits then some (BitVec.ofInt 16 v) else none, t) := by
  split at int
  · next fits =>
      refine (Attempt.bind_of_some _ int).trans ?_
      rw [setWidth_ofInt (by decide), if_pos fits]
      rfl
  · next wide =>
      rw [if_neg wide]
      exact Attempt.bind_of_none _ int

section Get
variable {s : Stream C} (external : s.code = .external) {v : Int} (rest : Bytes)
include external

theorem getInt_word (long : Fits .signed 64 v) :
    getInt (s.awaiting (word v) rest) =
      (if Fits .signed 32 v then some (BitVec.ofInt 32 v) else none,
        { s.past (word v) with wire := rest }) := by
  rw [getInt, Attempt.look_bind, awaiting_code, external]
  refine (getExternal_word 4 (by decide) (w := 32) (by decide) rfl _ v s rest).trans ?_
  simp only [padded_signed v long]

theorem getUnsignedInt_word (long : Fits .unsigned 64 v) :
    getUnsignedInt (s.awaiting (word v) rest) =
      (if Fits .unsigned 32 v then some (BitVec.ofInt 32 v) else none,
        { s.past (word v) with wire := rest }) := by
  rw [getUnsignedInt, Attempt.look_bind, awaiting_code, external]
  refine (getExternal_word 4 (by decide) (w := 32) (by decide) rfl _ v s rest).trans ?_
  simp only [padded_unsigned v long]

theorem getLong_word :
    getLong (s.awaiting (word v) rest) =
      (some (BitVec.ofInt 64 v), { s.past (word v) with wire := rest }) := by
  rw [getLong, Attempt.look_bind, awaiting_code, external]
  exact getExternal_word 8 (by decide) (w := 64) (by decide) rfl _ v s rest

theorem getUnsignedLong_word :
    getUnsignedLong (s.awaiting (word v) rest) =
      (some (BitVec.ofInt 64 v), { s.past (word v) with wire := rest }) := by
  rw [getUnsignedLong, Attempt.look_bind, awaiting_code, external]
  exact getExternal_word 8 (by decide) (w := 64) (by decide) rfl _ v s rest

theorem getShort_word (long : Fits .signed 64 v) :
    getShort (s.awaiting (word v) rest) =
      (if Fits .signed 32 v then some (BitVec.ofInt 16 v) else none,
        { s.past (word v) with wire := rest }) := by
  rw [getShort, Attempt.look_bind, awaiting_code, external]
  exact narrowed (getInt_word external rest long)

theorem getUnsignedShort_word (long : Fits .unsigned 64 v) :
    getUnsignedShort (s.awaiting (word v) rest) =
      (if Fits .unsigned 32 v then some (BitVec.ofInt 16 v) else none,
        { s.past (word v) with wire := rest }) := by
  rw [getUnsignedShort, Attempt.look_bind, awaiting_code, external]
  exact narrowed (getUnsignedInt_word external rest long)

/-- Whatever type it is read as, a word is taken whole, and refused when it does not
fit the width that is checked. -/
theorem getInteger_word (sign : Sign) (U : Width) (long : Fits sign 64 v) :
    getInteger sign U (s.awaiting (word v) rest) =
      (if Fits sign U.checked v then some (BitVec.ofInt U.bits v) else none,
        { s.past (word v) with wire := rest }) := by
  cases sign with
  | signed =>
    cases U with
    | short => exact getShort_word external rest long
    | int => exact getInt_word external rest long
    | long =>
      refine (getLong_word external rest).trans ?_
      rw [Width.checked, if_pos long]
  | unsigned =>
    cases U with
    | short => exact getUnsignedShort_word external rest long
    | int => exact getUnsignedInt_word external rest long
    | long =>
      refine (getUnsignedLong_word external rest).trans ?_
      rw [Width.checked, if_pos long]

end Get

/-- What is read is the number itself, or nothing, as far as the check goes. -/
theorem checked_iff (sign : Sign) (U : Width) (n : Int) :
    (if Fits sign U.checked n then some (BitVec.ofInt U.bits n) else none).map (value sign) =
      (if Fits sign U.bits n then some n else none) ↔
    (U = .short → Fits sign Width.short.bits n ∨ ¬ Fits sign Width.int.bits n) := by
  have kept := value_ofInt_iff sign (w := U.bits) (by cases U <;> decide) n
  by_cases fits : Fits sign U.bits n
  · have wide : Fits sign U.checked n := fits.mono (by cases U <;> decide)
    rw [if_pos fits, if_pos wide, Option.map_some, kept.mpr fits]
    refine iff_of_true rfl ?_
    rintro rfl
    exact .inl fits
  · rw [if_neg fits]
    by_cases wide : Fits sign U.checked n
    · rw [if_pos wide]
      refine iff_of_false (Option.some_ne_none _) ?_
      cases U with
      | short =>
        intro small
        rcases small rfl with short | large
        · exact fits short
        · exact large wide
      | int => exact absurd wide fits
      | long => exact absurd wide fits
    · rw [if_neg wide]
      refine iff_of_true rfl ?_
      rintro rfl
      exact .inr wide

/-- An integer keeps its value or is refused, unless a `short` is read from a value that
only an `int` can hold. -/
theorem integer_transfer_iff (host peer : ByteOrder) (key : Option C.State) (buf rest : Bytes)
    (sign : Sign) (T U : Width) (v : BitVec T.bits) :
    (transfer ⟨host, .external, key, [], []⟩ (putInteger sign T v) peer buf rest
        (getInteger sign U)).1.map (value sign) =
      (if Fits sign U.bits (value sign v) then some (value sign v) else none) ↔
    (U = .short → Fits sign Width.short.bits (value sign v) ∨
      ¬ Fits sign Width.int.bits (value sign v)) := by
  have long : Fits sign 64 (value sign v) :=
    (fits_value sign v).mono (by cases T <;> decide)
  have both := transfer_of_send (s := ⟨host, .external, key, [], []⟩)
    (putInteger_apply rfl sign T v) peer buf rest (getInteger sign U)
  rw [both, getInteger_word (by rfl) rest sign U long]
  exact checked_iff sign U (value sign v)

/-- 40000 put as an `int` and read as a `short` is accepted as another number. -/
theorem int_read_as_short_wraps :
    (transfer (C := noCipher) ⟨.little, .external, none, [], []⟩
        (putInteger .signed .int (BitVec.ofInt 32 40000)) .little [] []
        (getInteger .signed .short)).1.map (value .signed) = some (-25536) ∧
    ¬ Fits .signed Width.short.bits 40000 := by
  decide +kernel

end Stream
end Condor.Cedar
