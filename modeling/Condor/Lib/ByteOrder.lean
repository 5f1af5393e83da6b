import Mathlib.Algebra.Order.Group.Nat
import Mathlib.Data.List.Basic

/-! A number of a fixed size is the list of its bytes, least or most significant first. Writing and
reading it back returns it modulo the size. -/
namespace Condor.Lib

def littleEndian : Nat → Nat → List UInt8
  | 0, _ => []
  | n + 1, x => UInt8.ofNat x :: littleEndian n (x / 256)

def ofLittleEndian : List UInt8 → Nat
  | [] => 0
  | b :: bs => b.toNat + 256 * ofLittleEndian bs

def bigEndian (n x : Nat) : List UInt8 := (littleEndian n x).reverse

def ofBigEndian (bs : List UInt8) : Nat := ofLittleEndian bs.reverse

@[simp] theorem length_littleEndian (n x : Nat) : (littleEndian n x).length = n := by
  induction n generalizing x with
  | zero => rfl
  | succ n ih => rw [littleEndian, List.length_cons, ih]

@[simp] theorem length_bigEndian (n x : Nat) : (bigEndian n x).length = n := by
  rw [bigEndian, List.length_reverse, length_littleEndian]

theorem ofLittleEndian_lt (bs : List UInt8) : ofLittleEndian bs < 256 ^ bs.length := by
  induction bs with
  | nil => exact Nat.one_pos
  | cons b bs ih =>
    have low : b.toNat < 256 := b.toNat_lt
    rw [ofLittleEndian, List.length_cons, Nat.pow_succ]
    omega

theorem ofLittleEndian_littleEndian (n x : Nat) :
    ofLittleEndian (littleEndian n x) = x % 256 ^ n := by
  induction n generalizing x with
  | zero => rw [littleEndian, ofLittleEndian, Nat.pow_zero, Nat.mod_one]
  | succ n ih =>
    have next : 256 ^ (n + 1) = 256 * 256 ^ n := Nat.pow_succ'
    rw [littleEndian, ofLittleEndian, ih, UInt8.toNat_ofNat', next, Nat.mod_mul]

theorem littleEndian_ofLittleEndian (bs : List UInt8) :
    littleEndian bs.length (ofLittleEndian bs) = bs := by
  induction bs with
  | nil => rfl
  | cons b bs ih =>
    have low : b.toNat < 256 := b.toNat_lt
    have head : UInt8.ofNat (b.toNat + 256 * ofLittleEndian bs) = b := by
      apply UInt8.toNat_inj.mp
      rw [UInt8.toNat_ofNat']
      omega
    have tail : (b.toNat + 256 * ofLittleEndian bs) / 256 = ofLittleEndian bs := by omega
    rw [ofLittleEndian, List.length_cons, littleEndian, head, tail, ih]

@[simp] theorem ofBigEndian_bigEndian (n x : Nat) : ofBigEndian (bigEndian n x) = x % 256 ^ n := by
  rw [ofBigEndian, bigEndian, List.reverse_reverse, ofLittleEndian_littleEndian]

theorem littleEndian_mod (n x : Nat) : littleEndian n (x % 256 ^ n) = littleEndian n x := by
  have back := littleEndian_ofLittleEndian (littleEndian n x)
  rwa [length_littleEndian, ofLittleEndian_littleEndian] at back

theorem littleEndian_add (m n x : Nat) :
    littleEndian (m + n) x = littleEndian m x ++ littleEndian n (x / 256 ^ m) := by
  induction m generalizing x with
  | zero => rw [Nat.zero_add, littleEndian, List.nil_append, Nat.pow_zero, Nat.div_one]
  | succ m ih =>
    rw [Nat.succ_add, littleEndian, littleEndian, ih, List.cons_append, Nat.div_div_eq_div_mul,
      Nat.pow_succ']

theorem bigEndian_add (m n x : Nat) :
    bigEndian (m + n) x = bigEndian m (x / 256 ^ n) ++ bigEndian n x := by
  rw [bigEndian, Nat.add_comm, littleEndian_add, List.reverse_append, bigEndian, bigEndian]

end Condor.Lib
