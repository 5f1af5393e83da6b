import Condor.Cedar.WireStrings

/-! `Stream::get` with a buffer of length `l`. A string that does not fit is copied without its end,
and the NUL goes to `s[l]`, behind the buffer. -/
namespace Condor.Cedar
open Condor.Lib Condor.Utils

namespace Stream
variable {C : Cipher}

/-- `strncpy` into a buffer; what would go behind its end is no result. -/
def strncpy (buf src : Bytes) (n : Nat) : Option Bytes :=
  if n ≤ buf.length then
    some (src.take n ++ List.replicate (n - src.length) nul ++ buf.drop n)
  else none

def storeAt (buf : Bytes) (i : Nat) (c : UInt8) : Option Bytes :=
  if i < buf.length then some (buf.set i c) else none

/-- What `get_string_ptr` found, with `""` for NULL and for a failure. -/
def incoming (s : Stream C) : Bytes := cString (((getStringPtr s).1.getD none).getD [])

/-- `Stream::get(char *, int)` on a buffer of `l` bytes: the result, the buffer and the
stream. The length of the string is taken as an `int`. -/
def getChars (buf : Bytes) (l : Nat) (s : Stream C) : Option (Bool × Bytes × Stream C) := do
  let ptr := incoming s
  let len : BitVec 32 := BitVec.ofNat 32 ptr.length
  if (len + 1).toInt > l then do
    let buf ← strncpy buf ptr (l - 1)
    let buf ← storeAt buf l nul
    return (false, buf, (getStringPtr s).2)
  else do
    let buf ← strncpy buf ptr l
    return ((getStringPtr s).1.isSome, buf, (getStringPtr s).2)

/-- The buffer is not left; it holds a string, which is what came in or its first `l - 1`
bytes; and the result is `FALSE` exactly for what was cut or not read. -/
def ReadsInside (l : Nat) (s : Stream C) : Prop :=
  ∀ buf : Bytes, buf.length = l → ∃ result after s', getChars buf l s = some (result, after, s') ∧
    nul ∈ after ∧ (cString after = incoming s ∨ cString after = (incoming s).take (l - 1)) ∧
    (result = false ↔ l ≤ (incoming s).length ∨ (getStringPtr s).1 = none)

theorem noNul_incoming (s : Stream C) : nul ∉ incoming s := by
  intro inside
  simpa using List.mem_takeWhile_imp inside

variable {l : Nat}
variable {buf : Bytes} {n : Nat} {s : Stream C}

theorem strncpy_whole (size : buf.length = l) (src : Bytes) :
    strncpy buf src l = some (src.take l ++ List.replicate (l - src.length) nul) := by
  rw [strncpy, if_pos size.ge, List.drop_of_length_le size.le, List.append_nil]

theorem storeAt_behind {src after : Bytes} (size : buf.length = l) (inside : n ≤ l)
    (copied : strncpy buf src n = some after) : storeAt after l nul = none := by
  rw [strncpy, if_pos (by omega)] at copied
  cases copied
  rw [storeAt, if_neg]
  simp only [List.length_append, List.length_take, List.length_replicate, List.length_drop]
  omega

theorem intLength (fits : n < l) (int : l < 2 ^ 31) :
    ¬ (BitVec.ofNat 32 n + 1).toInt > l := by
  have value : (BitVec.ofNat 32 n + 1).toNat = n + 1 := by
    rw [BitVec.toNat_add, BitVec.toNat_ofNat]
    simp
    omega
  rw [BitVec.toInt_eq_toNat_cond, value]
  split <;> omega

theorem readsInside_of_fits (int : l < 2 ^ 31) (fits : (incoming s).length < l) :
    ReadsInside l s := by
  intro buf size
  obtain ⟨pad, room⟩ := Nat.exists_eq_add_of_lt fits
  have rest : l - (incoming s).length = pad + 1 := by omega
  have copied := strncpy_whole size (incoming s)
  rw [List.take_of_length_le fits.le, rest, List.replicate_succ] at copied
  have got : getChars buf l s = some ((getStringPtr s).1.isSome,
      incoming s ++ nul :: List.replicate pad nul, (getStringPtr s).2) := by
    simp only [getChars, if_neg (intLength fits int), copied]
    rfl
  refine ⟨_, _, _, got, by simp, Or.inl (cString_append_nul (noNul_incoming s) _), ?_⟩
  simp [Nat.not_le.mpr fits]

theorem not_readsInside (long : l ≤ (incoming s).length) : ¬ ReadsInside l s := by
  intro reads
  have size : (List.replicate l nul).length = l := List.length_replicate
  obtain ⟨result, after, s', got, ends, -⟩ := reads _ size
  simp only [getChars] at got
  split at got
  next cut =>
    cases copied : strncpy (List.replicate l nul) (incoming s) (l - 1) with
    | none => rw [copied] at got; cases got
    | some buf =>
      have behind := storeAt_behind size (Nat.sub_le l 1) copied
      rw [copied] at got
      simp only [Option.bind_eq_bind, Option.bind_some, behind] at got
      cases got
  next wrapped =>
    rw [strncpy_whole size, Nat.sub_eq_zero_of_le long] at got
    simp at got
    rw [← got.2.1] at ends
    exact noNul_incoming s (List.mem_of_mem_take ends)

theorem getChars_inside_iff (s : Stream C) (l : Nat) (int : l < 2 ^ 31) :
    ReadsInside l s ↔ (incoming s).length < l :=
  ⟨fun reads => Nat.lt_of_not_le fun long => not_readsInside long reads,
    readsInside_of_fits int⟩

def arriving (t : Bytes) : Stream noCipher := ⟨.little, .external, none, t ++ [nul], []⟩

theorem getChars_inside_iff_fits : ReadsInside 3 (arriving (ascii "ab")) :=
  (getChars_inside_iff _ 3 (by decide)).mpr (by decide +kernel)

/-- A string of two bytes for a buffer of two. -/
theorem getChars_behind_buffer :
    incoming (arriving (ascii "ab")) = ascii "ab" ∧
      getChars [0, 0] 2 (arriving (ascii "ab")) = none := by
  decide +kernel

end Stream
end Condor.Cedar
