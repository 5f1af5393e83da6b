import Mathlib.Data.List.Basic
import Condor.Lib.Attempt
import Condor.Lib.ByteOrder
import Condor.Utils.Stdio

/-! `Stream` turns C values into bytes and back. The sockets are left out: what was put stands on
the wire until the other end gets it. The hosts are LP64, and may differ in byte order. -/
namespace Condor.Cedar
open Condor.Lib Condor.Utils

inductive ByteOrder where
  | little
  | big
  deriving DecidableEq, Repr

inductive StreamCode where
  | internal
  | external
  | ascii
  deriving DecidableEq, Repr

/-- A session key in cipher feedback mode: each byte moves the state on, and the end
that decrypts follows the end that encrypts. -/
structure Cipher where
  State : Type
  encrypt : State → UInt8 → UInt8 × State
  decrypt : State → UInt8 → UInt8 × State
  decrypt_encrypt : ∀ k b, decrypt k (encrypt k b).1 = (b, (encrypt k b).2)

namespace Cipher
variable (C : Cipher)

/-- `wrap`; without a key the bytes go as they are. -/
def wrap : Option C.State → Bytes → Bytes × Option C.State
  | none, data => (data, none)
  | some k, [] => ([], some k)
  | some k, b :: data =>
    let (c, k) := C.encrypt k b
    let (cs, k) := wrap (some k) data
    (c :: cs, k)

def unwrap : Option C.State → Bytes → Bytes × Option C.State
  | none, data => (data, none)
  | some k, [] => ([], some k)
  | some k, c :: data =>
    let (b, k) := C.decrypt k c
    let (bs, k) := unwrap (some k) data
    (b :: bs, k)

@[simp] theorem wrap_none (data : Bytes) : C.wrap none data = (data, none) := by
  rw [wrap]

variable (k : Option C.State)

theorem length_unwrap (data : Bytes) : (C.unwrap k data).1.length = data.length := by
  induction data generalizing k with
  | nil => cases k <;> rfl
  | cons c data ih =>
    cases k with
    | none => rfl
    | some k => simp only [unwrap, List.length_cons, ih]

theorem unwrap_wrap (data : Bytes) : C.unwrap k (C.wrap k data).1 = (data, (C.wrap k data).2) := by
  induction data generalizing k with
  | nil => cases k <;> rfl
  | cons b data ih =>
    cases k with
    | none => rfl
    | some k => simp only [wrap, unwrap, C.decrypt_encrypt, ih]

theorem length_wrap (data : Bytes) : (C.wrap k data).1.length = data.length := by
  rw [← C.length_unwrap k, unwrap_wrap]

theorem wrap_append (a b : Bytes) :
    C.wrap k (a ++ b) =
      ((C.wrap k a).1 ++ (C.wrap (C.wrap k a).2 b).1, (C.wrap (C.wrap k a).2 b).2) := by
  induction a generalizing k with
  | nil => cases k <;> rfl
  | cons c a ih =>
    cases k with
    | none => simp only [wrap_none]
    | some k => simp only [List.cons_append, wrap, ih]

end Cipher

def noCipher : Cipher where
  State := Empty
  encrypt k := k.elim
  decrypt k := k.elim
  decrypt_encrypt k := k.elim

/-- One end of a connection. The wire is what this end has put, or has yet to get. -/
structure Stream (C : Cipher) where
  host : ByteOrder
  code : StreamCode
  crypto : Option C.State
  wire : Bytes
  decryptBuf : Bytes

/-- A call on a stream; it returns `TRUE` with a value, or `FALSE`. -/
abbrev Coding (C : Cipher) := Attempt (Stream C)

namespace Stream
variable {C : Cipher}

def getEncryption (s : Stream C) : Bool := s.crypto.isSome

def putBytes (data : Bytes) : Coding C Unit := do
  let s ← Attempt.look
  let (data, crypto) := C.wrap s.crypto data
  Attempt.replace { s with crypto := crypto, wire := s.wire ++ data }

/-- Fewer than `n` bytes are taken too, but then the caller gives up. -/
def getBytes (n : Nat) : Coding C Bytes := do
  let s ← Attempt.look
  let (data, crypto) := C.unwrap s.crypto (s.wire.take n)
  Attempt.replace { s with crypto := crypto, wire := s.wire.drop n }
  if data.length = n then pure data else Attempt.fail

def send (s : Stream C) (data : Bytes) : Stream C :=
  { s with crypto := (C.wrap s.crypto data).2, wire := s.wire ++ (C.wrap s.crypto data).1 }

def awaiting (s : Stream C) (data rest : Bytes) : Stream C :=
  { s with wire := (C.wrap s.crypto data).1 ++ rest }

def past (s : Stream C) (data : Bytes) : Stream C :=
  { s with crypto := (C.wrap s.crypto data).2 }

variable (s : Stream C)

@[simp] theorem awaiting_code (data rest : Bytes) :
    (s.awaiting data rest).code = s.code := rfl

@[simp] theorem putBytes_apply (data : Bytes) (s : Stream C) :
    putBytes data s = (some (), s.send data) := rfl

theorem send_send (a b : Bytes) : (s.send a).send b = s.send (a ++ b) := by
  simp only [send, C.wrap_append, List.append_assoc]

theorem past_past (a b : Bytes) : (s.past a).past b = s.past (a ++ b) := by
  simp only [past, C.wrap_append]

theorem awaiting_nil (rest : Bytes) : s.awaiting [] rest = { s with wire := rest } := by
  cases s with
  | mk host code crypto wire buf => cases crypto <;> rfl

theorem getBytes_apply (n : Nat) (s : Stream C) :
    getBytes n s =
      (if n ≤ s.wire.length then some (C.unwrap s.crypto (s.wire.take n)).1 else none,
        { s with
          crypto := (C.unwrap s.crypto (s.wire.take n)).2
          wire := s.wire.drop n }) := by
  have enough : (C.unwrap s.crypto (s.wire.take n)).1.length = n ↔ n ≤ s.wire.length := by
    rw [C.length_unwrap, List.length_take]
    omega
  rw [getBytes, Attempt.look_bind]
  change (if List.length _ = n then pure _ else Attempt.fail : Coding C Bytes) _ = _
  simp only [enough]
  split <;> rfl

theorem getBytes_awaiting {n : Nat} {a : Bytes} (length : a.length = n) (b rest : Bytes) :
    getBytes n (s.awaiting (a ++ b) rest) = (some a, (s.past a).awaiting b rest) := by
  have whole : (s.awaiting (a ++ b) rest).wire =
      (C.wrap s.crypto a).1 ++ ((C.wrap (C.wrap s.crypto a).2 b).1 ++ rest) := by
    simp only [awaiting, C.wrap_append, List.append_assoc]
  have size : (C.wrap s.crypto a).1.length = n := by rw [C.length_wrap, length]
  have front : (s.awaiting (a ++ b) rest).wire.take n = (C.wrap s.crypto a).1 := by
    rw [whole, List.take_left' size]
  have back : (s.awaiting (a ++ b) rest).wire.drop n =
      (C.wrap (C.wrap s.crypto a).2 b).1 ++ rest := by
    rw [whole, List.drop_left' size]
  have plain : C.unwrap (s.awaiting (a ++ b) rest).crypto (C.wrap s.crypto a).1 =
      (a, (C.wrap s.crypto a).2) := C.unwrap_wrap s.crypto a
  have enough : n ≤ (s.awaiting (a ++ b) rest).wire.length := by
    rw [whole, List.length_append, size]
    exact Nat.le_add_right _ _
  rw [getBytes_apply, if_pos enough, front, back, plain]
  rfl

def peek : Coding C UInt8 := do
  match (← Attempt.look).wire with
  | [] => Attempt.fail
  | c :: _ => pure c

def getPtr (delim : UInt8) : Coding C Bytes := do
  let s ← Attempt.look
  match scanUntil (· = delim) s.wire with
  | (_, none, _) => Attempt.fail
  | (word, some c, rest) =>
    Attempt.replace { s with wire := rest }
    pure (word ++ [c])

/-! ### Integers -/

def intSize : Nat := 8

def memory (host : ByteOrder) (size : Nat) {w : Nat} (x : BitVec w) : Bytes :=
  match host with
  | .little => littleEndian size x.toNat
  | .big => bigEndian size x.toNat

def load (host : ByteOrder) (w : Nat) (bs : Bytes) : BitVec w :=
  match host with
  | .little => BitVec.ofNat w (ofLittleEndian bs)
  | .big => BitVec.ofNat w (ofBigEndian bs)

/-- `htonl`, `htonL` and their inverses: the bytes in memory the other way round, on a
host that is not in network order. -/
def hton (host : ByteOrder) (size : Nat) {w : Nat} (x : BitVec w) : BitVec w :=
  match host with
  | .little => load .little w (memory .little size x).reverse
  | .big => x

def putPad (pad : UInt8) : Nat → Coding C Unit
  | 0 => pure ()
  | n + 1 => do
    putBytes [pad]
    putPad pad n

def putExternal (size : Nat) {w : Nat} (pad : UInt8) (x : BitVec w) : Coding C Unit := do
  let host := (← Attempt.look).host
  let tmp := hton host size x
  putPad pad (intSize - size)
  putBytes (memory host size tmp)

def putInternal (size : Nat) {w : Nat} (x : BitVec w) : Coding C Unit := do
  putBytes (memory (← Attempt.look).host size x)

def putInt (i : BitVec 32) : Coding C Unit := do
  match (← Attempt.look).code with
  | .internal => putInternal 4 i
  | .external => putExternal 4 (if 0 ≤ i.toInt then 0 else 0xff) i
  | .ascii => Attempt.fail

def putUnsignedInt (i : BitVec 32) : Coding C Unit := do
  match (← Attempt.look).code with
  | .internal => putInternal 4 i
  | .external => putExternal 4 0 i
  | .ascii => Attempt.fail

/-- A long fills the eight bytes, so no pad is put. -/
def putLong (l : BitVec 64) : Coding C Unit := do
  match (← Attempt.look).code with
  | .internal => putInternal 8 l
  | .external => putExternal 8 0 l
  | .ascii => Attempt.fail

def putUnsignedLong (l : BitVec 64) : Coding C Unit := putLong l

def putShort (s : BitVec 16) : Coding C Unit := do
  match (← Attempt.look).code with
  | .internal => putInternal 2 s
  | .external => putInt (s.signExtend 32)
  | .ascii => Attempt.fail

def putUnsignedShort (s : BitVec 16) : Coding C Unit := do
  match (← Attempt.look).code with
  | .internal => putInternal 2 s
  | .external => putUnsignedInt (s.setWidth 32)
  | .ascii => Attempt.fail

def getInternal (size w : Nat) : Coding C (BitVec w) := do
  let host := (← Attempt.look).host
  let bs ← getBytes size
  pure (load host w bs)

/-- The pad bytes are compared with the sign of what follows them. -/
def getExternal (size w : Nat) (sign : BitVec w → UInt8) : Coding C (BitVec w) := do
  let host := (← Attempt.look).host
  let pad ← getBytes (intSize - size)
  let tmp ← getBytes size
  let i := hton host size (load host w tmp)
  if pad.all (· = sign i) then pure i else Attempt.fail

def getInt : Coding C (BitVec 32) := do
  match (← Attempt.look).code with
  | .internal => getInternal 4 32
  | .external => getExternal 4 32 fun i => if 0 ≤ i.toInt then 0 else 0xff
  | .ascii => Attempt.fail

def getUnsignedInt : Coding C (BitVec 32) := do
  match (← Attempt.look).code with
  | .internal => getInternal 4 32
  | .external => getExternal 4 32 fun _ => 0
  | .ascii => Attempt.fail

def getLong : Coding C (BitVec 64) := do
  match (← Attempt.look).code with
  | .internal => getInternal 8 64
  | .external => getExternal 8 64 fun l => if 0 ≤ l.toInt then 0 else 0xff
  | .ascii => Attempt.fail

def getUnsignedLong : Coding C (BitVec 64) := do
  match (← Attempt.look).code with
  | .internal => getInternal 8 64
  | .external => getExternal 8 64 fun _ => 0
  | .ascii => Attempt.fail

/-- The `int` is cut to a `short` without a check. -/
def getShort : Coding C (BitVec 16) := do
  match (← Attempt.look).code with
  | .internal => getInternal 2 16
  | .external => do
    let i ← getInt
    pure (i.setWidth 16)
  | .ascii => Attempt.fail

def getUnsignedShort : Coding C (BitVec 16) := do
  match (← Attempt.look).code with
  | .internal => getInternal 2 16
  | .external => do
    let i ← getUnsignedInt
    pure (i.setWidth 16)
  | .ascii => Attempt.fail

/-! ### Strings -/

/-- `BIN_NULL_CHAR`, which is the octal escape `"\255"`. -/
def binNullChar : UInt8 := 0o255

/-- The number of bytes is put only if they are encrypted. -/
def putLen (len : BitVec 32) : Coding C Unit := do
  if (← Attempt.look).getEncryption then putInt len else pure ()

/-- `len` is an `int`. A negative one is refused by the cipher; without a cipher the
copy of the string is not allocated and what happens is undefined. -/
def putString (s : Option Bytes) : Coding C Unit := do
  match (← Attempt.look).code with
  | .ascii => Attempt.fail
  | .internal | .external =>
    match s with
    | none => do
      putLen 1
      putBytes [binNullChar]
    | some s => do
      let len : BitVec 32 := BitVec.ofNat 32 (s.length + 1)
      putLen len
      if 0 ≤ len.toInt then putBytes ((s ++ [nul]).take len.toNat) else Attempt.fail

def cString (bs : Bytes) : Bytes := bs.takeWhile (· ≠ nul)

def getStringPlain : Coding C (Option Bytes) := do
  let c ← peek
  if c = binNullChar then do
    let _ ← getBytes 1
    pure none
  else do
    let word ← getPtr nul
    pure (some (cString word))

def decrypted (buf : Bytes) : Option Bytes :=
  if buf.head? = some binNullChar then none else some (cString buf)

/-- 6.3 with encryption support. The buffer is kept from call to call, and what is
received only covers its beginning. -/
def getStringEncrypted : Coding C (Option Bytes) := do
  let len ← getInt
  if len.toInt < 0 then Attempt.fail
  else do
    let data ← getBytes len.toNat
    let s ← Attempt.look
    let buf := data ++ s.decryptBuf.drop data.length
    Attempt.replace { s with decryptBuf := buf }
    pure (decrypted buf)

def getStringPtr : Coding C (Option Bytes) := do
  let s ← Attempt.look
  match s.code with
  | .ascii => Attempt.fail
  | .internal | .external => if !s.getEncryption then getStringPlain else getStringEncrypted

def getString : Coding C (Option Bytes) := getStringPtr

/-! ### From one end to the other -/

def other (s : Stream C) (host : ByteOrder) (buf : Bytes) : Stream C :=
  { s with host := host, decryptBuf := buf }

@[simp] theorem other_code (host : ByteOrder) (buf : Bytes) :
    (s.other host buf).code = s.code := rfl

def transfer {α : Type} (s : Stream C) (put : Coding C Unit) (host : ByteOrder) (buf : Bytes)
    (rest : Bytes) (get : Coding C α) : Option α × Stream C :=
  match put { s with wire := [] } with
  | (none, sent) => (none, sent)
  | (some (), sent) => get { s.other host buf with wire := sent.wire ++ rest }

theorem transfer_of_send {α : Type} {s : Stream C} {put : Coding C Unit} {bs : Bytes}
    (sends : put { s with wire := [] } = (some (), ({ s with wire := [] } : Stream C).send bs))
    (host : ByteOrder) (buf rest : Bytes) (get : Coding C α) :
    transfer s put host buf rest get = get ((s.other host buf).awaiting bs rest) := by
  rw [transfer, sends]
  rfl

end Stream
end Condor.Cedar
