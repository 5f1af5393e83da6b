import Mathlib.Data.List.Basic
import Mathlib.Data.List.TakeDrop
import Condor.Lib.Memory
import Condor.Cedar.ReliSock

/-! A message goes out as one short datagram, or as fragments with a header of 25 bytes; either may
carry a security header. The receiver reads every datagram into the same buffer, so a received
packet holds the buffer with what was in it before. -/
namespace Condor.Cedar
open Condor.Utils Condor.Lib

def safeMsgHeaderSize : Nat := 25

def safeMsgFragmentSize : Nat := 1000

def usablePacketSize : Nat := safeMsgFragmentSize - safeMsgHeaderSize

def safeMsgMaxPacketSize : Nat := 60000

def safeMsgCryptoHeaderSize : Nat := 10

def safeMsgMagic : Bytes := ascii "MaGic6.0"

def cryptoTag : Bytes := ascii "CRAP"

structure MsgId where
  ipAddr : Int
  pid : Int
  time : Int
  msgNo : Int
  deriving DecidableEq, Repr

/-- The low bytes of a value, as the conversions before a `memcpy` leave them. -/
def truncated (bytes : Nat) (v : Int) : Nat := (v % 256 ^ bytes).toNat

def MsgId.received (id : MsgId) : MsgId :=
  { ipAddr := truncated 4 id.ipAddr
    pid := truncated 2 id.pid
    time := truncated 4 id.time
    msgNo := truncated 2 id.msgNo }

/-! ## Sending -/

structure OutPacket where
  reserved : Nat
  payload : Bytes
  outgoingMD5KeyId : Option Bytes
  outgoingEncKeyId : Option Bytes
  deriving DecidableEq, Repr

namespace OutPacket

def init : OutPacket := ⟨0, [], none, none⟩

def curIndex (p : OutPacket) : Nat := p.reserved + p.payload.length

def full (p : OutPacket) : Bool := p.curIndex = usablePacketSize

/-- The size of the security header as `empty` and `reset` count it. -/
def forward (p : OutPacket) : Nat :=
  let keys := (p.outgoingMD5KeyId.elim 0 fun id => macSize + id.length)
    + p.outgoingEncKeyId.elim 0 List.length
  if 0 < keys then keys + safeMsgCryptoHeaderSize else 0

def empty (p : OutPacket) : Bool := p.curIndex = p.forward

/-- What `set_encryption_id` and `init_MD` leave of the room when a key id goes. -/
def release (reserved size : Nat) : Nat :=
  if reserved - size = safeMsgCryptoHeaderSize then 0 else reserved - size

def claim (reserved size : Nat) : Nat :=
  (if reserved = 0 then safeMsgCryptoHeaderSize else reserved) + size

def setEncryptionId (p : OutPacket) (keyId : Option Bytes) : OutPacket :=
  let kept := p.outgoingEncKeyId.elim p.reserved fun id =>
    if 0 < p.reserved then release p.reserved id.length else p.reserved
  { p with
    outgoingEncKeyId := keyId
    reserved := keyId.elim kept fun id => claim kept id.length }

def initMD (p : OutPacket) (keyId : Option Bytes) : OutPacket :=
  let kept := p.outgoingMD5KeyId.elim p.reserved fun id =>
    if 0 < p.reserved then release p.reserved (macSize + id.length) else p.reserved
  { p with
    outgoingMD5KeyId := keyId
    reserved := keyId.elim kept fun id => claim kept (macSize + id.length) }

def putMax (p : OutPacket) (dta : Bytes) : OutPacket × Nat :=
  let left := usablePacketSize - p.curIndex
  ({ p with payload := p.payload ++ dta.take left }, min dta.length left)

def flags (p : OutPacket) : Nat :=
  (if p.outgoingMD5KeyId.isSome then 1 else 0) + (if p.outgoingEncKeyId.isSome then 2 else 0)

def addExtendedHeader (p : OutPacket) (mac : Option Bytes) : Bytes :=
  (match mac, p.outgoingMD5KeyId with
    | some mac, some id => id ++ mac
    | _, _ => []) ++ p.outgoingEncKeyId.getD []

/-- The bytes from `data` on. Room that nothing is copied into stays zero. -/
def data (p : OutPacket) (mac : Option Bytes) : Bytes :=
  let header :=
    if p.flags ≠ 0 then
      cryptoTag ++ bigEndian 2 p.flags
        ++ bigEndian 2 (p.outgoingMD5KeyId.elim 0 List.length)
        ++ bigEndian 2 (p.outgoingEncKeyId.elim 0 List.length)
        ++ p.addExtendedHeader mac
    else []
  header ++ List.replicate (p.reserved - header.length) 0 ++ p.payload

/-- The 25 bytes in front of `data`. -/
def makeHeader (p : OutPacket) (last : Bool) (seqNo : Nat) (msgID : MsgId) : Bytes :=
  safeMsgMagic ++ [if last then 1 else 0] ++ bigEndian 2 seqNo ++ bigEndian 2 p.curIndex
    ++ bigEndian 4 (truncated 4 msgID.ipAddr) ++ bigEndian 2 (truncated 2 msgID.pid)
    ++ bigEndian 4 (truncated 4 msgID.time) ++ bigEndian 2 (truncated 2 msgID.msgNo)

end OutPacket

/-- The packets of a message that are full, and the one being filled. -/
structure OutMsg where
  filled : List OutPacket
  lastPacket : OutPacket
  deriving DecidableEq, Repr

namespace OutMsg

def init : OutMsg := ⟨[], OutPacket.init⟩

def headPacket (m : OutMsg) : OutPacket := m.filled.headD m.lastPacket

/-- `setEncryptionId` and `initMD` reach only the first packet, while it is empty. -/
def setKey (set : OutPacket → Option Bytes → OutPacket) (m : OutMsg) (keyId : Option Bytes) :
    Bool × OutMsg :=
  if m.filled ≠ [] ∨ !m.headPacket.empty then (false, m)
  else (true, { m with lastPacket := set m.lastPacket keyId })

def setEncryptionId : OutMsg → Option Bytes → Bool × OutMsg := setKey OutPacket.setEncryptionId

def initMD : OutMsg → Option Bytes → Bool × OutMsg := setKey OutPacket.initMD

def nextPacket (m : OutMsg) : OutMsg :=
  if m.lastPacket.full then ⟨m.filled ++ [m.lastPacket], OutPacket.init⟩ else m

def putMax (m : OutMsg) (dta : Bytes) : OutMsg × Nat :=
  let m := m.nextPacket
  ({ m with lastPacket := (m.lastPacket.putMax dta).1 }, (m.lastPacket.putMax dta).2)

def putLoop : Nat → OutMsg → Bytes → OutMsg
  | 0, m, _ => m
  | fuel + 1, m, dta =>
    if dta = [] then m
    else putLoop fuel (m.putMax dta).1 (dta.drop (m.putMax dta).2)

def putn (m : OutMsg) (dta : Bytes) : OutMsg := putLoop dta.length m dta

/-- The datagrams of the full packets. Only the first one carries the MAC. -/
def sendFilled (msgID : MsgId) : List OutPacket → Nat → Option Bytes → List Bytes
  | [], _, _ => []
  | p :: rest, seqNo, md =>
    (p.makeHeader false seqNo msgID ++ p.data md) :: sendFilled msgID rest (seqNo + 1) none

def sendMsg (m : OutMsg) (msgID : MsgId) (mac : Option Bytes) : List Bytes :=
  if m.headPacket.empty then []
  else if m.filled = [] then [m.lastPacket.data mac]
  else
    sendFilled msgID m.filled 0 mac
      ++ [m.lastPacket.makeHeader true m.filled.length msgID ++ m.lastPacket.data none]

end OutMsg

/-! ## Receiving -/

/-- A packet as the receiver uses it. `data` is a place in `dataGram`. -/
structure Packet where
  dataGram : Memory UInt8
  length : Int
  data : Nat
  curIndex : Nat
  verified : Bool
  incomingMD5KeyId : Option Bytes
  incomingEncKeyId : Option Bytes
  md : Option Bytes

structure Fragment where
  last : Bool
  seq : Nat
  mID : MsgId
  deriving DecidableEq, Repr

def field (m : Memory UInt8) (off size : Nat) : Nat := ofBigEndian (m.slice off size)

def Fragment.read (m : Memory UInt8) : Fragment :=
  { last := m 8 ≠ 0
    seq := field m 9 2
    mID :=
      { ipAddr := field m 13 4
        pid := field m 17 2
        time := field m 19 4
        msgNo := field m 23 2 } }

def short (w : Nat) : Int := Int.bmod w (2 ^ 16)

namespace Packet

def init : Packet :=
  { dataGram := fun _ => 0
    length := 0
    data := safeMsgHeaderSize
    curIndex := 0
    verified := true
    incomingMD5KeyId := none
    incomingEncKeyId := none
    md := none }

/-- A receiving packet has no outgoing key ids to leave room for. -/
def reset (p : Packet) : Packet :=
  { p with curIndex := 0, length := 0, incomingMD5KeyId := none, incomingEncKeyId := none }

def advance (p : Packet) (n : Nat) : Packet :=
  { p with data := p.data + n, length := p.length - n }

def bytes (p : Packet) (n : Nat) : Bytes := p.dataGram.slice p.data n

def takeMD (p : Packet) (flags : Nat) (mdKeyIdLen : Int) : Packet :=
  if flags.testBit 0 ∧ 0 < mdKeyIdLen then
    let key := p.advance mdKeyIdLen.toNat
    { key.advance macSize with
      incomingMD5KeyId := some (p.bytes mdKeyIdLen.toNat)
      md := some (key.bytes macSize)
      verified := false }
  else p

def takeEnc (p : Packet) (flags : Nat) (encKeyIdLen : Int) : Packet :=
  if flags.testBit 1 ∧ 0 < encKeyIdLen then
    { p.advance encKeyIdLen.toNat with
      incomingEncKeyId := some (p.bytes encKeyIdLen.toNat) }
  else p

/-- `len` and `dta` of the source are the packet's own `length` and `data` afterwards. -/
def checkHeader (p : Packet) : Packet :=
  if p.bytes 4 = cryptoTag then
    let flags := field p.dataGram (p.data + 4) 2
    let mdKeyIdLen := short (field p.dataGram (p.data + 6) 2)
    let encKeyIdLen := short (field p.dataGram (p.data + 8) 2)
    ((p.advance safeMsgCryptoHeaderSize).takeMD flags mdKeyIdLen).takeEnc flags encKeyIdLen
  else p

/-- The header of the datagram in the buffer; `none` where the packet is a whole message. -/
def getHeader (p : Packet) (len : Int) : Option Fragment × Packet :=
  let m := p.dataGram
  let p := { p with md := none }
  if m.slice 0 8 ≠ safeMsgMagic then
    (none,
      { p with length := if 0 ≤ len then len else p.length, data := 0 }.checkHeader)
  else
    (some (Fragment.read m),
      { p with length := field m 11 2, data := safeMsgHeaderSize }.checkHeader)

def payload (p : Packet) : Bytes := p.bytes p.length.toNat

/-- A packet without a MAC does not pass with a key, and any packet passes without one. -/
def verifyMD (p : Packet) (mdChecker : Option Digest) : Bool × Packet :=
  match mdChecker with
  | none => (true, { p with verified := true })
  | some checker =>
    match p.md with
    | none => (false, { p with verified := false })
    | some md =>
      if p.curIndex = 0 ∧ !p.verified then
        let ok : Bool := checker.compute p.payload = md
        (ok, { p with verified := ok })
      else if p.curIndex ≠ 0 then (false, { p with verified := false })
      else (p.verified, p)

def getn (p : Packet) (size : Nat) : Option Bytes × Packet :=
  if p.length < p.curIndex + size then (none, p)
  else
    (some (p.dataGram.slice (p.data + p.curIndex) size), { p with curIndex := p.curIndex + size })

def consumed (p : Packet) : Bool := p.length = p.curIndex

/-- The packet after `recvfrom` has stored a datagram in its buffer. -/
def recvfrom (p : Packet) (datagram : Bytes) : Packet :=
  { p with dataGram := Memory.overlay datagram p.dataGram }

end Packet

/-! ## The decision on a datagram -/

def Packet.receive (p : Packet) (datagram : Bytes) : Option Fragment × Packet :=
  (p.recvfrom datagram).reset.getHeader datagram.length

def Packet.properlySized (p : Packet) : Bool :=
  0 < p.length ∧ p.length ≤ safeMsgMaxPacketSize

/-- What is taken over from a datagram that is not rejected: a whole message or a
fragment, its payload and its security header. -/
structure Taken where
  fragment : Option Fragment
  payload : Bytes
  md5KeyId : Option Bytes
  md : Option Bytes
  encKeyId : Option Bytes
  deriving DecidableEq, Repr

def Packet.taken (p : Packet) (fragment : Option Fragment) : Taken :=
  ⟨fragment, p.payload, p.incomingMD5KeyId, p.md, p.incomingEncKeyId⟩

/-- The decision of `handle_incoming_packet`; `none` where the datagram is rejected. -/
def Packet.decision (p : Packet) (datagram : Bytes) : Option Taken :=
  let received := p.receive datagram
  if received.2.properlySized then some (received.2.taken received.1) else none

end Condor.Cedar
