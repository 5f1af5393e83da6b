import Mathlib.Data.List.Basic
import Condor.Cedar.Stream
import Condor.Cedar.Buffers

/-! A packet is an end flag, a length, a digest when digests are on, and the payload. The sender
flushes its buffer when it is full; the receiver chains the payloads until the end flag. The socket
is the bytes written to it and the bytes that can be read; other reads fail. -/
namespace Condor.Cedar
open Condor.Lib Condor.Utils

inductive MdMode where
  | off
  | alwaysOn
  | explicit
  deriving DecidableEq, Repr

def macSize : Nat := 16
def normalHeaderSize : Nat := 5
def maxHeaderSize : Nat := macSize + normalHeaderSize

/-- `Condor_MD_MAC` with its key. -/
structure Digest where
  compute : Bytes → Bytes
  size : ∀ data, (compute data).length = macSize

/-- The digest of a buffer to be sent; the place of the payload is written into it. With
fewer bytes than that the length is taken for a huge one. -/
def Buf.computeMD (b : Buf) (checker : Digest) : Option Bytes :=
  if 21 ≤ b.dta.length then some (checker.compute (b.dta.drop 21)) else none

def Buf.verifyMD (b : Buf) (checkSUM : Bytes) (checker : Digest) : Bool :=
  checker.compute b.dta = checkSUM

structure SndMsg where
  mode : MdMode
  mdChecker : Digest
  buf : Buf

namespace SndMsg

def headerSize (mode : MdMode) : Nat := if mode ≠ .off then maxHeaderSize else normalHeaderSize

def mac (m : SndMsg) : Option Bytes :=
  if m.mode ≠ .off then m.buf.computeMD m.mdChecker else some []

def sndPacket (m : SndMsg) (last : Bool) : Option (Bytes × SndMsg) := do
  let header := headerSize m.mode
  let ns : Int := m.buf.dta.length - header
  let len := bigEndian 4 (ns % 2 ^ 32).toNat
  let mac ← m.mac
  let (packet, buf) := m.buf.flush ((if last then 1 else 0) :: len ++ mac)
  if (packet.length : Int) = ns + header then some (packet, { m with buf := buf }) else none

end SndMsg

structure RcvMsg where
  mode : MdMode
  mdChecker : Digest
  buf : ChainBuf
  ready : Bool

namespace RcvMsg

/-- A read that cannot be served leaves nothing in the socket. -/
def rcvPacket (m : RcvMsg) (sock : Bytes) : Bool × RcvMsg × Bytes :=
  let header := SndMsg.headerSize m.mode
  if sock.length < header then (false, m, [])
  else
    let hdr := sock.take header
    let sock := sock.drop header
    let last := (hdr.headD 0).toNat
    let len := (BitVec.ofNat 32 (ofBigEndian ((hdr.drop 1).take 4))).toInt
    -- a `char` above 127 is negative
    if 10 < last then (false, m, sock)
    else if (condorIoBufSize : Int) < len then (false, m, sock)
    else if len ≤ 0 then (false, m, sock)
    else
      match Buf.read len.toNat sock with
      | none => (false, m, [])
      | some (tmp, sock) =>
        if m.mode ≠ .off && !tmp.verifyMD (hdr.drop 5) m.mdChecker then (false, m, sock)
        else
          (true, { m with buf := m.buf.put tmp, ready := m.ready || last ≠ 0 }, sock)

end RcvMsg

structure ReliSock (C : Cipher) where
  mdMode : MdMode
  sndMsg : SndMsg
  rcvMsg : RcvMsg
  ignoreNextEncodeEom : Bool
  ignoreNextDecodeEom : Bool
  allowEmptyMessageFlag : Bool
  crypto : Option C.State
  cryptoStart : Option C.State
  written : Bytes
  sock : Bytes

namespace ReliSock
variable {C : Cipher}

def connected (mode : MdMode) (checker : Digest) (key : Option C.State) : ReliSock C where
  mdMode := mode
  sndMsg := ⟨mode, checker, Buf.reset⟩
  rcvMsg := ⟨mode, checker, ChainBuf.reset, false⟩
  ignoreNextEncodeEom := false
  ignoreNextDecodeEom := false
  allowEmptyMessageFlag := false
  crypto := key
  cryptoStart := key
  written := []
  sock := []

def isOutgoingMD5On (s : ReliSock C) : Bool := s.mdMode = .alwaysOn

def makeRoom (m : SndMsg) (written : Bytes) : Option (SndMsg × Bytes) :=
  if m.buf.full then (m.sndPacket false).map fun (packet, m) => (m, written ++ packet)
  else some (m, written)

/-- The loop of `put_bytes`. It makes progress in every pass, so that there are not more
passes than bytes; `none` when a packet could not be sent. -/
def putLoop (headerSize : Nat) : Nat → SndMsg → Bytes → Bytes → Option (SndMsg × Bytes)
  | 0, m, written, _ => some (m, written)
  | fuel + 1, m, written, data => do
    let (m, written) ← makeRoom m written
    let buf := if m.buf.empty then m.buf.seek headerSize else m.buf
    let (buf, tw) := buf.putMax data
    if data.length ≤ tw then some ({ m with buf := buf }, written)
    else putLoop headerSize fuel { m with buf := buf } written (data.drop tw)

def putBytes (s : ReliSock C) (data : Bytes) : Bool × ReliSock C :=
  let headerSize := if s.isOutgoingMD5On then maxHeaderSize else normalHeaderSize
  let (dta, crypto) := C.wrap s.crypto data
  let s := { s with crypto := crypto, ignoreNextEncodeEom := false }
  match putLoop headerSize (dta.length + 1) s.sndMsg s.written dta with
  | none => (false, s)
  | some (m, written) => (true, { s with sndMsg := m, written := written })

/-- `while( !rcv_msg.ready ) handle_incoming_packet()`; every packet takes bytes from
the socket. -/
def awaitMessage : Nat → RcvMsg → Bytes → Bool × RcvMsg × Bytes
  | 0, m, sock => (m.ready, m, sock)
  | fuel + 1, m, sock =>
    if m.ready then (true, m, sock)
    else
      match m.rcvPacket sock with
      | (false, m, sock) => (false, m, sock)
      | (true, m, sock) => awaitMessage fuel m sock

/-- The bytes that `get_bytes` stores, none if it fails. -/
def getBytes (s : ReliSock C) (maxSz : Nat) : Bytes × ReliSock C :=
  let s := { s with ignoreNextDecodeEom := false }
  match awaitMessage s.sock.length s.rcvMsg s.sock with
  | (false, m, sock) => ([], { s with rcvMsg := m, sock := sock })
  | (true, m, sock) =>
    let (bytes, buf) := m.buf.get maxSz
    let (data, crypto) := C.unwrap s.crypto bytes
    (data, { s with rcvMsg := { m with buf := buf }, sock := sock, crypto := crypto })

def endOfMessageEncode (s : ReliSock C) : Bool × ReliSock C :=
  let s := { s with crypto := s.cryptoStart }
  if s.ignoreNextEncodeEom then (true, { s with ignoreNextEncodeEom := false })
  else if !s.sndMsg.buf.empty then
    match s.sndMsg.sndPacket true with
    | none => (false, s)
    | some (packet, m) => (true, { s with sndMsg := m, written := s.written ++ packet })
  else if s.allowEmptyMessageFlag then (true, { s with allowEmptyMessageFlag := false })
  else (false, s)

def endOfMessageDecode (s : ReliSock C) : Bool × ReliSock C :=
  let s := { s with crypto := s.cryptoStart }
  if s.ignoreNextDecodeEom then (true, { s with ignoreNextDecodeEom := false })
  else
    let (retVal, m) :=
      if s.rcvMsg.ready then
        (s.rcvMsg.buf.consumed, { s.rcvMsg with ready := false, buf := ChainBuf.reset })
      else (false, s.rcvMsg)
    let s := { s with rcvMsg := m }
    if s.allowEmptyMessageFlag then (true, { s with allowEmptyMessageFlag := false })
    else (retVal, s)

def putAll (s : ReliSock C) : List Bytes → ReliSock C
  | [] => s
  | data :: more => putAll (s.putBytes data).2 more

def getAll (s : ReliSock C) : List Nat → List Bytes × ReliSock C
  | [] => ([], s)
  | n :: more =>
    let (data, s) := s.getBytes n
    let (rest, s) := getAll s more
    (data :: rest, s)

def getPtr (s : ReliSock C) (delim : UInt8) : Option Bytes × ReliSock C :=
  match awaitMessage s.sock.length s.rcvMsg s.sock with
  | (false, m, sock) => (none, { s with rcvMsg := m, sock := sock })
  | (true, m, sock) =>
    let (data, buf) := m.buf.getTmp delim
    (data, { s with rcvMsg := { m with buf := buf }, sock := sock })

def peek (s : ReliSock C) : Option UInt8 × ReliSock C :=
  match awaitMessage s.sock.length s.rcvMsg s.sock with
  | (false, m, sock) => (none, { s with rcvMsg := m, sock := sock })
  | (true, m, sock) =>
    let (c, buf) := m.buf.peek
    (c, { s with rcvMsg := { m with buf := buf }, sock := sock })

end ReliSock
end Condor.Cedar
