import Mathlib.Data.List.Basic
import Mathlib.Logic.Function.Basic
import Condor.Cedar.InMsg

/-! A datagram is a whole message, or a fragment that goes to the message with its id in one of
seven chains. At most one message is ready: a datagram that arrives then closes it first. -/
namespace Condor.Cedar
open Condor.Utils Condor.Lib

def safeSockHashBucketSize : Nat := 7

def safeSockMaxBtwPktArvl : Nat := 10

def bucketOf (id : MsgId) : Fin safeSockHashBucketSize :=
  ⟨(id.ipAddr + id.time + id.msgNo).natAbs % safeSockHashBucketSize, Nat.mod_lt _ (by decide)⟩

/-- `longMsg` names the message that is ready, if it is a long one. -/
structure SafeSock where
  shortMsg : Packet
  inMsgs : Fin safeSockHashBucketSize → List InMsg
  longMsg : Option MsgId
  msgReady : Bool
  mdChecker : Option Digest
  outMsg : OutMsg

/-- The walk along a chain to the message with an id. Messages passed on the way that
have waited too long are deleted. -/
def findMsg (curTime : Nat) (mID : MsgId) : List InMsg → List InMsg × Option (InMsg × List InMsg)
  | [] => ([], none)
  | m :: rest =>
    if m.msgID = mID then ([], some (m, rest))
    else
      let found := findMsg curTime mID rest
      (if safeSockMaxBtwPktArvl < curTime - m.lastTime then found.1 else m :: found.1, found.2)

namespace SafeSock

def init : SafeSock :=
  { shortMsg := Packet.init
    inMsgs := fun _ => []
    longMsg := none
    msgReady := false
    mdChecker := none
    outMsg := OutMsg.init }

def setChain (s : SafeSock) (b : Fin safeSockHashBucketSize) (chain : List InMsg) : SafeSock :=
  { s with inMsgs := Function.update s.inMsgs b chain }

def current (s : SafeSock) : Option InMsg :=
  s.longMsg.bind fun id => (s.inMsgs (bucketOf id)).find? fun m => m.msgID = id

def modifyMsg (s : SafeSock) (id : MsgId) (f : InMsg → InMsg) : SafeSock :=
  s.setChain (bucketOf id)
    ((s.inMsgs (bucketOf id)).map fun m => if m.msgID = id then f m else m)

def endOfMessage (s : SafeSock) : Bool × SafeSock :=
  if !s.msgReady then (true, s)
  else
    match s.longMsg with
    | some id =>
      ((s.current.map InMsg.consumed).getD false,
        { s.setChain (bucketOf id) ((s.inMsgs (bucketOf id)).filter fun m => m.msgID ≠ id) with
          longMsg := none
          msgReady := false })
    | none => (s.shortMsg.consumed, { s with shortMsg := s.shortMsg.reset, msgReady := false })

/-- A fragment goes to the message with its id. The security header is taken from every
packet numbered 0, also when it has come before. -/
def addFragment (s : SafeSock) (f : Fragment) (payload : Bytes) (sec : Security) (now : Nat) :
    Bool × SafeSock :=
  let index := bucketOf f.mID
  match findMsg now f.mID (s.inMsgs index) with
  | (kept, some (m, rest)) =>
    let m := if f.seq = 0 then m.setSec sec else m
    let added := m.addPacket f.last f.seq payload now
    let s := s.setChain index (kept ++ added.2 :: rest)
    if added.1 then (true, { s with longMsg := some f.mID, msgReady := true }) else (false, s)
  | (kept, none) =>
    (false, s.setChain index (kept ++ [InMsg.new f.mID f.last f.seq payload sec now]))

/-- `handle_incoming_packet`: true when a message becomes ready. -/
def handleIncomingPacket (s : SafeSock) (datagram : Bytes) (now : Nat) : Bool × SafeSock :=
  let s := if s.msgReady then s.endOfMessage.2 else s
  let decision := s.shortMsg.decision datagram
  let s := { s with shortMsg := (s.shortMsg.receive datagram).2 }
  match decision with
  | none => (false, s)
  | some taken =>
    match taken.fragment with
    | none => (true, { s with shortMsg := { s.shortMsg with curIndex := 0 }, msgReady := true })
    | some f => s.addFragment f taken.payload ⟨taken.md5KeyId, taken.md, taken.encKeyId⟩ now

def verifyMD (s : SafeSock) (key : Option Digest) : Bool × SafeSock :=
  let s := { s with mdChecker := key }
  match s.longMsg with
  | some id =>
    ((s.current.map fun m => (m.verifyMD key).1).getD false,
      s.modifyMsg id fun m => (m.verifyMD key).2)
  | none => ((s.shortMsg.verifyMD key).1, { s with shortMsg := (s.shortMsg.verifyMD key).2 })

def initMD (s : SafeSock) (key : Option Digest) (keyId : Option Bytes) : Bool × SafeSock :=
  let checked := s.verifyMD key
  let out := checked.2.outMsg.initMD keyId
  (checked.1 && out.1, { checked.2 with outMsg := out.2 })

/-- `get_bytes` once a message is ready, without encryption. -/
def getBytes (s : SafeSock) (size : Nat) : Option Bytes × SafeSock :=
  match s.longMsg with
  | some id =>
    ((s.current.map fun m => (m.getn size).1).getD none, s.modifyMsg id fun m => (m.getn size).2)
  | none => ((s.shortMsg.getn size).1, { s with shortMsg := (s.shortMsg.getn size).2 })

end SafeSock
end Condor.Cedar
