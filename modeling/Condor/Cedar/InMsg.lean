import Mathlib.Data.List.Basic
import Mathlib.Data.List.TakeDrop
import Mathlib.Logic.Function.Basic
import Condor.Cedar.SafeMsg

/-! A message keeps its packets in pages of 41 entries, in a list that later packets extend. Reading
starts again at its head and frees each packet and each page once it has been read. -/
namespace Condor.Cedar
open Condor.Utils Condor.Lib

def safeMsgNoOfDirEntry : Nat := 41

structure DEntry where
  dLen : Nat
  dGram : Option Bytes
  deriving DecidableEq, Repr

def DEntry.unused : DEntry := ⟨0, none⟩

def DEntry.holding (data : Bytes) : DEntry := ⟨data.length, some data⟩

structure DirPage where
  dirNo : Nat
  dEntry : Fin safeMsgNoOfDirEntry → DEntry

def DirPage.new (num : Nat) : DirPage := ⟨num, fun _ => DEntry.unused⟩

def slot (seq : Nat) : Fin safeMsgNoOfDirEntry :=
    ⟨seq % safeMsgNoOfDirEntry, Nat.mod_lt _ (by decide)⟩

def DirPage.store (page : DirPage) (i : Fin safeMsgNoOfDirEntry) (e : DEntry) : DirPage :=
  { page with dEntry := Function.update page.dEntry i e }

def makeDirs : Nat → List DirPage
  | 0 => [DirPage.new 0]
  | n + 1 => makeDirs n ++ [DirPage.new (n + 1)]

/-- The walk of `addPacket` to a page, from the one at a place of the list. -/
def findDir : Nat → Nat → List DirPage → Nat → List DirPage × Nat
  | 0, _, dirs, curDir => (dirs, curDir)
  | fuel + 1, destDirNo, dirs, curDir =>
    match dirs[curDir]? with
    | none => (dirs, curDir)
    | some page =>
      if destDirNo = page.dirNo then (dirs, curDir)
      else if page.dirNo < destDirNo then
        if curDir + 1 = dirs.length then
          findDir fuel destDirNo (dirs ++ [DirPage.new (page.dirNo + 1)]) (curDir + 1)
        else findDir fuel destDirNo dirs (curDir + 1)
      else findDir fuel destDirNo dirs (curDir - 1)

/-- `_condorInMsg`. The pages are those from `headDir` on, `curDir` is a place among them
and is null where the list ends. -/
structure InMsg where
  msgID : MsgId
  msgLen : Nat
  lastNo : Nat
  received : Nat
  lastTime : Nat
  passed : Nat
  dirs : List DirPage
  curDir : Nat
  curPacket : Nat
  curData : Nat
  incomingMD5KeyId : Option Bytes
  incomingEncKeyId : Option Bytes
  md : Option Bytes
  verified : Bool

structure Security where
  md5KeyId : Option Bytes
  md : Option Bytes
  encKeyId : Option Bytes
  deriving DecidableEq, Repr

namespace InMsg

/-- A message without a MAC counts as verified. -/
def setSec (m : InMsg) (sec : Security) : InMsg :=
  { m with
    md := sec.md
    verified := sec.md.isNone
    incomingMD5KeyId := sec.md5KeyId
    incomingEncKeyId := sec.encKeyId }

def new (mID : MsgId) (last : Bool) (seq : Nat) (data : Bytes) (sec : Security) (now : Nat) :
    InMsg :=
  setSec
    { msgID := mID
      msgLen := data.length
      lastNo := if last then seq else 0
      received := 1
      lastTime := now
      passed := 0
      dirs := (makeDirs (seq / safeMsgNoOfDirEntry)).modify (seq / safeMsgNoOfDirEntry)
        fun page => page.store (slot seq) (DEntry.holding data)
      curDir := seq / safeMsgNoOfDirEntry
      curPacket := 0
      curData := 0
      incomingMD5KeyId := none
      incomingEncKeyId := none
      md := none
      verified := true }
    sec

def entry (m : InMsg) (i : Fin safeMsgNoOfDirEntry) : Option DEntry :=
  m.dirs[m.curDir]?.map fun page => page.dEntry i

def storePacket (m : InMsg) (last : Bool) (seq : Nat) (data : Bytes) (now : Nat) : Bool × InMsg :=
  let m :=
    { m with
      dirs := m.dirs.modify m.curDir fun page => page.store (slot seq) (DEntry.holding data)
      msgLen := m.msgLen + data.length
      lastNo := if last then seq else m.lastNo
      received := m.received + 1 }
  if m.lastNo + 1 = m.received then (true, { m with curDir := 0, curPacket := 0, curData := 0 })
  else (false, { m with lastTime := now })

def addPacket (m : InMsg) (last : Bool) (seq : Nat) (data : Bytes) (now : Nat) : Bool × InMsg :=
  if m.lastNo ≠ 0 ∧ m.lastNo + 1 = m.received then (false, m)
  else
    let destDirNo := seq / safeMsgNoOfDirEntry
    let found := findDir (m.dirs.length + destDirNo + 1) destDirNo m.dirs m.curDir
    let m := { m with dirs := found.1, curDir := found.2 }
    match m.entry (slot seq) with
    | none => (false, m)
    | some e => if e.dLen = 0 then m.storePacket last seq data now else (false, m)

def pagesData (dirs : List DirPage) : Bytes :=
  dirs.flatMap fun page => (List.ofFn page.dEntry).flatMap fun e => e.dGram.getD []

def verifyMD (m : InMsg) (mdChecker : Option Digest) : Bool × InMsg :=
  if m.verified then (true, m)
  else if m.curDir ≠ 0 then (false, m)
  else
    match mdChecker, m.md with
    | some checker, some md =>
      let ok : Bool := checker.compute (pagesData m.dirs) = md
      (ok, { m with verified := ok })
    | _, _ => (false, m)

/-- The entry that has been read is freed, and its page after the last entry. -/
def freeEntry (m : InMsg) : InMsg :=
  let dirs := m.dirs.modify m.curDir fun page =>
    page.store (slot m.curPacket) { page.dEntry (slot m.curPacket) with dGram := none }
  if m.curPacket + 1 = safeMsgNoOfDirEntry then
    { m with dirs := dirs.tail, curDir := 0, curPacket := 0, curData := 0 }
  else { m with dirs := dirs, curPacket := m.curPacket + 1, curData := 0 }

def incrementCurData (m : InMsg) (n : Nat) : InMsg :=
  let m := { m with curData := m.curData + n, passed := m.passed + n }
  match m.entry (slot m.curPacket) with
  | none => m
  | some e => if m.curData = e.dLen then m.freeEntry else m

/-- The loop of `getn`; `none` where it would not come to an end. -/
def getLoop : Nat → InMsg → Nat → Option (Bytes × InMsg)
  | _, m, 0 => some ([], m)
  | 0, _, _ + 1 => none
  | fuel + 1, m, size + 1 =>
    match m.entry (slot m.curPacket) with
    | none => none
    | some e =>
      let len := min (size + 1) (e.dLen - m.curData)
      let bytes := ((e.dGram.getD []).drop m.curData).take len
      (getLoop fuel (m.incrementCurData len) (size + 1 - len)).map fun rest =>
        (bytes ++ rest.1, rest.2)

/-- The next `size` bytes; `none` where the source returns -1. -/
def getn (m : InMsg) (size : Nat) : Option Bytes × InMsg :=
  if m.msgLen < m.passed + size then (none, m)
  else
    match getLoop size m size with
    | none => (none, m)
    | some read => (some read.1, read.2)

def consumed (m : InMsg) : Bool := m.msgLen ≠ 0 ∧ m.msgLen = m.passed

end InMsg
end Condor.Cedar
