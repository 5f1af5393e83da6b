import Condor.TransactionLog.Table
import Condor.Lib.Run

/-! The table, the open transaction and the log file, the rotation of the file and the constructor
that rebuilds the table. `EXCEPT` is an error of the model. Of the system calls only success or
failure is modelled. -/
namespace Condor.TransactionLog
open Condor.Lib Condor.Utils

structure ClassAdLog where
  table : ClassAdHashTable
  /-- `ordered_op_log` of the open transaction. -/
  activeTransaction : Option (List LogRecord)
  maxHistoricalLogs : Nat
  historicalSequenceNumber : UInt64
  originalLogBirthdate : UInt64
  nondurableLevel : Int
  file : Bytes

structure SystemCalls where
  logOpened : Bool
  historySaved : Bool
  tmpOpened : Bool
  stateSynced : Bool
  rotated : Bool
  reopened : Bool

def SystemCalls.Succeed (os : SystemCalls) : Prop :=
  os = ⟨true, true, true, true, true, true⟩

/-- `write_with_status` on the log file: nothing is written after a failure. -/
def writeWithStatus (out : Bytes × Bool) (r : LogRecord) : Bytes × Bool :=
  if out.2 then (out.1 ++ r.write.1, r.write.2) else out

def writeAll : List LogRecord → Option Bytes
  | [] => some []
  | r :: rs => if r.write.2 then (writeAll rs).map (r.write.1 ++ ·) else none

def logStateAd (lib : Library) (b : HashBucket Bytes CompatClassAd) : List LogRecord :=
  .newClassAd b.index (b.value.typeName lib "MyType") (b.value.typeName lib "TargetType") ::
    b.value.attrs.map fun a => .logSetAttribute b.index a.1 (lib.exprTreeToString a.2) false

def logState (lib : Library) (log : ClassAdLog) : List LogRecord :=
  .historicalSequenceNumber log.historicalSequenceNumber log.originalLogBirthdate ::
    log.table.buckets.flatMap (logStateAd lib)

/-- The temporary file is opened without `O_TRUNC`: what it held beyond the new text stays. -/
def overwrite (text old : Bytes) : Bytes := text ++ old.drop text.length

namespace ClassAdLog

/-- `TruncLog`, with the bytes that the temporary file holds before. -/
def truncLog (lib : Library) (os : SystemCalls) (tmp : Bytes) (log : ClassAdLog) :
    Except String (Bool × ClassAdLog) :=
  if log.maxHistoricalLogs ≠ 0 ∧ os.historySaved = false then .ok (false, log)
  else if os.tmpOpened = false then .ok (false, log)
  else
    let next := { log with historicalSequenceNumber := log.historicalSequenceNumber + 1 }
    match writeAll (logState lib next) with
    | none => .error "write to log failed"
    | some text =>
      if os.stateSynced = false then .error "fsync of log failed"
      else if os.reopened = false then .error "failed to open log in append mode"
      else if os.rotated then .ok (true, { next with file := overwrite text tmp })
      else .ok (false, log)

def appendLog (lib : Library) (log : ClassAdLog) (r : LogRecord) : Except String ClassAdLog :=
  match log.activeTransaction with
  | some ops =>
    let ops := if ops = [] then [.beginTransaction] else ops
    .ok { log with activeTransaction := some (ops ++ [r]) }
  | none =>
    if r.write.2 then
      .ok { log with file := log.file ++ r.write.1, table := r.play lib log.table }
    else .error "write to log failed"

def beginTransaction (log : ClassAdLog) : Except String ClassAdLog :=
  match log.activeTransaction with
  | some _ => .error "Assertion ERROR on (!active_transaction)"
  | none => .ok { log with activeTransaction := some [] }

def abortTransaction (log : ClassAdLog) : ClassAdLog := { log with activeTransaction := none }

def commit (lib : Library) (log : ClassAdLog) (ops : List LogRecord) : Except String ClassAdLog :=
  let out := ops.foldl writeWithStatus (log.file, true)
  if out.2 = false ∧ log.nondurableLevel ≤ 0 then
    .error "Failed to write real job queue log: write failed"
  else .ok { log with file := out.1, table := ops.foldl (LogRecord.play lib) log.table }

def commitTransaction (lib : Library) (log : ClassAdLog) : Except String ClassAdLog :=
  match log.activeTransaction with
  | none => .ok log
  | some [] => .ok { log with activeTransaction := none }
  | some (r :: ops) =>
    (log.commit lib (r :: ops ++ [.endTransaction])).map fun log =>
      { log with activeTransaction := none }

def commitNondurableTransaction (lib : Library) (log : ClassAdLog) : Except String ClassAdLog :=
  let raised := { log with nondurableLevel := log.nondurableLevel + 1 }
  (raised.commitTransaction lib).map fun log =>
    { log with nondurableLevel := log.nondurableLevel - 1 }

structure Loading where
  log : ClassAdLog
  count : Nat
  isClean : Bool

def Loading.edit (lib : Library) (st : Loading) (r : LogRecord) : Loading :=
  match st.log.activeTransaction with
  | some ops => { st with log := { st.log with activeTransaction := some (ops ++ [r]) } }
  | none => { st with log := { st.log with table := r.play lib st.log.table } }

def Loading.load (lib : Library) (st : Loading) (r : LogRecord) : Loading :=
  let st := { st with count := st.count + 1 }
  match r with
  | .beginTransaction =>
    { st with
      isClean := false
      log := { st.log with activeTransaction := some (st.log.activeTransaction.getD []) } }
  | .endTransaction =>
    match st.log.activeTransaction with
    | none => st
    | some ops =>
      -- The transaction is committed in memory only.
      { st with
        log := { st.log with
          table := ops.foldl (LogRecord.play lib) st.log.table
          activeTransaction := none } }
  | .historicalSequenceNumber number timestamp =>
    { st with
      log := { st.log with
        historicalSequenceNumber := number
        originalLogBirthdate := timestamp } }
  | r => st.edit lib r

def initial (maxHistoricalLogs : Nat) (time : UInt64) (file : Bytes) : ClassAdLog where
  table := .empty
  activeTransaction := none
  maxHistoricalLogs := maxHistoricalLogs
  historicalSequenceNumber := 1
  originalLogBirthdate := time
  nondurableLevel := 0
  file := file

/-- The end of the constructor: the first record of a new log, and the rotation of
a log that was not shut down cleanly. `torn` says that the file ends in a broken line. -/
def finish (lib : Library) (os : SystemCalls) (tmp : Bytes) (st : Loading) (torn : Bool) :
    Except String ClassAdLog :=
  let requiresSuccessfulCleaning := torn || st.log.activeTransaction.isSome
  let log := { st.log with activeTransaction := none }
  let first := LogRecord.historicalSequenceNumber log.historicalSequenceNumber
    log.originalLogBirthdate
  let log := if st.count = 0 then { log with file := log.file ++ first.write.1 } else log
  if st.isClean = false ∨ requiresSuccessfulCleaning then
    match log.truncLog lib os tmp with
    | .error e => .error e
    | .ok (cleaned, log) =>
      if cleaned = false ∧ requiresSuccessfulCleaning then .error "Failed to rotate ClassAd log"
      else .ok log
  else .ok log

/-- `ClassAdLog( filename, max_historical_logs )` on a file with the given bytes. -/
def construct (lib : Library) (os : SystemCalls) (maxHistoricalLogs : Nat) (time : UInt64)
    (tmp file : Bytes) : Except String ClassAdLog :=
  if os.logOpened = false then .error "failed to open log"
  else
    match foldRecords readLogEntry (Loading.load lib) (file.length + 1)
      ⟨initial maxHistoricalLogs time file, 0, true⟩ file with
    | .error e => .error e
    | .ok (st, next, final) => finish lib os tmp st (next.length ≠ final.length)

end ClassAdLog

inductive Operation where
  | appendLog (r : LogRecord)
  | beginTransaction
  | abortTransaction
  | commitTransaction
  | commitNondurableTransaction

/-- One operation; `none` when it ends in an EXCEPT. -/
def ClassAdLog.step (lib : Library) (log : ClassAdLog) : Operation → Option ClassAdLog
  | .appendLog r => (log.appendLog lib r).toOption
  | .beginTransaction => log.beginTransaction.toOption
  | .abortTransaction => some log.abortTransaction
  | .commitTransaction => (log.commitTransaction lib).toOption
  | .commitNondurableTransaction => (log.commitNondurableTransaction lib).toOption

end Condor.TransactionLog
