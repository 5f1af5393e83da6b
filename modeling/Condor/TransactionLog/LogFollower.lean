import Condor.Lib.Run
import Condor.TransactionLog.LogParser

/-! `ClassAdLogProber` and `ClassAdLogReader`. A poll decides from the size of the file, its
sequence number and the entry before the last whether to read all of it, what was added, or nothing.
The parsers of the two hold the same stream. -/
namespace Condor.TransactionLog
open Condor.Lib Condor.Utils

inductive ProbeResultType where
  | initQuill
  | addition
  | compressed
  | probeError
  | noChange
  | probeFatalError
  deriving DecidableEq, Repr

inductive PollResultType where
  | pollSuccess
  | pollFail
  | pollError
  deriving DecidableEq, Repr

/-- The sizes and sequence numbers of the prober; its times are not read. -/
structure ClassAdLogProber where
  lastSize : Nat
  lastSeqNum : Int
  curProbedSize : Nat
  curProbedSeqNum : Int
  deriving DecidableEq, Repr

def ClassAdLogParser.leaves (p : ClassAdLogParser) : LogFp :=
  match p.logFp with
  | .opened => .opened
  | _ => .closed

namespace ClassAdLogProber

def create : ClassAdLogProber := ⟨0, 0, 0, 0⟩

/-- What `probe` returns, and what it does to the prober and to the stream. -/
structure Probe where
  result : ProbeResultType
  prober : ClassAdLogProber
  fp : LogFp
  deriving DecidableEq, Repr

/-- The end of `probe`, in a file of the sequence number that was seen last. -/
def compare (file : Bytes) (prober : ClassAdLogProber) (last : ClassAdLogEntry)
    (p : ClassAdLogParser) : Probe :=
  match (p.setNextOffset last.offset).readLogEntry file p.curCALogEntry.opType with
  | (.fileFatalError, p) => ⟨.probeFatalError, prober, p.leaves⟩
  | (.fileReadError, p) => ⟨.probeError, prober, p.leaves⟩
  | (.fileReadEof, p) | (.fileReadSuccess, p) =>
    if file.length = prober.lastSize ∧ p.curCALogEntry.equal last then
      ⟨.noChange, prober, p.leaves⟩
    else if prober.lastSize < file.length ∧ p.curCALogEntry.equal last then
      ⟨.addition, prober, p.leaves⟩
    else ⟨.probeError, prober, p.leaves⟩

def probe (file : Bytes) (prober : ClassAdLogProber) (last : ClassAdLogEntry) : Probe :=
  let prober := { prober with curProbedSize := file.length }
  match ClassAdLogParser.create.openFile.readLogEntry file 0 with
  | (.fileFatalError, p) => ⟨.probeFatalError, prober, p.leaves⟩
  | (.fileReadError, p) | (.fileReadEof, p) => ⟨.probeError, prober, p.leaves⟩
  | (.fileReadSuccess, p) =>
    if p.curCALogEntry.opType ≠ 107 then ⟨.probeFatalError, prober, p.leaves⟩
    else
      let prober := { prober with curProbedSeqNum := atol (p.curCALogEntry.key.getD []) }
      if prober.lastSize = 0 then ⟨.initQuill, prober, p.leaves⟩
      else if prober.curProbedSeqNum ≠ prober.lastSeqNum then ⟨.compressed, prober, p.leaves⟩
      else compare file prober last p

def incrementProbeInfo (prober : ClassAdLogProber) : ClassAdLogProber :=
  { prober with lastSize := prober.curProbedSize, lastSeqNum := prober.curProbedSeqNum }

end ClassAdLogProber

/-- The calls of a `ClassAdLogConsumer`; an argument may be a null pointer. -/
inductive Callback where
  | newClassAd (key mytype targettype : Option Bytes)
  | destroyClassAd (key : Option Bytes)
  | setAttribute (key name value : Option Bytes)
  | deleteAttribute (key name : Option Bytes)
  deriving DecidableEq, Repr

/-- The consumer as the reader uses it: the callbacks since its last `Reset`, the answers
that it has ready in the current poll, and whether one of them was a failure. -/
structure Consumer where
  callbacks : List Callback
  answers : List Bool
  failed : Bool
  deriving DecidableEq, Repr

namespace Consumer

def call (consumer : Consumer) (callback : Callback) : Bool × Consumer :=
  let processed := consumer.answers.headD true
  (processed,
    ⟨consumer.callbacks ++ [callback], consumer.answers.tail, consumer.failed || !processed⟩)

def reset (consumer : Consumer) : Consumer := { consumer with callbacks := [] }

end Consumer

def processLogEntry (consumer : Consumer) (entry : ClassAdLogEntry) : Bool × Consumer :=
  if entry.opType = 101 then
    consumer.call (.newClassAd entry.key entry.mytype entry.targettype)
  else if entry.opType = 102 then consumer.call (.destroyClassAd entry.key)
  else if entry.opType = 103 then consumer.call (.setAttribute entry.key entry.name entry.value)
  else if entry.opType = 104 then consumer.call (.deleteAttribute entry.key entry.name)
  else if entry.opType = 105 ∨ entry.opType = 106 ∨ entry.opType = 107 then (true, consumer)
  else (false, consumer)

structure ClassAdLogReader where
  parser : ClassAdLogParser
  prober : ClassAdLogProber
  consumer : Consumer
  deriving DecidableEq, Repr

namespace ClassAdLogReader

def create : ClassAdLogReader := ⟨.create, .create, ⟨[], [], false⟩⟩

/-- `IncrementalLoad`; `none` when its assertion fails. A file of `n` bytes has less than
`n + 1` records. -/
def incrementalLoad (file : Bytes) :
    Nat → ClassAdLogReader → Option (Bool × ClassAdLogReader)
  | 0, r => some (false, r)
  | fuel + 1, r =>
    match r.parser.readLogEntry file 0 with
    | (.fileFatalError, _) => none
    | (.fileReadSuccess, parser) =>
      match processLogEntry r.consumer parser.curCALogEntry with
      | (true, consumer) =>
        incrementalLoad file fuel { r with parser := parser, consumer := consumer }
      | (false, consumer) => some (false, { r with parser := parser, consumer := consumer })
    | (.fileReadEof, parser) => some (true, { r with parser := parser })
    | (.fileReadError, parser) => some (false, { r with parser := parser })

def bulkLoad (file : Bytes) (r : ClassAdLogReader) : Option (Bool × ClassAdLogReader) :=
  incrementalLoad file (file.length + 1)
    { r with parser := r.parser.setNextOffset 0, consumer := r.consumer.reset }

/-- The end of `Poll`: the stream is closed, and the prober keeps what it has seen. -/
def finish (r : ClassAdLogReader) (success : Bool) : ClassAdLogReader :=
  { r with
    parser := { r.parser with logFp := .null }
    prober := if success then r.prober.incrementProbeInfo else r.prober }

/-- The load that a probe asks for, if any. -/
def load (file : Bytes) (r : ClassAdLogReader) :
    ProbeResultType → Option (PollResultType × ClassAdLogReader)
  | .probeFatalError => some (.pollError, r)
  | .noChange => some (.pollSuccess, r.finish true)
  | .addition =>
    (r.incrementalLoad file (file.length + 1)).map fun out => (.pollSuccess, out.2.finish out.1)
  | .initQuill | .compressed | .probeError =>
    (r.bulkLoad file).map fun out => (.pollSuccess, out.2.finish out.1)

/-- `Poll` on a file, if there is one to open, and a consumer with some answers. -/
def poll (file : Option Bytes) (answers : List Bool) (r : ClassAdLogReader) :
    Option (PollResultType × ClassAdLogReader) :=
  let consumer := { r.consumer with answers := answers, failed := false }
  match file with
  | none => some (.pollFail, ⟨{ r.parser with logFp := .null }, r.prober, consumer⟩)
  | some file =>
    let probe := r.prober.probe file r.parser.lastCALogEntry
    load file ⟨{ r.parser with logFp := probe.fp }, probe.prober, consumer⟩ probe.result

end ClassAdLogReader

/-! ## A writer and a reader -/

structure Following where
  /-- What the writer has given to the log since it was last rotated. -/
  records : List LogRecord
  visible : Nat
  reader : ClassAdLogReader
  result : Option PollResultType
  deriving DecidableEq, Repr

inductive FollowingStep where
  | append (r : LogRecord)
  | flush (n : Nat)
  /-- The log is replaced by the state under a new sequence number. -/
  | rotate (number timestamp : UInt64) (state : List LogRecord)
  | poll (opens : Bool) (answers : List Bool)

namespace Following

def text (rs : List LogRecord) : Bytes := rs.flatMap fun r => r.write.1

def file (s : Following) : Bytes := (text s.records).take s.visible

def complete (s : Following) : List LogRecord :=
  wholeRecords (fun r => r.write.1) s.visible s.records

def number (s : Following) : Nat :=
  match s.records with
  | .historicalSequenceNumber number _ :: _ => number.toNat
  | _ => 0

def start (number timestamp : UInt64) : Following :=
  ⟨[.historicalSequenceNumber number timestamp], 0, .create, none⟩

def step (s : Following) : FollowingStep → Option Following
  | .append r => some { s with records := s.records ++ [r], result := none }
  | .flush n =>
    some { s with visible := min (s.visible + n) (text s.records).length, result := none }
  | .rotate number timestamp state =>
    if s.number < number.toNat then
      let records := .historicalSequenceNumber number timestamp :: state
      some { s with records := records, visible := (text records).length, result := none }
    else none
  | .poll opens answers =>
    (s.reader.poll (if opens then some s.file else none) answers).map fun out =>
      { s with reader := out.2, result := some out.1 }

end Following

def LogRecord.callback : LogRecord → Option Callback
  | .newClassAd key mytype targettype =>
    some (.newClassAd (some key) (some mytype) (some targettype))
  | .destroyClassAd key => some (.destroyClassAd (some key))
  | .setAttribute key name value _ => some (.setAttribute (some key) (some name) (some value))
  | .deleteAttribute key name => some (.deleteAttribute (some key) (some name))
  | .beginTransaction => none
  | .endTransaction => none
  | .historicalSequenceNumber _ _ => none

/-- The consumer has had the records of the file, each once and in their order. -/
def Following.UpToDate (s : Following) : Prop :=
  s.reader.consumer.callbacks = s.complete.filterMap LogRecord.callback

end Condor.TransactionLog
