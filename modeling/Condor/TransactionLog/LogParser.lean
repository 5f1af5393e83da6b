import Condor.TransactionLog.LogRecord

/-! `ClassAdLogEntry` and `ClassAdLogParser`: a second reader of the log format, with the current
and the last entry and the offset of the next. The file is the list of its bytes. -/
namespace Condor.TransactionLog
open Condor.Lib Condor.Utils

structure ClassAdLogEntry where
  offset : Nat
  nextOffset : Nat
  opType : Int
  key : Option Bytes
  mytype : Option Bytes
  targettype : Option Bytes
  name : Option Bytes
  value : Option Bytes
  deriving DecidableEq, Repr

namespace ClassAdLogEntry

def create : ClassAdLogEntry := ⟨0, 0, 0, none, none, none, none, none⟩

def init (entry : ClassAdLogEntry) (opType : Int) : ClassAdLogEntry :=
  ⟨entry.offset, entry.nextOffset, opType, none, none, none, none, none⟩

/-- `operator=`, which leaves `op_type` as it is. -/
def assign (entry source : ClassAdLogEntry) : ClassAdLogEntry :=
  { source with opType := entry.opType }

def fields (entry : ClassAdLogEntry) : List (Option Bytes) :=
  if entry.opType = 101 then [entry.key, entry.mytype, entry.targettype]
  else if entry.opType = 102 then [entry.key]
  else if entry.opType = 103 then [entry.key, entry.name, entry.value]
  else if entry.opType = 104 then [entry.key, entry.name]
  else if entry.opType = 107 then [entry.key, entry.value]
  else []

def isKnown (opType : Int) : Bool := decide (101 ≤ opType ∧ opType ≤ 107)

def equal (entry other : ClassAdLogEntry) : Bool :=
  decide (other.opType = entry.opType) && isKnown other.opType &&
    decide (other.fields = entry.fields)

end ClassAdLogEntry

def parserEndsWord (c : UInt8) : Bool := isSpace c || c = nul

def parserEndsLine (c : UInt8) : Bool := c = newline || c = nul

namespace ClassAdLogParser

inductive Input where
  | text (s : Bytes)
  | empty
  /-- `fgetc` has returned `EOF`. -/
  | eof
  deriving DecidableEq, Repr

/-- The two loops that `readword` and `readline` share: blanks are skipped, but no
newline, and then bytes are read up to one that ends the text. -/
def readText (ends : UInt8 → Bool) (fp : Bytes) : Input × Bytes :=
  match skipBlanks fp with
  | (none, rest) => (.eof, rest)
  | (some c, rest) =>
    if ends c then (.empty, rest)
    else
      match scanUntil ends rest with
      | (_, none, rest) => (.eof, rest)
      | (text, some _, rest) => (.text (c :: text), rest)

def readword (fp : Bytes) : Input × Bytes := readText parserEndsWord fp

def readline (fp : Bytes) : Input × Bytes := readText parserEndsLine fp

inductive Field where
  | key
  | mytype
  | targettype
  | name
  | value
  | newline
  deriving DecidableEq, Repr

def readField (entry : ClassAdLogEntry) (fp : Bytes) : Field → Bool × ClassAdLogEntry × Bytes
  | .key =>
    match readword fp with
    | (.text s, rest) => (true, { entry with key := some s }, rest)
    | (_, rest) => (false, entry, rest)
  | .mytype =>
    match readword fp with
    | (.text s, rest) => (true, { entry with mytype := some s }, rest)
    | (_, rest) => (false, entry, rest)
  | .targettype =>
    match readword fp with
    | (.text s, rest) => (true, { entry with targettype := some s }, rest)
    | (_, rest) => (false, entry, rest)
  | .name =>
    match readword fp with
    | (.text s, rest) => (true, { entry with name := some s }, rest)
    | (_, rest) => (false, entry, rest)
  | .value =>
    match readline fp with
    | (.text s, rest) => (true, { entry with value := some s }, rest)
    | (_, rest) => (false, entry, rest)
  | .newline =>
    match fp with
    | [] => (false, entry, [])
    | c :: rest => (decide (c = Utils.newline), entry, rest)

def readFields : List Field → ClassAdLogEntry → Bytes → Bool × ClassAdLogEntry × Bytes
  | [], entry, fp => (true, entry, fp)
  | field :: fields, entry, fp =>
    match readField entry fp field with
    | (true, entry, rest) => readFields fields entry rest
    | (false, entry, rest) => (false, entry, rest)

/-- The bodies by op type: `readNewClassAdBody` and so on. -/
def bodyFields (opType : Int) : Option (List Field) :=
  if opType = 101 then some [.key, .mytype, .targettype]
  else if opType = 102 then some [.key]
  else if opType = 103 then some [.key, .name, .value]
  else if opType = 104 then some [.key, .name]
  else if opType = 105 then some [.newline]
  else if opType = 106 then some [.newline]
  else if opType = 107 then some [.key, .name, .value]
  else none

inductive Search where
  | found
  /-- `readline` has failed, at the end of the file or at a line without text. -/
  | stopped (feof : Bool)
  deriving DecidableEq, Repr

def findEndTransaction : Nat → Bytes → Search
  | 0, _ => .stopped false
  | fuel + 1, fp =>
    match readline fp with
    | (.eof, _) => .stopped true
    | (.empty, _) => .stopped false
    | (.text line, rest) =>
      if sscanfInt line = some 106 then .found else findEndTransaction fuel rest

end ClassAdLogParser

inductive FileOpErrCode where
  | fileReadError
  | fileFatalError
  | fileReadEof
  | fileReadSuccess
  deriving DecidableEq, Repr

/-- `log_fp`: null, or a stream. A stream that was closed through another pointer to it
can be told from an open one only by its failures: what C leaves undefined is here a
`fseek` that fails. -/
inductive LogFp where
  | null
  | opened
  | closed
  deriving DecidableEq, Repr

structure ClassAdLogParser where
  nextOffset : Nat
  curCALogEntry : ClassAdLogEntry
  lastCALogEntry : ClassAdLogEntry
  logFp : LogFp
  deriving DecidableEq, Repr

namespace ClassAdLogParser

def create : ClassAdLogParser := ⟨0, .create, .create, .null⟩

def setNextOffset (p : ClassAdLogParser) (offset : Nat) : ClassAdLogParser :=
  { p with nextOffset := offset }

def openFile (p : ClassAdLogParser) : ClassAdLogParser := { p with logFp := .opened }

def advance (p : ClassAdLogParser) (opType : Int) : ClassAdLogParser :=
  { p with
    lastCALogEntry := (p.lastCALogEntry.init p.curCALogEntry.opType).assign p.curCALogEntry
    curCALogEntry := { p.curCALogEntry.init opType with offset := p.nextOffset } }

/-- The end of `readLogEntry` for a record without a body: the record is fatal, or it is
taken for the end of the file and the current entry is set back. -/
def rollBack (p : ClassAdLogParser) (rest : Bytes) : FileOpErrCode × ClassAdLogParser :=
  match findEndTransaction (rest.length + 1) rest with
  | .found => (.fileFatalError, p)
  | .stopped false => (.fileFatalError, { p with logFp := .null })
  | .stopped true =>
    (.fileReadEof,
      { p with
        logFp := .null
        curCALogEntry :=
          { p.curCALogEntry.assign p.lastCALogEntry with offset := p.nextOffset } })

/-- `readLogEntry` on a file with the given bytes. `opType` is the value of the variable
that the caller passes; it stays as it is when no header is read. -/
def readLogEntry (file : Bytes) (p : ClassAdLogParser) (opType : Int) :
    FileOpErrCode × ClassAdLogParser :=
  match p.logFp with
  | .closed => (.fileReadEof, { p with logFp := .null })
  | .null => (.fileReadError, p.advance opType)
  | .opened =>
    match readword (file.drop p.nextOffset) with
    | (.eof, _) => (.fileReadEof, { p with logFp := .null })
    | (.empty, _) => (.fileReadEof, { p with logFp := .null })
    | (.text op, rest) =>
      let p := p.advance (atoi op)
      match bodyFields (atoi op) with
      | none => (.fileReadError, { p with logFp := .null })
      | some fields =>
        -- The readers of the bodies call `init` once more.
        match readFields fields (p.curCALogEntry.init (atoi op)) rest with
        | (false, entry, rest) => rollBack { p with curCALogEntry := entry } rest
        | (true, entry, rest) =>
          let nextOffset := file.length - rest.length
          (.fileReadSuccess,
            { p with
              nextOffset := nextOffset
              curCALogEntry := { entry with nextOffset := nextOffset } })

end ClassAdLogParser
end Condor.TransactionLog
