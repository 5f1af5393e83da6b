import Mathlib.Data.Bool.AllAny
import Condor.Utils.Stdio

/-! `log.cpp` and the record classes of `classad_log.cpp`. A record that a crash cut short is not
read as a record. -/
namespace Condor.TransactionLog
open Condor.Lib Condor.Utils

inductive LogRecord where
  | newClassAd (key mytype targettype : Bytes)
  | destroyClassAd (key : Bytes)
  | setAttribute (key name value : Bytes) (isDirty : Bool)
  | deleteAttribute (key name : Bytes)
  | beginTransaction
  | endTransaction
  | historicalSequenceNumber (number timestamp : UInt64)
  deriving DecidableEq, Repr

namespace LogRecord

def logSetAttribute (key name value : Bytes) (dirty : Bool) : LogRecord :=
  .setAttribute key name (if value = [] then ascii "UNDEFINED" else value) dirty

/-- `CondorLogOp_*`. -/
def opType : LogRecord → Nat
  | .newClassAd .. => 101
  | .destroyClassAd .. => 102
  | .setAttribute .. => 103
  | .deleteAttribute .. => 104
  | .beginTransaction => 105
  | .endTransaction => 106
  | .historicalSequenceNumber .. => 107

def header (r : LogRecord) : Bytes := decimal r.opType ++ [blank]

/-- `WriteBody`, which refuses an attribute whose record would hold a newline. -/
def body : LogRecord → Option Bytes
  | .newClassAd key mytype targettype =>
    some (key ++ [blank] ++ (mytype ++ [blank] ++ targettype))
  | .destroyClassAd key => some key
  | .setAttribute key name value _ =>
    if newline ∈ key ∨ newline ∈ name ∨ newline ∈ value then none
    else some (key ++ [blank] ++ (name ++ [blank] ++ value))
  | .deleteAttribute key name => some (key ++ [blank] ++ name)
  | .beginTransaction => some []
  | .endTransaction => some []
  | .historicalSequenceNumber number timestamp =>
    some (decimal number.toNat ++ [blank] ++
      (ascii "CreationTimestamp" ++ [blank] ++ decimal timestamp.toNat))

/-- `Write`: the bytes that reach the file, and whether it succeeds. The header is
out before the body is refused. -/
def write (r : LogRecord) : Bytes × Bool :=
  match r.body with
  | some text => (r.header ++ (text ++ [newline]), true)
  | none => (r.header, false)

end LogRecord

def endsWord (c : UInt8) : Bool := isSpace c || c = nul || c = eofByte

def endsLine (c : UInt8) : Bool := c = newline || c = nul || c = eofByte

def skipBlanks : Bytes → Option UInt8 × Bytes
  | [] => (none, [])
  | c :: rest => if isSpace c && c ≠ newline then skipBlanks rest else (some c, rest)

def readword : Reader UInt8 Bytes := fun fp =>
  match skipBlanks fp with
  | (none, rest) => (none, rest)
  | (some c, rest) =>
    -- A newline, a NUL or an 0xFF byte in front is no input.
    if endsWord c then (none, rest)
    else
      match scanUntil endsWord rest with
      | (_, none, rest) => (none, rest)
      | (word, some last, rest) =>
        if last = eofByte then (none, rest) else (some (c :: word), rest)

def readline : Reader UInt8 Bytes := fun fp =>
  match scanUntil endsLine fp with
  | (_, none, rest) => (none, rest)
  | (line, some last, rest) =>
    if last = eofByte ∨ line = [] then (none, rest) else (some line, rest)

def readNewline : Reader UInt8 Unit
  | [] => (none, [])
  | c :: rest => (if c = newline then some () else none, rest)

/-- `ReadBody` of the record class that `InstantiateLogEntry` picks for an op type. -/
def readBody (type : Int) : Option (Reader UInt8 LogRecord) :=
  if type = 101 then
    some do
      let key ← readword
      let mytype ← readword
      let targettype ← readword
      pure (.newClassAd key mytype targettype)
  else if type = 102 then
    some do
      let key ← readword
      pure (.destroyClassAd key)
  else if type = 103 then
    some do
      let key ← readword
      let name ← readword
      let value ← readline
      pure (.setAttribute key name value false)
  else if type = 104 then
    some do
      let key ← readword
      let name ← readword
      pure (.deleteAttribute key name)
  else if type = 105 then
    some do
      readNewline
      pure .beginTransaction
  else if type = 106 then
    some do
      readNewline
      pure .endTransaction
  else if type = 107 then
    some do
      let number ← readword
      let _ ← readword
      let timestamp ← readword
      pure (.historicalSequenceNumber ((sscanfUnsigned number).getD 0)
        ((sscanfUnsigned timestamp).getD 0))
  else none

def attrlistMaxExpression : Nat := 10240

def findsEndTransaction : Nat → Bytes → Bool
  | 0, _ => false
  | fuel + 1, fp =>
    match fgets (attrlistMaxExpression + 63) fp with
    | ([], _) => false
    | (c :: line, rest) =>
      sscanfInt ((c :: line).takeWhile (· ≠ nul)) = some 106 || findsEndTransaction fuel rest

def instantiateLogEntry (type : Int) (fp : Bytes) : Except String (Option LogRecord × Bytes) :=
  match readBody type with
  | none => .ok (none, fp)
  | some read =>
    match read fp with
    | (some r, rest) => .ok (some r, rest)
    | (none, rest) =>
      if findsEndTransaction (rest.length + 1) rest then
        .error s!"Error: bad record with op={type} in corrupt logfile"
      else .ok (none, [])

def readLogEntry (fp : Bytes) : Except String (Option LogRecord × Bytes) :=
  match readword fp with
  | (none, rest) => .ok (none, rest)
  | (some op, rest) => instantiateLogEntry (atoi op) rest

def IsWord (w : Bytes) : Prop := w ≠ [] ∧ ∀ b ∈ w, endsWord b = false

def IsValue (v : Bytes) : Prop := v ≠ [] ∧ ∀ b ∈ v, endsLine b = false

instance (w : Bytes) : Decidable (IsWord w) := inferInstanceAs (Decidable (_ ∧ _))
instance (v : Bytes) : Decidable (IsValue v) := inferInstanceAs (Decidable (_ ∧ _))

namespace LogRecord

/-- Every word and value of the record fits the log format. -/
def Legible : LogRecord → Prop
  | .newClassAd key mytype targettype => IsWord key ∧ IsWord mytype ∧ IsWord targettype
  | .destroyClassAd key => IsWord key
  | .setAttribute key name value _ => IsWord key ∧ IsWord name ∧ IsValue value
  | .deleteAttribute key name => IsWord key ∧ IsWord name
  | .beginTransaction => True
  | .endTransaction => True
  | .historicalSequenceNumber .. => True

instance (r : LogRecord) : Decidable r.Legible := by
  cases r <;> unfold Legible <;> infer_instance

/-- What the file keeps of a record: all but the dirty mark. -/
def stored : LogRecord → LogRecord
  | .setAttribute key name value _ => .setAttribute key name value false
  | r => r

end LogRecord

variable {c : UInt8}

theorem skipBlanks_word (plain : endsWord c = false) (rest : Bytes) :
    skipBlanks (c :: rest) = (some c, rest) := by
  have space : isSpace c = false := by
    simp only [endsWord, Bool.or_eq_false_iff] at plain
    exact plain.1.1
  simp [skipBlanks, space]

theorem frames_readword {w : Bytes} (word : IsWord w) (space : isSpace c = true) :
    Frames readword (w ++ [c]) w := by
  obtain ⟨nonempty, plain⟩ := word
  have stops : endsWord c = true := by simp [endsWord, space]
  have noEof : c ≠ eofByte := by
    rintro rfl
    exact absurd space (by decide)
  cases w with
  | nil => exact absurd rfl nonempty
  | cons b w =>
    have first := plain b List.mem_cons_self
    have others : ∀ d ∈ w, endsWord d = false := fun d hd => plain d (List.mem_cons_of_mem _ hd)
    refine ⟨fun rest => ?_, fun cut inside proper => ?_⟩
    · have scanned := scanUntil_whole others stops rest
      simp only [readword, List.cons_append, List.append_assoc, List.nil_append,
        skipBlanks_word first, first, scanned, if_neg noEof, Bool.false_eq_true, if_false]
    · -- A proper part of the block lacks the byte that ends the word.
      cases cut with
      | nil => rfl
      | cons d cut =>
        rw [List.cons_append, List.cons_prefix_cons] at inside
        obtain ⟨rfl, inside⟩ := inside
        have short : cut <+: w := by
          rcases List.prefix_concat_iff.mp inside with all | short
          · exact absurd (by rw [all, List.cons_append]) proper
          · exact short
        have scanned := scanUntil_torn fun d hd => others d (short.subset hd)
        simp only [readword, skipBlanks_word first, first, scanned, Bool.false_eq_true,
            if_false]

theorem frames_readline {v : Bytes} (value : IsValue v) : Frames readline (v ++ [newline]) v := by
  obtain ⟨nonempty, plain⟩ := value
  refine ⟨fun rest => ?_, fun cut inside proper => ?_⟩
  · have scanned := scanUntil_whole plain (c := newline) (by decide) rest
    have noEof : newline ≠ eofByte := by decide
    simp only [readline, List.append_assoc, List.cons_append, List.nil_append, scanned, noEof,
      nonempty, or_self, if_false]
  · rcases List.prefix_concat_iff.mp inside with all | short
    · exact absurd all proper
    · have scanned := scanUntil_torn fun d hd => plain d (short.subset hd)
      simp only [readline, scanned]

theorem frames_readNewline : Frames readNewline [newline] () where
  whole _ := rfl
  torn cut inside proper := by
    rcases List.prefix_cons_iff.mp inside with rfl | ⟨rest, rfl, empty⟩
    · rfl
    · exact absurd (by rw [ List.prefix_nil.mp empty]) proper

theorem isWord_decimal (n : Nat) : IsWord (decimal n) := by
  refine ⟨decimal_ne_nil n, fun b hb => ?_⟩
  have digit := isDigit_decimal b hb
  obtain ⟨space, -, -⟩ := not_isSpace_of_isDigit digit
  have other : b ≠ nul ∧ b ≠ eofByte := by
    constructor <;> rintro rfl <;> exact absurd digit (by decide)
  simp [endsWord, space, other]

theorem isWord_creationTimestamp : IsWord (ascii "CreationTimestamp") :=
  ⟨by decide, List.all_iff_forall_prop.mp (by decide)⟩

namespace LogRecord

variable {r : LogRecord}

theorem frames_body (legible : r.Legible) :
    ∃ text read, r.body = some text ∧ readBody r.opType = some read ∧
      Frames read (text ++ [newline]) r.stored := by
  have space : isSpace blank = true := by decide
  have tail : isSpace newline = true := by decide
  cases r with
  | newClassAd key mytype targettype =>
    obtain ⟨first, second, third⟩ := legible
    refine ⟨_, _, rfl, rfl, ?_⟩
    rw [List.append_assoc, List.append_assoc (mytype ++ _)]
    exact (frames_readword first space).bind ((frames_readword second space).bind
      ((frames_readword third tail).map _))
  | destroyClassAd key => exact ⟨_, _, rfl, rfl, (frames_readword legible tail).map _⟩
  | setAttribute key name value isDirty =>
    obtain ⟨first, second, third⟩ := legible
    have oneLine : ¬(newline ∈ key ∨ newline ∈ name ∨ newline ∈ value) := by
      rintro (inKey | inName | inValue)
      · exact absurd (first.2 _ inKey) (by decide)
      · exact absurd (second.2 _ inName) (by decide)
      · exact absurd (third.2 _ inValue) (by decide)
    refine ⟨_, _, if_neg oneLine, rfl, ?_⟩
    rw [List.append_assoc, List.append_assoc (name ++ _)]
    exact (frames_readword first space).bind ((frames_readword second space).bind
      ((frames_readline third).map _))
  | deleteAttribute key name =>
    obtain ⟨first, second⟩ := legible
    refine ⟨_, _, rfl, rfl, ?_⟩
    rw [List.append_assoc]
    exact (frames_readword first space).bind ((frames_readword second tail).map _)
  | beginTransaction => exact ⟨_, _, rfl, rfl, frames_readNewline.map _⟩
  | endTransaction => exact ⟨_, _, rfl, rfl, frames_readNewline.map _⟩
  | historicalSequenceNumber number timestamp =>
    refine ⟨_, _, rfl, rfl, ?_⟩
    have same : (LogRecord.historicalSequenceNumber number timestamp).stored =
        .historicalSequenceNumber ((sscanfUnsigned (decimal number.toNat)).getD 0)
          ((sscanfUnsigned (decimal timestamp.toNat)).getD 0) := by
      rw [sscanfUnsigned_decimal, sscanfUnsigned_decimal]
      rfl
    rw [same, List.append_assoc, List.append_assoc (ascii _ ++ _)]
    exact (frames_readword (isWord_decimal _) space).bind
      ((frames_readword isWord_creationTimestamp space).bind
        ((frames_readword (isWord_decimal _) tail).map _))

theorem atoi_opType (r : LogRecord) : atoi (decimal r.opType) = r.opType := by
  have small : r.opType < 2 ^ 31 := by cases r <;> simp [opType]
  rw [atoi, scanInteger_decimal, Option.getD_some]
  exact toCInt_of_lt small

theorem frames_header (r : LogRecord) : Frames readword r.header (decimal r.opType) :=
  frames_readword (isWord_decimal r.opType) (by decide)

theorem write_of_body {text : Bytes} (h : r.body = some text) :
    r.write = (r.header ++ (text ++ [newline]), true) := by
  rw [write, h]

theorem write_legible (legible : r.Legible) : r.write.2 = true := by
  obtain ⟨text, read, written, -, -⟩ := frames_body legible
  rw [write_of_body written]

theorem write_ne_nil (r : LogRecord) : r.write.1 ≠ [] := by
  have digits := decimal_ne_nil r.opType
  unfold write
  cases r.body with
  | none => simp [header]
  | some text => simp [header]

/-- A record is read back from what was written of it, whatever follows. -/
theorem readLogEntry_write (legible : r.Legible) (rest : Bytes) :
    readLogEntry (r.write.1 ++ rest) = .ok (some r.stored, rest) := by
  obtain ⟨text, read, written, reader, framed⟩ := frames_body legible
  rw [write_of_body written, List.append_assoc, readLogEntry, r.frames_header.whole]
  simp only [instantiateLogEntry, atoi_opType, reader, framed.whole]

theorem readLogEntry_torn (legible : r.Legible) {cut : Bytes} (inside : cut <+: r.write.1)
    (proper : cut ≠ r.write.1) :
    readLogEntry cut = .ok (none, []) := by
  obtain ⟨text, read, written, reader, framed⟩ := frames_body legible
  rw [write_of_body written] at inside proper
  rcases prefix_append_cases inside proper with ⟨early, short⟩ | ⟨rest, rfl, late, short⟩
  · rw [readLogEntry, r.frames_header.torn cut early short]
  · rw [readLogEntry, r.frames_header.whole]
    simp only [instantiateLogEntry, atoi_opType, reader, framed.torn rest late short]
    rfl

end LogRecord
end Condor.TransactionLog
