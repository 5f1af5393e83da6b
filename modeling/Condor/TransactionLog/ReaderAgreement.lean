import Condor.TransactionLog.LogParser
import Condor.TransactionLog.RecordCodec

/-! The parser of the followers stops at a real end of file only, and drops all blanks in front of a
value; the owner's reader stops at a byte 0xFF and keeps the blanks. They agree up to the first
record in which this matters. -/
namespace Condor.TransactionLog
open Condor.Lib Condor.Utils

/-! ## The parser on written records -/

namespace ClassAdLogParser

variable {bs w v : Bytes} {c d : UInt8}

theorem skipBlanks_blanks (blanks : ∀ b ∈ bs, isSpace b = true ∧ b ≠ newline) (fp : Bytes) :
    skipBlanks (bs ++ fp) = skipBlanks fp := by
  induction bs with
  | nil => rfl
  | cons b bs ih =>
    obtain ⟨space, line⟩ := blanks b List.mem_cons_self
    rw [List.cons_append, skipBlanks, space, decide_eq_true line, Bool.true_and, if_pos rfl]
    exact ih fun c member => blanks c (List.mem_cons_of_mem b member)

theorem skipBlanks_solid (solid : isSpace c = false) (rest : Bytes) :
    skipBlanks (c :: rest) = (some c, rest) := by
  rw [skipBlanks, solid, Bool.false_and, if_neg Bool.false_ne_true]

variable {ends : UInt8 → Bool}

theorem readText_blanks (blanks : ∀ b ∈ bs, isSpace b = true ∧ b ≠ newline) (fp : Bytes) :
    readText ends (bs ++ fp) = readText ends fp := by
  rw [readText, readText, skipBlanks_blanks blanks]

theorem readText_whole (solid : isSpace c = false) (plain : ∀ b ∈ c :: w, ends b = false)
    (stops : ends d = true) (rest : Bytes) :
    readText ends (c :: w ++ d :: rest) = (.text (c :: w), rest) := by
  have scanned := scanUntil_whole (fun b member => plain b (List.mem_cons_of_mem c member)) stops
    rest
  rw [List.cons_append, readText, skipBlanks_solid solid]
  simp only [plain c List.mem_cons_self, Bool.false_eq_true, if_false, scanned]

theorem skipBlanks_subset (fp : Bytes) :
    skipBlanks fp = (none, []) ∨ ∃ c rest, skipBlanks fp = (some c, rest) ∧ c ∈ fp ∧ rest ⊆ fp := by
  induction fp with
  | nil => exact Or.inl rfl
  | cons c fp ih =>
    rw [skipBlanks]
    split
    · rcases ih with none | ⟨d, rest, some, member, inside⟩
      · exact Or.inl none
      · exact Or.inr ⟨d, rest, some, List.mem_cons_of_mem c member,
          fun b here => List.mem_cons_of_mem c (inside here)⟩
    · exact Or.inr ⟨c, fp, rfl, List.mem_cons_self, fun b here => List.mem_cons_of_mem c here⟩

theorem readText_torn {cut : Bytes} (plain : ∀ b ∈ cut, ends b = false) :
    readText ends cut = (.eof, []) := by
  rw [readText]
  rcases skipBlanks_subset cut with none | ⟨c, rest, some, member, inside⟩
  · rw [none]
  · rw [some]
    have scanned := scanUntil_torn fun b here => plain b (inside here)
    simp only [plain c member, Bool.false_eq_true, if_false, scanned]

theorem readline_blank (blanks : ∀ b ∈ v, isSpace b = true ∧ b ≠ newline) (rest : Bytes) :
    readline (v ++ newline :: rest) = (.empty, rest) := by
  rw [readline, readText_blanks blanks, readText]
  have first : skipBlanks (newline :: rest) = (some newline, rest) := rfl
  rw [first]
  rfl

theorem readword_whole (plain : PlainWord w) (space : isSpace d = true) (rest : Bytes) :
    readword (w ++ d :: rest) = (.text w, rest) := by
  obtain ⟨nonempty, solid⟩ := plain
  cases w with
  | nil => exact absurd rfl nonempty
  | cons c w =>
    refine readText_whole (solid c List.mem_cons_self).1 (fun b member => ?_) ?_ rest
    · obtain ⟨noSpace, noNul⟩ := solid b member
      simp [parserEndsWord, noSpace, noNul]
    · simp [parserEndsWord, space]

theorem readline_whole (plain : PlainValue v) (text : v.dropWhile isSpace ≠ []) (rest : Bytes) :
    readline (v ++ newline :: rest) = (.text (v.dropWhile isSpace), rest) := by
  have blanks : ∀ b ∈ v.takeWhile isSpace, isSpace b = true ∧ b ≠ newline := by
    intro b member
    exact ⟨List.mem_takeWhile_imp member,
      (plain.2 b ((List.takeWhile_sublist isSpace).subset member)).1⟩
  have line : ∀ b ∈ v.dropWhile isSpace, parserEndsLine b = false := by
    intro b member
    obtain ⟨noLine, noNul⟩ := plain.2 b ((List.dropWhile_sublist isSpace).subset member)
    simp [parserEndsLine, noLine, noNul]
  have solid : ∀ c rest, v.dropWhile isSpace = c :: rest → isSpace c = false := by
    intro c rest first
    have head := List.head_dropWhile_not isSpace text
    simp only [first, List.head_cons] at head
    exact head
  have split : v ++ newline :: rest =
      v.takeWhile isSpace ++ (v.dropWhile isSpace ++ newline :: rest) := by
    rw [← List.append_assoc, List.takeWhile_append_dropWhile]
  rw [split, readline, readText_blanks blanks]
  generalize v.dropWhile isSpace = kept at text line solid
  cases kept with
  | nil => exact absurd rfl text
  | cons c kept => exact readText_whole (solid c kept rfl) line (by decide) rest

end ClassAdLogParser

namespace LogRecord

def HasText : LogRecord → Prop
  | .setAttribute _ _ value _ => value.dropWhile isSpace ≠ []
  | _ => True

def Flush : LogRecord → Prop
  | .setAttribute _ _ value _ => value.dropWhile isSpace = value
  | _ => True

instance : ∀ r : LogRecord, Decidable r.HasText
  | .setAttribute _ _ _ _ => @instDecidableNot _ (instDecidableEqList _ _)
  | .newClassAd .. | .destroyClassAd .. | .deleteAttribute .. | .beginTransaction
  | .endTransaction | .historicalSequenceNumber .. => .isTrue trivial

instance : ∀ r : LogRecord, Decidable r.Flush
  | .setAttribute _ _ _ _ => instDecidableEqList _ _
  | .newClassAd .. | .destroyClassAd .. | .deleteAttribute .. | .beginTransaction
  | .endTransaction | .historicalSequenceNumber .. => .isTrue trivial

def entry (r : LogRecord) (e : ClassAdLogEntry) : ClassAdLogEntry :=
  match r with
  | .newClassAd key mytype targettype =>
    { e with key := some key, mytype := some mytype, targettype := some targettype }
  | .destroyClassAd key => { e with key := some key }
  | .setAttribute key name value _ =>
    { e with key := some key, name := some name, value := some (value.dropWhile isSpace) }
  | .deleteAttribute key name => { e with key := some key, name := some name }
  | .beginTransaction => e
  | .endTransaction => e
  | .historicalSequenceNumber number timestamp =>
    { e with
      key := some (decimal number.toNat)
      name := some (ascii "CreationTimestamp")
      value := some (decimal timestamp.toNat) }

def view (r : LogRecord) : Int × List (Option Bytes) :=
  match r with
  | .newClassAd key mytype targettype => (r.opType, [some key, some mytype, some targettype])
  | .destroyClassAd key => (r.opType, [some key])
  | .setAttribute key name value _ => (r.opType, [some key, some name, some value])
  | .deleteAttribute key name => (r.opType, [some key, some name])
  | .beginTransaction => (r.opType, [])
  | .endTransaction => (r.opType, [])
  | .historicalSequenceNumber number timestamp =>
    (r.opType, [some (decimal number.toNat), some (decimal timestamp.toNat)])

end LogRecord

theorem plainWord_of_isWord {w : Bytes} (word : IsWord w) : PlainWord w := by
  refine ⟨word.1, fun b member => ?_⟩
  have ends := word.2 b member
  simp only [endsWord, Bool.or_eq_false_iff, decide_eq_false_iff_not] at ends
  exact ⟨ends.1.1, ends.1.2⟩

theorem plainValue_decimal (n : Nat) : PlainValue (decimal n) := by
  have word := plainWord_of_isWord (isWord_decimal n)
  refine ⟨word.1, fun b member => ⟨?_, (word.2 b member).2⟩⟩
  rintro rfl
  exact absurd (word.2 _ member).1 (by decide)

theorem dropWhile_decimal (n : Nat) : (decimal n).dropWhile isSpace = decimal n := by
  have digits := isDigit_decimal (n := n)
  cases shown : decimal n with
  | nil => rfl
  | cons c rest =>
    have solid : isSpace c = false :=
      (not_isSpace_of_isDigit (digits c (shown ▸ List.mem_cons_self))).1
    rw [List.dropWhile_cons_of_neg (by rw [solid]; decide)]

namespace ClassAdLogParser

theorem isSpace_blank : isSpace blank = true := by decide

theorem isSpace_newline : isSpace newline = true := by decide

variable {r : LogRecord}

theorem readFields_body (plain : r.Plain) (text : r.HasText) :
    ∃ body fields, r.body = some body ∧ bodyFields r.opType = some fields ∧
      ∀ e rest, readFields fields e (body ++ newline :: rest) = (true, r.entry e, rest) := by
  cases r with
  | newClassAd key mytype targettype =>
    obtain ⟨first, second, third⟩ := plain
    refine ⟨_, _, rfl, rfl, fun e rest => ?_⟩
    simp only [List.append_assoc, List.cons_append, List.nil_append, readFields, readField,
      readword_whole first isSpace_blank, readword_whole second isSpace_blank,
      readword_whole third isSpace_newline, LogRecord.entry]
  | destroyClassAd key =>
    refine ⟨_, _, rfl, rfl, fun e rest => ?_⟩
    simp only [readFields, readField, readword_whole plain isSpace_newline, LogRecord.entry]
  | setAttribute key name value isDirty =>
    obtain ⟨first, second, third⟩ := plain
    refine ⟨_, _, if_neg (first.oneLine second third), rfl, fun e rest => ?_⟩
    simp only [List.append_assoc, List.cons_append, List.nil_append, readFields, readField,
      readword_whole first isSpace_blank, readword_whole second isSpace_blank,
      readline_whole third text, LogRecord.entry]
  | deleteAttribute key name =>
    obtain ⟨first, second⟩ := plain
    refine ⟨_, _, rfl, rfl, fun e rest => ?_⟩
    simp only [List.append_assoc, List.cons_append, List.nil_append, readFields, readField,
      readword_whole first isSpace_blank, readword_whole second isSpace_newline,
      LogRecord.entry]
  | beginTransaction => exact ⟨_, _, rfl, rfl, fun e rest => rfl⟩
  | endTransaction => exact ⟨_, _, rfl, rfl, fun e rest => rfl⟩
  | historicalSequenceNumber number timestamp =>
    have first := plainWord_of_isWord (isWord_decimal number.toNat)
    have second := plainWord_of_isWord isWord_creationTimestamp
    have third := plainValue_decimal timestamp.toNat
    have text : (decimal timestamp.toNat).dropWhile isSpace ≠ [] := by
      rw [dropWhile_decimal]
      exact decimal_ne_nil _
    refine ⟨_, _, rfl, rfl, fun e rest => ?_⟩
    simp only [List.append_assoc, List.cons_append, List.nil_append, readFields, readField,
      readword_whole first isSpace_blank, readword_whole second isSpace_blank,
      readline_whole third text, dropWhile_decimal, LogRecord.entry]

theorem readFields_blank (plain : r.Plain) (noText : ¬ r.HasText) :
    ∃ body fields, r.body = some body ∧ bodyFields r.opType = some fields ∧
      ∀ e rest, ∃ e', readFields fields e (body ++ newline :: rest) = (false, e', rest) := by
  cases r with
  | setAttribute key name value isDirty =>
    obtain ⟨first, second, third⟩ := plain
    have blanks : ∀ b ∈ value, isSpace b = true ∧ b ≠ newline := by
      intro b member
      refine ⟨?_, (third.2 b member).1⟩
      exact List.dropWhile_eq_nil_iff.mp (not_not.mp noText) b member
    refine ⟨_, _, if_neg (first.oneLine second third), rfl, fun e rest => ?_⟩
    simp only [List.append_assoc, List.cons_append, List.nil_append, readFields, readField,
      readword_whole first isSpace_blank, readword_whole second isSpace_blank,
      readline_blank blanks]
    exact ⟨_, rfl⟩
  | newClassAd key mytype targettype => exact absurd trivial noText
  | destroyClassAd key => exact absurd trivial noText
  | deleteAttribute key name => exact absurd trivial noText
  | beginTransaction => exact absurd trivial noText
  | endTransaction => exact absurd trivial noText
  | historicalSequenceNumber number timestamp => exact absurd trivial noText

def after (p : ClassAdLogParser) (r : LogRecord) : ClassAdLogParser :=
  let nextOffset := p.nextOffset + r.write.1.length
  { p.advance r.opType with
    nextOffset := nextOffset
    curCALogEntry :=
      { r.entry ((p.advance r.opType).curCALogEntry.init r.opType) with
        nextOffset := nextOffset } }

theorem readword_header (r : LogRecord) (rest : Bytes) :
    readword (r.header ++ rest) = (.text (decimal r.opType), rest) := by
  rw [LogRecord.header, List.append_assoc]
  exact readword_whole (plainWord_of_isWord (isWord_decimal r.opType)) isSpace_blank rest

theorem drop_written {body : Bytes} (written : r.body = some body) (before rest : Bytes) :
    (before ++ (r.write.1 ++ rest)).drop before.length =
      r.header ++ (body ++ newline :: rest) := by
  rw [List.drop_left, LogRecord.write_of_body written]
  simp only [List.append_assoc, List.cons_append, List.nil_append]

variable {p : ClassAdLogParser} {before : Bytes}

theorem readLogEntry_whole (plain : r.Plain) (text : r.HasText) {rest : Bytes}
    (opened : p.logFp = .opened) (offset : p.nextOffset = before.length) (opType : Int) :
    p.readLogEntry (before ++ (r.write.1 ++ rest)) opType = (.fileReadSuccess, p.after r) := by
  obtain ⟨body, fields, written, known, read⟩ := readFields_body plain text
  have length : (before ++ (r.write.1 ++ rest)).length - rest.length =
      p.nextOffset + r.write.1.length := by
    rw [List.length_append, List.length_append, offset]
    omega
  have file := drop_written written before rest
  rw [← offset] at file
  simp only [readLogEntry, opened, file, readword_header, LogRecord.atoi_opType, known, read,
    length, after]

theorem readLogEntry_blank (plain : r.Plain) (noText : ¬ r.HasText) (opened : p.logFp = .opened)
    (offset : p.nextOffset = before.length) (rest : Bytes) (opType : Int) :
    (p.readLogEntry (before ++ (r.write.1 ++ rest)) opType).1 ≠ .fileReadSuccess := by
  obtain ⟨body, fields, written, known, read⟩ := readFields_blank plain noText
  obtain ⟨e, stuck⟩ := read ((p.advance r.opType).curCALogEntry.init r.opType) rest
  have file := drop_written written before rest
  rw [← offset] at file
  simp only [readLogEntry, opened, file, readword_header, LogRecord.atoi_opType, known, stuck]
  rw [rollBack]
  split
  · exact nofun
  · exact nofun
  · exact nofun

/-- The entries that the parser reads from a file, up to the first one it does not read. -/
def entries (file : Bytes) : Nat → ClassAdLogParser → List ClassAdLogEntry
  | 0, _ => []
  | fuel + 1, p =>
    match p.readLogEntry file 0 with
    | (.fileReadSuccess, p) => p.curCALogEntry :: entries file fuel p
    | _ => []

end ClassAdLogParser

/-- The records that the owner of the log reads, up to the first one it does not read. -/
def records : Nat → Bytes → List LogRecord
  | 0, _ => []
  | fuel + 1, fp =>
    match readLogEntry fp with
    | .ok (some r, rest) => r :: records fuel rest
    | _ => []

def ClassAdLogEntry.view (e : ClassAdLogEntry) : Int × List (Option Bytes) := (e.opType, e.fields)

namespace LogRecord

theorem view_after (r : LogRecord) (p : ClassAdLogParser) :
    (p.after r).curCALogEntry.view = r.view ↔ r.Flush := by
  cases r with
  | setAttribute key name value isDirty =>
    change ((103 : Int), [some key, some name, some (value.dropWhile isSpace)]) =
      ((103 : Int), [some key, some name, some value]) ↔ value.dropWhile isSpace = value
    simp
  | newClassAd key mytype targettype => exact ⟨fun _ => trivial, fun _ => rfl⟩
  | destroyClassAd key => exact ⟨fun _ => trivial, fun _ => rfl⟩
  | deleteAttribute key name => exact ⟨fun _ => trivial, fun _ => rfl⟩
  | beginTransaction => exact ⟨fun _ => trivial, fun _ => rfl⟩
  | endTransaction => exact ⟨fun _ => trivial, fun _ => rfl⟩
  | historicalSequenceNumber number timestamp => exact ⟨fun _ => trivial, fun _ => rfl⟩

theorem view_stored (r : LogRecord) : r.stored.view = r.view := by cases r <;> rfl

theorem Flush.hasText {r : LogRecord} (plain : r.Plain) (flush : r.Flush) : r.HasText := by
  cases r with
  | setAttribute key name value isDirty =>
    have flush : value.dropWhile isSpace = value := flush
    intro blank
    exact plain.2.2.1 (flush ▸ blank)
  | newClassAd key mytype targettype => trivial
  | destroyClassAd key => trivial
  | deleteAttribute key name => trivial
  | beginTransaction => trivial
  | endTransaction => trivial
  | historicalSequenceNumber number timestamp => trivial

/-- Both readers read the first records alike, and all records are read alike, or there is
one that neither of them reads. -/
def ReadAlike : List LogRecord → Prop
  | [] => True
  | r :: rs => (r.NoEofByte ∧ r.Flush ∧ ReadAlike rs) ∨ (¬ r.NoEofByte ∧ ¬ r.HasText)

end LogRecord

variable {r : LogRecord}

theorem records_clear (plain : r.Plain) (clear : r.NoEofByte) (fuel : Nat) (rest : Bytes) :
    records (fuel + 1) (r.write.1 ++ rest) = r.stored :: records fuel rest := by
  simp only [records, LogRecord.readLogEntry_write (plain.legible clear)]

theorem records_unclear (plain : r.Plain) (unclear : ¬ r.NoEofByte) (fuel : Nat) (rest : Bytes) :
    records (fuel + 1) (r.write.1 ++ rest) = [] := by
  have unread := LogRecord.readLogEntry_unclear plain unclear rest
  rw [records]
  split
  · next found left read => exact absurd read (unread found left)
  · rfl

namespace ClassAdLogParser

variable {p : ClassAdLogParser} {before rest : Bytes}

theorem entries_whole (plain : r.Plain) (text : r.HasText) (opened : p.logFp = .opened)
    (offset : p.nextOffset = before.length) (fuel : Nat) :
    p.entries (before ++ (r.write.1 ++ rest)) (fuel + 1) =
      (p.after r).curCALogEntry :: (p.after r).entries (before ++ (r.write.1 ++ rest)) fuel := by
  simp only [entries, readLogEntry_whole plain text opened offset]

theorem entries_blank (plain : r.Plain) (noText : ¬ r.HasText) (opened : p.logFp = .opened)
    (offset : p.nextOffset = before.length) (fuel : Nat) :
    p.entries (before ++ (r.write.1 ++ rest)) (fuel + 1) = [] := by
  have unread := readLogEntry_blank plain noText opened offset rest 0
  rw [entries]
  split
  · next q read => exact absurd (by rw [read]) unread
  · rfl

end ClassAdLogParser

/-- The readers agree on what is left of the file. -/
theorem readers_agree_from (before : Bytes) {rs : List LogRecord} (plain : ∀ r ∈ rs, r.Plain)
    {p : ClassAdLogParser} {fuel : Nat} (opened : p.logFp = .opened)
    (offset : p.nextOffset = before.length) (enough : (rs.flatMap (·.write.1)).length < fuel) :
    (records fuel (rs.flatMap (·.write.1))).map LogRecord.view =
      (p.entries (before ++ rs.flatMap (·.write.1)) fuel).map ClassAdLogEntry.view ↔
      LogRecord.ReadAlike rs := by
  induction rs generalizing before p fuel with
  | nil =>
    cases fuel with
    | zero => exact absurd enough (Nat.not_lt_zero _)
    | succ fuel =>
      have ended : p.entries (before ++ []) (fuel + 1) = [] := by
        simp only [ClassAdLogParser.entries, ClassAdLogParser.readLogEntry, opened, offset,
          List.append_nil, List.drop_length]
        rfl
      rw [List.flatMap_nil, ended]
      exact ⟨fun _ => trivial, fun _ => rfl⟩
  | cons r rs ih =>
    cases fuel with
    | zero => exact absurd enough (Nat.not_lt_zero _)
    | succ fuel =>
      obtain ⟨plain, later⟩ := List.forall_mem_cons.mp plain
      have solid := List.length_pos_of_ne_nil r.write_ne_nil
      rw [List.flatMap_cons, List.length_append] at enough
      rw [List.flatMap_cons, LogRecord.ReadAlike]
      by_cases clear : r.NoEofByte
      · rw [records_clear plain clear]
        by_cases text : r.HasText
        · have next : (p.after r).nextOffset = (before ++ r.write.1).length := by
            rw [List.length_append, ← offset]
            rfl
          have left : (rs.flatMap (·.write.1)).length < fuel := by omega
          have tail := ih (before ++ r.write.1) later (p := p.after r) opened next left
          rw [List.append_assoc] at tail
          rw [ClassAdLogParser.entries_whole plain text opened offset, List.map_cons,
            List.map_cons, List.cons_eq_cons, tail, LogRecord.view_stored, eq_comm,
            LogRecord.view_after]
          simp only [clear, true_and, not_true_eq_false, false_and, or_false]
        · rw [ClassAdLogParser.entries_blank plain text opened offset]
          have differ : ¬ r.Flush := fun flush => text (flush.hasText plain)
          simp only [List.map_cons, List.map_nil, reduceCtorEq, clear, differ, false_and,
            and_false, not_true_eq_false, or_self]
      · rw [records_unclear plain clear]
        by_cases text : r.HasText
        · rw [ClassAdLogParser.entries_whole plain text opened offset]
          simp only [List.map_cons, List.map_nil, reduceCtorEq, clear, text, false_and,
            not_true_eq_false, and_false, or_self]
        · rw [ClassAdLogParser.entries_blank plain text opened offset]
          simp only [List.map_nil, clear, text, false_and, not_false_eq_true, and_self, or_true]

/-- The two readers agree on a file of written records just when all of them are read
alike, or those up to one that neither reader reads. -/
theorem readers_agree_iff {rs : List LogRecord} (plain : ∀ r ∈ rs, r.Plain) :
    (records ((rs.flatMap (·.write.1)).length + 1) (rs.flatMap (·.write.1))).map LogRecord.view =
      (ClassAdLogParser.create.openFile.entries (rs.flatMap (·.write.1))
        ((rs.flatMap (·.write.1)).length + 1)).map ClassAdLogEntry.view ↔
      LogRecord.ReadAlike rs :=
  readers_agree_from [] plain rfl rfl (Nat.lt_succ_self _)

def owned (value : Bytes) : List LogRecord :=
  [.newClassAd (ascii "1.0") (ascii "Job") (ascii "Machine"),
    .setAttribute (ascii "1.0") (ascii "Owner") value false]

theorem plain_owned {value : Bytes} (plain : PlainValue value) : ∀ r ∈ owned value, r.Plain := by
  intro r member
  rcases List.mem_cons.mp member with rfl | member
  · refine ⟨?_, ?_, ?_⟩ <;> decide
  · rw [List.mem_singleton.mp member]
    exact ⟨by decide, by decide, plain⟩

theorem readers_agree_iff_owned :
    (records (((owned (ascii "me")).flatMap (·.write.1)).length + 1)
      ((owned (ascii "me")).flatMap (·.write.1))).map LogRecord.view =
    (ClassAdLogParser.create.openFile.entries ((owned (ascii "me")).flatMap (·.write.1))
      (((owned (ascii "me")).flatMap (·.write.1)).length + 1)).map ClassAdLogEntry.view := by
  refine (readers_agree_iff (plain_owned (by decide))).mpr (Or.inl ⟨by decide, trivial, ?_⟩)
  exact Or.inl ⟨by decide, by decide, trivial⟩

def readValues (value : Bytes) : List (Option Bytes) × List (Option Bytes) :=
  let file := (owned value).flatMap (·.write.1)
  ((records 100 file).tail.map fun r => r.view.2.getLastD none,
    (ClassAdLogParser.create.openFile.entries file 100).tail.map fun e => e.view.2.getLastD none)

/-- A blank in front of the value is dropped by the followers, a value of one blank is not
read by them, and a value with the byte 0xFF is read by them only. -/
theorem readers_disagree :
    (PlainValue (ascii " me") ∧
      readValues (ascii " me") = ([some (ascii " me")], [some (ascii "me")])) ∧
    (PlainValue (ascii " ") ∧ readValues (ascii " ") = ([some (ascii " ")], [])) ∧
    (PlainValue [0xFF] ∧ readValues [0xFF] = ([], [some [0xFF]])) := by
  decide +kernel

end Condor.TransactionLog
