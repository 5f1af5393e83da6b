import Condor.TransactionLog.LogRecord

/-! `readword` and `readline` compare a `signed char` with `EOF`, so a byte 0xFF looks like an error
of the stream. All other words and values that the format can hold are read back. -/
namespace Condor.TransactionLog
open Condor.Lib Condor.Utils

def PlainWord (w : Bytes) : Prop := w ≠ [] ∧ ∀ b ∈ w, isSpace b = false ∧ b ≠ nul

def PlainValue (v : Bytes) : Prop := v ≠ [] ∧ ∀ b ∈ v, b ≠ newline ∧ b ≠ nul

instance (w : Bytes) : Decidable (PlainWord w) :=
  @instDecidableAnd _ _ _ (List.decidableBAll _ w)

instance (v : Bytes) : Decidable (PlainValue v) :=
  @instDecidableAnd _ _ _ (List.decidableBAll _ v)

namespace LogRecord

def Plain : LogRecord → Prop
  | .newClassAd key mytype targettype => PlainWord key ∧ PlainWord mytype ∧ PlainWord targettype
  | .destroyClassAd key => PlainWord key
  | .setAttribute key name value _ => PlainWord key ∧ PlainWord name ∧ PlainValue value
  | .deleteAttribute key name => PlainWord key ∧ PlainWord name
  | .beginTransaction => True
  | .endTransaction => True
  | .historicalSequenceNumber .. => True

instance : ∀ r : LogRecord, Decidable r.Plain
  | .newClassAd .. => inferInstanceAs (Decidable (PlainWord _ ∧ PlainWord _ ∧ PlainWord _))
  | .destroyClassAd _ => inferInstanceAs (Decidable (PlainWord _))
  | .setAttribute .. => inferInstanceAs (Decidable (PlainWord _ ∧ PlainWord _ ∧ PlainValue _))
  | .deleteAttribute .. => inferInstanceAs (Decidable (PlainWord _ ∧ PlainWord _))
  | .beginTransaction | .endTransaction | .historicalSequenceNumber .. => .isTrue trivial

def texts : LogRecord → List Bytes
  | .newClassAd key mytype targettype => [key, mytype, targettype]
  | .destroyClassAd key => [key]
  | .setAttribute key name value _ => [key, name, value]
  | .deleteAttribute key name => [key, name]
  | .beginTransaction => []
  | .endTransaction => []
  | .historicalSequenceNumber .. => []

def NoEofByte (r : LogRecord) : Prop := ∀ text ∈ r.texts, eofByte ∉ text

instance (r : LogRecord) : Decidable r.NoEofByte := inferInstanceAs (Decidable (∀ _ ∈ _, _ ∉ _))

end LogRecord

variable {w : Bytes}

theorem PlainWord.isWord (plain : PlainWord w) (clear : eofByte ∉ w) : IsWord w := by
  refine ⟨plain.1, fun b member => ?_⟩
  obtain ⟨space, other⟩ := plain.2 b member
  have noEof : b ≠ eofByte := by
    rintro rfl
    exact clear member
  simp [endsWord, space, other, noEof]

variable {v : Bytes}

theorem PlainValue.isValue (plain : PlainValue v) (clear : eofByte ∉ v) :
    IsValue v := by
  refine ⟨plain.1, fun b member => ?_⟩
  obtain ⟨line, other⟩ := plain.2 b member
  have noEof : b ≠ eofByte := by
    rintro rfl
    exact clear member
  simp [endsLine, line, other, noEof]

/-- A scan ends at the first byte that looks like `EOF` when nothing before it ends it. -/
theorem scanUntil_eofByte (stop : UInt8 → Bool) (stops : stop eofByte = true)
    (plain : ∀ b ∈ w, stop b = true → b = eofByte) (member : eofByte ∈ w) (rest : Bytes) :
    ∃ word left, scanUntil stop (w ++ rest) = (word, some eofByte, left) := by
  induction w with
  | nil => exact absurd member List.not_mem_nil
  | cons b w ih =>
    rw [List.cons_append, scanUntil]
    split
    · next ends =>
        rw [plain b List.mem_cons_self ends]
        exact ⟨_, _, rfl⟩
    · next goesOn =>
        have later : eofByte ∈ w := by
          rcases List.mem_cons.mp member with rfl | later
          · exact absurd stops goesOn
          · exact later
        obtain ⟨word, left, scanned⟩ :=
          ih (fun c inside => plain c (List.mem_cons_of_mem b inside)) later
        rw [scanned]
        exact ⟨_, _, rfl⟩

theorem jams_readword (plain : PlainWord w) (member : eofByte ∈ w) : Jams readword w := by
  intro rest
  have ends : ∀ b ∈ w, endsWord b = true → b = eofByte := by
    intro b inside ends
    obtain ⟨space, other⟩ := plain.2 b inside
    simpa [endsWord, space, other] using ends
  cases w with
  | nil => exact absurd rfl plain.1
  | cons c w =>
    have solid : isSpace c = false := (plain.2 c List.mem_cons_self).1
    have first : skipBlanks (c :: (w ++ rest)) = (some c, w ++ rest) := by
      simp [skipBlanks, solid]
    rw [List.cons_append, readword, first]
    by_cases stops : endsWord c = true
    · simp only [stops, if_true]
    · have later : eofByte ∈ w := by
        rcases List.mem_cons.mp member with rfl | later
        · exact absurd (by decide) stops
        · exact later
      obtain ⟨word, left, scanned⟩ := scanUntil_eofByte endsWord (by decide)
        (fun b inside => ends b (List.mem_cons_of_mem c inside)) later rest
      simp only [Bool.not_eq_true] at stops
      simp only [stops, Bool.false_eq_true, if_false, scanned, if_true]

theorem jams_readline (plain : PlainValue v) (member : eofByte ∈ v) :
    Jams readline v := by
  intro rest
  have ends : ∀ b ∈ v, endsLine b = true → b = eofByte := by
    intro b inside ends
    obtain ⟨line, other⟩ := plain.2 b inside
    simpa [endsLine, line, other] using ends
  obtain ⟨line, left, scanned⟩ := scanUntil_eofByte endsLine (by decide) ends member rest
  rw [readline, scanned]
  simp only [true_or, if_true]

/-- Words are read one after the other, up to the first one that is not read. -/
theorem jams_readword_bind {α : Type} {cs : Bytes} {f : Bytes → Reader UInt8 α}
    (plain : PlainWord w) (later : eofByte ∉ w → Jams (f w) cs) :
    Jams (readword >>= f) (w ++ [blank] ++ cs) := by
  by_cases member : eofByte ∈ w
  · rw [List.append_assoc]
    exact (jams_readword plain member).bind f _
  · exact Jams.after (frames_readword (plain.isWord member) (by decide)) (later member)

theorem PlainWord.oneLine {key name value : Bytes} (first : PlainWord key)
    (second : PlainWord name) (third : PlainValue value) :
    ¬(newline ∈ key ∨ newline ∈ name ∨ newline ∈ value) := by
  rintro (inKey | inName | inValue)
  · exact absurd (first.2 _ inKey).1 (by decide)
  · exact absurd (second.2 _ inName).1 (by decide)
  · exact (third.2 _ inValue).1 rfl

namespace LogRecord

variable {r : LogRecord}

theorem Plain.legible (plain : r.Plain) (clear : r.NoEofByte) : r.Legible := by
  cases r with
  | newClassAd key mytype targettype =>
    obtain ⟨first, second, third⟩ := plain
    exact ⟨first.isWord (clear key (by simp [texts])),
      second.isWord (clear mytype (by simp [texts])),
      third.isWord (clear targettype (by simp [texts]))⟩
  | destroyClassAd key => exact PlainWord.isWord plain (clear key (by simp [texts]))
  | setAttribute key name value isDirty =>
    obtain ⟨first, second, third⟩ := plain
    exact ⟨first.isWord (clear key (by simp [texts])),
      second.isWord (clear name (by simp [texts])),
      third.isValue (clear value (by simp [texts]))⟩
  | deleteAttribute key name =>
    obtain ⟨first, second⟩ := plain
    exact ⟨first.isWord (clear key (by simp [texts])),
      second.isWord (clear name (by simp [texts]))⟩
  | beginTransaction => trivial
  | endTransaction => trivial
  | historicalSequenceNumber number timestamp => trivial

/-- Of a text with the byte, the record is not read. -/
theorem jams_body (plain : r.Plain) (unclear : ¬ r.NoEofByte) :
    ∃ text read, r.body = some text ∧ readBody r.opType = some read ∧
      Jams read (text ++ [newline]) := by
  cases r with
  | newClassAd key mytype targettype =>
    obtain ⟨first, second, third⟩ := plain
    refine ⟨_, _, rfl, rfl, ?_⟩
    rw [List.append_assoc, List.append_assoc (mytype ++ _)]
    refine jams_readword_bind first fun clear => ?_
    refine jams_readword_bind second fun clear' => ?_
    refine (jams_readword third ?_).bind _ _
    by_contra clear''
    exact unclear (by simp [NoEofByte, texts, clear, clear', clear''])
  | destroyClassAd key =>
    refine ⟨_, _, rfl, rfl, (jams_readword plain ?_).bind _ _⟩
    by_contra clear
    exact unclear (by simp [NoEofByte, texts, clear])
  | setAttribute key name value isDirty =>
    obtain ⟨first, second, third⟩ := plain
    refine ⟨_, _, if_neg (first.oneLine second third), rfl, ?_⟩
    rw [List.append_assoc, List.append_assoc (name ++ _)]
    refine jams_readword_bind first fun clear => ?_
    refine jams_readword_bind second fun clear' => ?_
    refine (jams_readline third ?_).bind _ _
    by_contra clear''
    exact unclear (by simp [NoEofByte, texts, clear, clear', clear''])
  | deleteAttribute key name =>
    obtain ⟨first, second⟩ := plain
    refine ⟨_, _, rfl, rfl, ?_⟩
    rw [List.append_assoc]
    refine jams_readword_bind first fun clear => ?_
    refine (jams_readword second ?_).bind _ _
    by_contra clear'
    exact unclear (by simp [NoEofByte, texts, clear, clear'])
  | beginTransaction => exact absurd (by simp [NoEofByte, texts]) unclear
  | endTransaction => exact absurd (by simp [NoEofByte, texts]) unclear
  | historicalSequenceNumber number timestamp =>
    exact absurd (by simp [NoEofByte, texts]) unclear

/-- No record at all is read from what was written of such a record. -/
theorem readLogEntry_unclear (plain : r.Plain) (unclear : ¬ r.NoEofByte) (rest : Bytes) :
    ∀ found left, readLogEntry (r.write.1 ++ rest) ≠ .ok (some found, left) := by
  intro found left
  obtain ⟨text, read, written, reader, stuck⟩ := jams_body plain unclear
  rw [write_of_body written, List.append_assoc, readLogEntry, r.frames_header.whole]
  simp only [instantiateLogEntry, atoi_opType, reader]
  have none := stuck rest
  generalize read (text ++ [newline] ++ rest) = answer at none
  obtain ⟨answered, after⟩ := answer
  cases none
  dsimp only
  split
  · exact fun wrong => by cases wrong
  · exact fun wrong => by cases wrong

/-- A record that is written is read back, whatever follows it, just when none of its texts
has the byte that looks like `EOF`. -/
theorem readLogEntry_write_iff {r : LogRecord} (plain : r.Plain) :
    (r.write.2 = true → ∀ rest, readLogEntry (r.write.1 ++ rest) = .ok (some r.stored, rest)) ↔
      r.NoEofByte := by
  constructor
  · intro back
    by_contra unclear
    obtain ⟨text, read, written, -, -⟩ := jams_body plain unclear
    have succeeded : r.write.2 = true := by rw [write_of_body written]
    exact readLogEntry_unclear plain unclear [] _ _ (back succeeded [])
  · intro clear _ rest
    exact readLogEntry_write (plain.legible clear) rest

def latin (value : Bytes) : LogRecord := .setAttribute (ascii "1.0") (ascii "Owner") value false

theorem readLogEntry_write_iff_latin :
    (latin [0xE9]).write.2 = true ∧ readLogEntry ((latin [0xE9]).write.1 ++ ascii "106") =
      .ok (some (latin [0xE9]), ascii "106") := by
  have plain : (latin [0xE9]).Plain := by
    refine ⟨?_, ?_, ?_⟩ <;> decide
  refine ⟨by decide, (readLogEntry_write_iff plain).mpr (by decide) (by decide) _⟩

/-- The letter y with a diaeresis is the byte 0xFF, and the record is lost. -/
theorem readLogEntry_loses_eofByte :
    (latin [0xFF]).Plain ∧ (latin [0xFF]).write.2 = true ∧
      readLogEntry (latin [0xFF]).write.1 = .ok (none, []) := by
  refine ⟨⟨?_, ?_, ?_⟩, ?_, ?_⟩ <;> decide +kernel

end LogRecord
end Condor.TransactionLog
