import Condor.TransactionLog.LogFollower
import Condor.TransactionLog.ReaderAgreement

/-! The parser stops in front of a record that is not complete, and goes on from there. A successful
poll leaves the consumer with all complete records, each once, under conditions on values, prober
and callbacks. -/
namespace Condor.TransactionLog
open Condor.Lib Condor.Utils

theorem atol_decimal {n : Nat} (small : n < 2 ^ 63) : atol (decimal n) = n := by
  rw [atol, scanInteger_decimal, Option.getD_some]
  omega

/-! ## The parser on a file that ends inside a record -/

namespace ClassAdLogParser

/-- A field that the parser finds in a block and does not find in a part of it. -/
structure Holds (field : Field) (bs : Bytes) : Prop where
  whole : ∀ e rest, ∃ e', readField e (bs ++ rest) field = (true, e', rest)
  torn : ∀ e cut, cut <+: bs → cut ≠ bs → ∃ e', readField e cut field = (false, e', [])

variable {cut : Bytes}
variable {w v : Bytes} {d : UInt8}

theorem readword_torn (plain : PlainWord w) (inside : cut <+: w ++ [d]) (proper : cut ≠ w ++ [d]) :
    readword cut = (.eof, []) := by
  rcases List.prefix_concat_iff.mp inside with all | short
  · exact absurd all proper
  · refine readText_torn fun b member => ?_
    obtain ⟨noSpace, noNul⟩ := plain.2 b (short.subset member)
    simp [parserEndsWord, noSpace, noNul]

theorem readline_torn (plain : PlainValue v) (inside : cut <+: v ++ [newline])
    (proper : cut ≠ v ++ [newline]) : readline cut = (.eof, []) := by
  rcases List.prefix_concat_iff.mp inside with all | short
  · exact absurd all proper
  · refine readText_torn fun b member => ?_
    obtain ⟨noLine, noNul⟩ := plain.2 b (short.subset member)
    simp [parserEndsLine, noLine, noNul]

theorem holds_word (plain : PlainWord w) (space : isSpace d = true) {field : Field}
    (word : field = .key ∨ field = .mytype ∨ field = .targettype ∨ field = .name) :
    Holds field (w ++ [d]) := by
  have whole : ∀ rest, readword (w ++ [d] ++ rest) = (.text w, rest) := by
    intro rest
    rw [List.append_assoc]
    exact readword_whole plain space rest
  refine ⟨fun e rest => ?_, fun e cut inside proper => ?_⟩
  · rcases word with rfl | rfl | rfl | rfl <;> simp only [readField, whole] <;> exact ⟨_, rfl⟩
  · have torn := readword_torn plain inside proper
    rcases word with rfl | rfl | rfl | rfl <;> simp only [readField, torn] <;> exact ⟨_, rfl⟩

theorem holds_value (plain : PlainValue v) (text : v.dropWhile isSpace ≠ []) :
    Holds .value (v ++ [newline]) := by
  refine ⟨fun e rest => ?_, fun e cut inside proper => ?_⟩
  · have whole := readline_whole plain text rest
    rw [List.append_assoc]
    simp only [readField, List.cons_append, List.nil_append, whole]
    exact ⟨_, rfl⟩
  · simp only [readField, readline_torn plain inside proper]
    exact ⟨_, rfl⟩

theorem holds_newline : Holds .newline [newline] := by
  refine ⟨fun e rest => ⟨e, rfl⟩, fun e cut inside proper => ⟨e, ?_⟩⟩
  rcases List.prefix_cons_iff.mp inside with rfl | ⟨rest, rfl, empty⟩
  · rfl
  · exact absurd (by rw [ List.prefix_nil.mp empty]) proper

theorem readFields_torn {fields : List Field} {blocks : List Bytes}
    (h : List.Forall₂ Holds fields blocks) (e : ClassAdLogEntry) (inside : cut <+: blocks.flatten)
    (proper : cut ≠ blocks.flatten) :
    ∃ e', readFields fields e cut = (false, e', []) := by
  induction h generalizing e cut with
  | nil => exact absurd ( List.prefix_nil.mp inside) proper
  | cons first _ ih =>
    rw [List.flatten_cons] at inside proper
    rcases prefix_append_cases inside proper with ⟨early, short⟩ | ⟨rest, rfl, late, short⟩
    · obtain ⟨e', torn⟩ := first.torn e _ early short
      exact ⟨e', by simp only [readFields, torn]⟩
    · obtain ⟨e', whole⟩ := first.whole e rest
      simp only [readFields, whole]
      exact ih e' late short

theorem exists_blocks {r : LogRecord} (plain : r.Plain) (text : r.HasText) :
    ∃ body fields blocks, r.body = some body ∧ bodyFields r.opType = some fields ∧
      body ++ [newline] = blocks.flatten ∧ List.Forall₂ Holds fields blocks := by
  cases r with
  | newClassAd key mytype targettype =>
    obtain ⟨first, second, third⟩ := plain
    refine ⟨_, _, [key ++ [blank], mytype ++ [blank], targettype ++ [newline]], rfl, rfl,
      by simp, ?_⟩
    exact .cons (holds_word first isSpace_blank (by simp)) (.cons
      (holds_word second isSpace_blank (by simp)) (.cons
        (holds_word third isSpace_newline (by simp)) .nil))
  | destroyClassAd key =>
    refine ⟨_, _, [key ++ [newline]], rfl, rfl, by simp, ?_⟩
    exact .cons (holds_word plain isSpace_newline (by simp)) .nil
  | setAttribute key name value isDirty =>
    obtain ⟨body, -, written, -⟩ := readFields_body plain text
    obtain ⟨first, second, third⟩ := plain
    refine ⟨body, _, [key ++ [blank], name ++ [blank], value ++ [newline]], written, rfl, ?_, ?_⟩
    · simp only [LogRecord.body] at written
      split at written
      · cases written
      · rw [← Option.some.inj written]
        simp
    · exact .cons (holds_word first isSpace_blank (by simp)) (.cons
        (holds_word second isSpace_blank (by simp)) (.cons (holds_value third text) .nil))
  | deleteAttribute key name =>
    obtain ⟨first, second⟩ := plain
    refine ⟨_, _, [key ++ [blank], name ++ [newline]], rfl, rfl, by simp, ?_⟩
    exact .cons (holds_word first isSpace_blank (by simp)) (.cons
      (holds_word second isSpace_newline (by simp)) .nil)
  | beginTransaction => exact ⟨_, _, [[newline]], rfl, rfl, rfl, .cons holds_newline .nil⟩
  | endTransaction => exact ⟨_, _, [[newline]], rfl, rfl, rfl, .cons holds_newline .nil⟩
  | historicalSequenceNumber number timestamp =>
    have first := plainWord_of_isWord (isWord_decimal number.toNat)
    have second := plainWord_of_isWord isWord_creationTimestamp
    refine ⟨_, _, [decimal number.toNat ++ [blank], ascii "CreationTimestamp" ++ [blank],
      decimal timestamp.toNat ++ [newline]], rfl, rfl, by simp, ?_⟩
    exact .cons (holds_word first isSpace_blank (by simp)) (.cons
      (holds_word second isSpace_blank (by simp)) (.cons
        (holds_value (plainValue_decimal _) (by
          rw [dropWhile_decimal]
          exact decimal_ne_nil _)) .nil))

theorem readLogEntry_torn {r : LogRecord} (plain : r.Plain) (text : r.HasText)
    (inside : cut <+: r.write.1) (proper : cut ≠ r.write.1) {p : ClassAdLogParser} {before : Bytes}
    (opened : p.logFp = .opened) (offset : p.nextOffset = before.length) (opType : Int) :
    ∃ p', p.readLogEntry (before ++ cut) opType = (.fileReadEof, p') ∧
      p'.nextOffset = p.nextOffset ∧ p'.logFp = .null := by
  obtain ⟨body, fields, blocks, written, known, split, held⟩ := exists_blocks plain text
  rw [LogRecord.write_of_body written] at inside proper
  have file : (before ++ cut).drop p.nextOffset = cut := by rw [offset, List.drop_left]
  rcases prefix_append_cases inside proper with ⟨early, short⟩ | ⟨rest, rfl, late, short⟩
  · have ended := readword_torn (plainWord_of_isWord (isWord_decimal r.opType)) early short
    simp only [readLogEntry, opened, file, ended]
    exact ⟨_, rfl, rfl, rfl⟩
  · rw [split] at late short
    obtain ⟨e, stuck⟩ := readFields_torn held
      ((p.advance r.opType).curCALogEntry.init r.opType) late short
    simp only [readLogEntry, opened, file, readword_header, LogRecord.atoi_opType, known, stuck]
    exact ⟨_, rfl, rfl, rfl⟩

end ClassAdLogParser

/-! ## One load -/

def LogRecord.Clear (r : LogRecord) : Prop := r.Plain ∧ r.Flush

instance (r : LogRecord) : Decidable r.Clear :=
  inferInstanceAs (Decidable (r.Plain ∧ r.Flush))

def IsTorn (cut : Bytes) : Prop := ∃ r : LogRecord, r.Clear ∧ cut <+: r.write.1 ∧ cut ≠ r.write.1

variable {r : LogRecord}

theorem LogRecord.Clear.hasText (clear : r.Clear) : r.HasText :=
  clear.2.hasText clear.1

theorem IsTorn.nil : IsTorn [] :=
  ⟨.beginTransaction, ⟨trivial, trivial⟩, List.nil_prefix, (LogRecord.write_ne_nil _).symm⟩

def Consumer.take (consumer : Consumer) (r : LogRecord) : Bool × Consumer :=
  match r.callback with
  | none => (true, consumer)
  | some callback => consumer.call callback

theorem processLogEntry_after (flush : r.Flush) (p : ClassAdLogParser) (consumer : Consumer) :
    processLogEntry consumer (p.after r).curCALogEntry = consumer.take r := by
  cases r with
  | setAttribute key name value isDirty =>
    have flush : value.dropWhile isSpace = value := flush
    change consumer.call (.setAttribute (some key) (some name) (some (value.dropWhile isSpace))) =
      consumer.call (.setAttribute (some key) (some name) (some value))
    rw [flush]
  | _ => rfl

theorem Consumer.take_cases (consumer : Consumer) (r : LogRecord) :
    ∃ ok consumer', consumer.take r = (ok, consumer') ∧
      consumer'.callbacks = consumer.callbacks ++ [r].filterMap LogRecord.callback ∧
      consumer'.failed = (consumer.failed || !ok) ∧
      ((∀ a ∈ consumer.answers, a = true) → ok = true ∧ ∀ a ∈ consumer'.answers, a = true) := by
  unfold Consumer.take
  cases here : r.callback with
  | none =>
    refine ⟨true, consumer, rfl, ?_, ?_, fun all => ⟨rfl, all⟩⟩
    · simp [here]
    · simp
  | some callback =>
    refine ⟨_, _, rfl, ?_, rfl, fun all => ⟨?_, fun a member => ?_⟩⟩
    · simp [here]
    · cases answers : consumer.answers with
      | nil => rfl
      | cons a rest => exact all a (answers ▸ List.mem_cons_self)
    · exact all a (List.mem_of_mem_tail member)

namespace ClassAdLogReader

/-- How a load goes through the records that are left in the file: it ends when a callback
fails, or behind the last record that is complete. -/
structure Loads (left : List LogRecord) (r : ClassAdLogReader) (ok : Bool)
    (r' : ClassAdLogReader) : Prop where
  prober : r'.prober = r.prober
  failed : r'.consumer.failed = (r.consumer.failed || !ok)
  answered : (∀ a ∈ r.consumer.answers, a = true) → ok = true
  progress : ∃ done rest, left = done ++ rest ∧ (ok = true → rest = []) ∧
    r'.parser.nextOffset = r.parser.nextOffset + (Following.text done).length ∧
    r'.consumer.callbacks = r.consumer.callbacks ++ done.filterMap LogRecord.callback

theorem incrementalLoad_loads {left : List LogRecord} (clear : ∀ r ∈ left, r.Clear) {cut : Bytes}
    (torn : IsTorn cut) {before : Bytes} {r : ClassAdLogReader} (opened : r.parser.logFp = .opened)
    (offset : r.parser.nextOffset = before.length) {fuel : Nat} (enough : left.length < fuel) :
    ∃ ok r', r.incrementalLoad (before ++ (Following.text left ++ cut)) fuel = some (ok, r') ∧
      Loads left r ok r' := by
  induction left generalizing before r fuel with
  | nil =>
    obtain ⟨q, clear, inside, proper⟩ := torn
    obtain ⟨fuel, rfl⟩ := Nat.exists_eq_succ_of_ne_zero (Nat.ne_zero_of_lt enough)
    obtain ⟨p', read, same, -⟩ := ClassAdLogParser.readLogEntry_torn clear.1 clear.hasText inside
      proper opened offset 0
    refine ⟨true, { r with parser := p' }, ?_, rfl, ?_, fun _ => rfl, [], [], rfl, fun _ => rfl,
      ?_, ?_⟩
    · simp only [incrementalLoad, Following.text, List.flatMap_nil, List.nil_append, read]
    · simp
    · simpa [Following.text] using same
    · simp
  | cons q left ih =>
    obtain ⟨first, later⟩ := List.forall_mem_cons.mp clear
    obtain ⟨fuel, rfl⟩ := Nat.exists_eq_succ_of_ne_zero (Nat.ne_zero_of_lt enough)
    have file : before ++ (Following.text (q :: left) ++ cut) =
        before ++ (q.write.1 ++ (Following.text left ++ cut)) := by
      simp [Following.text]
    have read : r.parser.readLogEntry (before ++ (q.write.1 ++ (Following.text left ++ cut))) 0 =
        (.fileReadSuccess, r.parser.after q) :=
      ClassAdLogParser.readLogEntry_whole first.1 first.hasText opened offset 0
    obtain ⟨ok, consumer, taken, callbacks, failed, answered⟩ := r.consumer.take_cases q
    have next : (r.parser.after q).nextOffset = r.parser.nextOffset + q.write.1.length := rfl
    rw [file]
    cases ok with
    | false =>
      refine ⟨false, ⟨r.parser.after q, r.prober, consumer⟩, ?_, rfl, failed,
        fun all => (answered all).1, [q], left, rfl,
        fun wrong => absurd wrong Bool.false_ne_true, ?_, callbacks⟩
      · simp only [incrementalLoad, read, processLogEntry_after first.2, taken]
      · simpa [Following.text] using next
    | true =>
      have offset' : (r.parser.after q).nextOffset = (before ++ q.write.1).length := by
        rw [next, List.length_append, offset]
      have enough' : left.length < fuel := by
        rw [List.length_cons] at enough
        omega
      obtain ⟨ok, r', loaded, loads⟩ :=
        ih later (r := ⟨r.parser.after q, r.prober, consumer⟩) opened offset' enough'
      rw [List.append_assoc] at loaded
      obtain ⟨done, rest, split, ended, offsets, calls⟩ := loads.progress
      refine ⟨ok, r', ?_, loads.prober, ?_, fun all => loads.answered (answered all).2,
        q :: done, rest, ?_, ended, ?_, ?_⟩
      · simp only [incrementalLoad, read, processLogEntry_after first.2, taken, loaded]
      · rw [loads.failed, failed]
        simp
      · rw [split, List.cons_append]
      · rw [offsets, next]
        simp [Following.text, Nat.add_assoc]
      · rw [calls, callbacks, ← List.singleton_append (l := done), List.filterMap_append,
          List.append_assoc]

end ClassAdLogReader

/-! ## One step of the writer or the reader -/

namespace Following

/-- What keeps the follower with the log: values are not changed by the parser, sequence
numbers fit a `long`, the prober finds complete records and leaves the stream open, and
no callback fails in a reload of a file that has not grown. -/
def Meets (s : Following) : FollowingStep → Prop
  | .append r => r.Clear
  | .flush _ => True
  | .rotate number _ state => number.toNat < 2 ^ 63 ∧ ∀ r ∈ state, r.Clear
  | .poll opens answers => opens = true →
      (s.reader.prober.probe s.file s.reader.parser.lastCALogEntry).fp = .opened ∧
        ((∀ a ∈ answers, a = true) ∨ s.reader.prober.lastSize = 0 ∨
          s.reader.prober.lastSeqNum ≠ s.number ∨ s.reader.prober.lastSize < s.file.length)

/-- The reader has had the first records of this file, and all that were complete when it
last loaded it. -/
def Synced (s : Following) : Prop :=
  ∃ done rest, s.complete = done ++ rest ∧
    s.reader.parser.nextOffset = (text done).length ∧
    s.reader.consumer.callbacks = done.filterMap LogRecord.callback ∧
    s.reader.prober.lastSize ≤ s.visible ∧ (s.reader.prober.lastSize = s.visible → rest = [])

structure Tracks (s : Following) : Prop where
  head : ∃ number timestamp rs, s.records = .historicalSequenceNumber number timestamp :: rs ∧
    number.toNat < 2 ^ 63
  clear : ∀ r ∈ s.records, r.Clear
  within : s.visible ≤ (text s.records).length
  older : s.reader.prober.lastSeqNum ≤ s.number
  synced : s.reader.prober.lastSize ≠ 0 → s.reader.prober.lastSeqNum = s.number → s.Synced

variable {s : Following}

theorem Tracks.length_file (h : s.Tracks) : s.file.length = s.visible := by
  rw [file, List.length_take]
  exact Nat.min_eq_left h.within

theorem Tracks.file_eq (h : s.Tracks) : ∃ cut, IsTorn cut ∧ s.file = text s.complete ++ cut := by
  let encode := fun r : LogRecord => r.write.1
  refine ⟨tornPart encode s.visible s.records, ?_, take_flatMap s.visible s.records⟩
  rcases tornPart_cases encode s.visible s.records with none | ⟨r, member, inside, proper⟩
  · rw [none]
    exact .nil
  · exact ⟨r, h.clear r member, inside, proper⟩

theorem Tracks.complete_clear (h : s.Tracks) : ∀ r ∈ s.complete, r.Clear :=
  fun r member => h.clear r (( wholeRecords_prefix _ _).subset member)

variable {number : UInt64} {r' : ClassAdLogReader} {answers : List Bool}

theorem number_eq {timestamp : UInt64} {rs : List LogRecord}
    (head : s.records = .historicalSequenceNumber number timestamp :: rs) :
    s.number = number.toNat := by
  rw [Following.number, head]

theorem Tracks.start (small : number.toNat < 2 ^ 63) (timestamp : UInt64) :
    Tracks (start number timestamp) where
  head := ⟨number, timestamp, [], rfl, small⟩
  clear := by
    intro r member
    rw [List.mem_singleton.mp member]
    exact ⟨trivial, trivial⟩
  within := Nat.zero_le _
  older := Int.natCast_nonneg _
  synced := fun loaded => absurd rfl loaded

theorem Tracks.append (h : s.Tracks) (clear : r.Clear) :
    Tracks { s with records := s.records ++ [r], result := none } := by
  obtain ⟨number, timestamp, rs, head, small⟩ := h.head
  have head' : s.records ++ [r] = .historicalSequenceNumber number timestamp :: (rs ++ [r]) := by
    rw [head, List.cons_append]
  have same : Following.number { s with records := s.records ++ [r], result := none } =
      s.number := by
    rw [number_eq head, number_eq head']
  refine ⟨⟨number, timestamp, rs ++ [r], head', small⟩, ?_, ?_, ?_, fun loaded seen => ?_⟩
  · intro q member
    rcases List.mem_append.mp member with old | new
    · exact h.clear q old
    · rw [List.mem_singleton.mp new]
      exact clear
  · have within := h.within
    simp only [text, List.flatMap_append, List.length_append] at within ⊢
    omega
  · rw [same]
    exact h.older
  · rw [same] at seen
    obtain ⟨done, rest, split, tracked⟩ := h.synced loaded seen
    refine ⟨done, rest, ?_, tracked⟩
    rw [← split]
    exact wholeRecords_append_of_within LogRecord.write_ne_nil h.within [r]

theorem Tracks.flush (h : s.Tracks) (n : Nat) :
    Tracks { s with visible := min (s.visible + n) (text s.records).length, result := none } := by
  have grows : s.visible ≤ min (s.visible + n) (text s.records).length :=
    Nat.le_min.mpr ⟨Nat.le_add_right _ _, h.within⟩
  refine ⟨h.head, h.clear, Nat.min_le_right _ _, h.older, fun loaded seen => ?_⟩
  obtain ⟨done, rest, split, offset, callbacks, size, all⟩ := h.synced loaded seen
  obtain ⟨more, grown⟩ := wholeRecords_mono (fun r : LogRecord => r.write.1) grows s.records
  refine ⟨done, rest ++ more, ?_, offset, callbacks, Nat.le_trans size grows, fun same => ?_⟩
  · rw [← List.append_assoc, ← split]
    exact grown.symm
  · have same : s.reader.prober.lastSize = min (s.visible + n) (text s.records).length := same
    have still : s.visible = min (s.visible + n) (text s.records).length := by omega
    rw [← still] at grown same
    have none : more = [] := List.self_eq_append_right.mp grown.symm
    rw [all same, none, List.nil_append]

theorem Tracks.rotate (h : s.Tracks) (timestamp : UInt64) {state : List LogRecord}
    (larger : s.number < number.toNat) (small : number.toNat < 2 ^ 63)
    (clear : ∀ r ∈ state, r.Clear) :
    Tracks { s with
      records := .historicalSequenceNumber number timestamp :: state
      visible := (text (.historicalSequenceNumber number timestamp :: state)).length
      result := none } := by
  have older := h.older
  refine ⟨⟨number, timestamp, state, rfl, small⟩, ?_, Nat.le_refl _, ?_, fun loaded seen => ?_⟩
  · intro r member
    rcases List.mem_cons.mp member with rfl | later
    · exact ⟨trivial, trivial⟩
    · exact clear r later
  · change s.reader.prober.lastSeqNum ≤ (number.toNat : Int)
    omega
  · have seen : s.reader.prober.lastSeqNum = (number.toNat : Int) := seen
    omega

/-! ## A poll -/

theorem compare_cases (file : Bytes) (prober : ClassAdLogProber) (last : ClassAdLogEntry)
    (p : ClassAdLogParser) :
    (prober.compare file last p).prober = prober ∧
      ((prober.compare file last p).result = .noChange → prober.lastSize = file.length) := by
  unfold ClassAdLogProber.compare
  split
  · exact ⟨rfl, nofun⟩
  · exact ⟨rfl, nofun⟩
  all_goals
    split
    · next same => exact ⟨rfl, fun _ => same.1.symm⟩
    · split
      · exact ⟨rfl, nofun⟩
      · exact ⟨rfl, nofun⟩

variable {last : ClassAdLogEntry} {left before : List LogRecord} {result : Option PollResultType}
  {t : Following}

theorem Tracks.first (h : s.Tracks) (opened : (s.reader.prober.probe s.file last).fp = .opened) :
    ∃ p, ClassAdLogParser.create.openFile.readLogEntry s.file 0 = (.fileReadSuccess, p) ∧
      p.curCALogEntry.opType = 107 ∧ atol (p.curCALogEntry.key.getD []) = s.number := by
  obtain ⟨number, timestamp, rs, head, small⟩ := h.head
  have plain : (LogRecord.historicalSequenceNumber number timestamp).Plain := trivial
  have text : (LogRecord.historicalSequenceNumber number timestamp).HasText := trivial
  have after : ClassAdLogEntry.opType (ClassAdLogParser.create.openFile.after
        (.historicalSequenceNumber number timestamp)).curCALogEntry = 107 ∧
      atol ((ClassAdLogParser.create.openFile.after
        (.historicalSequenceNumber number timestamp)).curCALogEntry.key.getD []) = s.number := by
    rw [number_eq head]
    exact ⟨rfl, atol_decimal small⟩
  generalize LogRecord.historicalSequenceNumber number timestamp = first at head plain text after
  by_cases fits : first.write.1.length ≤ s.visible
  · have file : s.file =
        [] ++ (first.write.1 ++ (Following.text rs).take (s.visible - first.write.1.length)) := by
      rw [Following.file, head, Following.text, List.flatMap_cons, List.take_append,
        List.take_of_length_le fits]
      rfl
    refine ⟨ClassAdLogParser.create.openFile.after first, ?_, after⟩
    rw [file]
    exact ClassAdLogParser.readLogEntry_whole plain text rfl rfl 0
  · -- The prober closes the stream behind a record that is not complete.
    have file : s.file = [] ++ first.write.1.take s.visible := by
      rw [Following.file, head, Following.text, List.flatMap_cons,
        List.take_append_of_le_length (by omega)]
      rfl
    have short : first.write.1.take s.visible ≠ first.write.1 := by
      intro same
      have lengths := congrArg List.length same
      rw [List.length_take] at lengths
      omega
    have inside : first.write.1.take s.visible <+: first.write.1 :=
       List.take_prefix _ _
    have start : ClassAdLogParser.create.openFile.nextOffset = ([] : Bytes).length := rfl
    obtain ⟨p, read, -, closed⟩ :=
      ClassAdLogParser.readLogEntry_torn plain text inside short rfl start 0
    rw [← file] at read
    simp only [ClassAdLogProber.probe, read, ClassAdLogParser.leaves, closed] at opened
    cases opened

theorem Tracks.probe (h : s.Tracks) (opened : (s.reader.prober.probe s.file last).fp = .opened) :
    (s.reader.prober.probe s.file last).prober =
        { s.reader.prober with curProbedSize := s.visible, curProbedSeqNum := s.number } ∧
      ((s.reader.prober.probe s.file last).result = .noChange ∨
          (s.reader.prober.probe s.file last).result = .addition →
        s.reader.prober.lastSize ≠ 0 ∧ s.reader.prober.lastSeqNum = s.number) ∧
      ((s.reader.prober.probe s.file last).result = .noChange →
        s.reader.prober.lastSize = s.visible) := by
  obtain ⟨p, read, type, seen⟩ := h.first opened
  have size := h.length_file
  simp only [ClassAdLogProber.probe, read, type, seen, size, ne_eq, not_true_eq_false, if_false]
  split
  · refine ⟨rfl, ?_, nofun⟩
    rintro (wrong | wrong) <;> cases wrong
  · next loaded =>
      split
      · refine ⟨rfl, ?_, nofun⟩
        rintro (wrong | wrong) <;> cases wrong
      · next same =>
          obtain ⟨kept, unchanged⟩ := compare_cases s.file
            { s.reader.prober with curProbedSize := s.visible, curProbedSeqNum := s.number } last p
          refine ⟨kept, fun _ => ⟨loaded, (not_not.mp same).symm⟩, fun result => ?_⟩
          rw [← size]
          exact unchanged result

theorem Tracks.loaded (h : s.Tracks) {r : ClassAdLogReader} {ok : Bool}
    (split : s.complete = before ++ left) (loads : ClassAdLogReader.Loads left r ok r')
    (prober : r.prober =
      { s.reader.prober with curProbedSize := s.visible, curProbedSeqNum := s.number })
    (offset : r.parser.nextOffset = (text before).length)
    (callbacks : r.consumer.callbacks = before.filterMap LogRecord.callback)
    (fresh : r.consumer.failed = false)
    (guard : ok = true ∨ s.reader.prober.lastSize = 0 ∨ s.reader.prober.lastSeqNum ≠ s.number ∨
      s.reader.prober.lastSize < s.visible) :
    Tracks { s with reader := r'.finish ok, result := some .pollSuccess } ∧
      ((r'.finish ok).consumer.failed = false →
        UpToDate { s with reader := r'.finish ok, result := some .pollSuccess }) := by
  obtain ⟨done, rest, parts, ended, offset', callbacks'⟩ := loads.progress
  have whole : s.complete = (before ++ done) ++ rest := by
    rw [split, parts, List.append_assoc]
  have offsets : r'.parser.nextOffset = (text (before ++ done)).length := by
    rw [offset', offset, text, text, text, List.flatMap_append, List.length_append]
  have calls : r'.consumer.callbacks = (before ++ done).filterMap LogRecord.callback := by
    rw [callbacks', callbacks, List.filterMap_append]
  refine ⟨⟨h.head, h.clear, h.within, ?_, fun loaded seen => ?_⟩, fun passed => ?_⟩
  · cases ok with
    | false =>
      change r'.prober.lastSeqNum ≤ _
      rw [loads.prober, prober]
      exact h.older
    | true =>
      have probedNow : r'.prober.curProbedSeqNum = s.number := by rw [loads.prober, prober]
      exact Int.le_of_eq probedNow
  · cases ok with
    | false =>
      change r'.prober.lastSize ≠ 0 at loaded
      change r'.prober.lastSeqNum = (s.number : Int) at seen
      rw [loads.prober, prober] at loaded seen
      obtain ⟨-, -, -, -, -, size, -⟩ := h.synced loaded seen
      refine ⟨before ++ done, rest, whole, offsets, calls, ?_, fun same => ?_⟩
      · change r'.prober.lastSize ≤ s.visible
        rw [loads.prober, prober]
        exact size
      · change r'.prober.lastSize = s.visible at same
        rw [loads.prober, prober] at same
        rcases guard with wrong | none | other | grown
        · cases wrong
        · exact absurd none loaded
        · exact absurd seen other
        · exact absurd same (Nat.ne_of_lt grown)
    | true =>
      refine ⟨before ++ done, rest, whole, offsets, calls, ?_, fun _ => ended rfl⟩
      have probedNow : r'.prober.curProbedSize = s.visible := by rw [loads.prober, prober]
      exact Nat.le_of_eq probedNow
  · have through : ok = true := by
      change r'.consumer.failed = false at passed
      rw [loads.failed, fresh] at passed
      simpa using passed
    change r'.consumer.callbacks = s.complete.filterMap LogRecord.callback
    rw [calls, whole, ended through, List.append_nil]

theorem Tracks.congr (h : s.Tracks) {r : ClassAdLogReader}
    (size : r.prober.lastSize = s.reader.prober.lastSize)
    (number : r.prober.lastSeqNum = s.reader.prober.lastSeqNum)
    (offset : r.parser.nextOffset = s.reader.parser.nextOffset)
    (callbacks : r.consumer.callbacks = s.reader.consumer.callbacks) :
    Tracks { s with reader := r, result := result } := by
  refine ⟨h.head, h.clear, h.within, ?_, fun loaded seen => ?_⟩
  · rw [number]
    exact h.older
  · rw [size] at loaded
    rw [number] at seen
    unfold Synced
    rw [size, offset, callbacks]
    exact h.synced loaded seen

theorem Tracks.incrementalLoad (h : s.Tracks)
    (guard : (∀ a ∈ answers, a = true) ∨ s.reader.prober.lastSize = 0 ∨
      s.reader.prober.lastSeqNum ≠ s.number ∨ s.reader.prober.lastSize < s.visible)
    {r : ClassAdLogReader} {result : PollResultType} (split : s.complete = before ++ left)
    (opened : r.parser.logFp = .opened) (offset : r.parser.nextOffset = (text before).length)
    (prober : r.prober =
      { s.reader.prober with curProbedSize := s.visible, curProbedSeqNum := s.number })
    (consumer : r.consumer = ⟨before.filterMap LogRecord.callback, answers, false⟩)
    (done : (r.incrementalLoad s.file (s.file.length + 1)).map
      (fun out => (PollResultType.pollSuccess, out.2.finish out.1)) = some (result, r')) :
    Tracks { s with reader := r', result := some result } ∧
      (r'.consumer.failed = false → UpToDate { s with reader := r', result := some result }) := by
  obtain ⟨cut, torn, file⟩ := h.file_eq
  have clear : ∀ q ∈ left, q.Clear := by
    intro q member
    refine h.complete_clear q ?_
    rw [split]
    exact List.mem_append_right _ member
  have parts : s.file = text before ++ (text left ++ cut) := by
    rw [file, split, text, text, text, List.flatMap_append, List.append_assoc]
  have enough : left.length < s.file.length + 1 := by
    have few := length_le_flatMap LogRecord.write_ne_nil left
    have lengths := congrArg List.length parts
    simp only [List.length_append, text] at lengths
    omega
  obtain ⟨ok, r'', loaded, loads⟩ :=
    ClassAdLogReader.incrementalLoad_loads clear torn opened offset enough
  rw [← parts] at loaded
  rw [loaded] at done
  cases done
  refine h.loaded split loads prober offset (by rw [consumer]) (by rw [consumer]) ?_
  rcases guard with all | other
  · exact .inl (loads.answered (by rwa [consumer]))
  · exact .inr other

def probed (s : Following) (answers : List Bool) : ClassAdLogReader where
  parser := { s.reader.parser with logFp := .opened }
  prober := { s.reader.prober with curProbedSize := s.visible, curProbedSeqNum := s.number }
  consumer := ⟨s.reader.consumer.callbacks, answers, false⟩

theorem Tracks.bulkLoad (h : s.Tracks)
    (guard : (∀ a ∈ answers, a = true) ∨ s.reader.prober.lastSize = 0 ∨
      s.reader.prober.lastSeqNum ≠ s.number ∨ s.reader.prober.lastSize < s.visible)
    {result : PollResultType}
    (done : ((s.probed answers).bulkLoad s.file).map
      (fun out => (PollResultType.pollSuccess, out.2.finish out.1)) = some (result, r')) :
    Tracks { s with reader := r', result := some result } ∧
      (r'.consumer.failed = false → UpToDate { s with reader := r', result := some result }) := by
  have split : s.complete = [] ++ s.complete := rfl
  unfold ClassAdLogReader.bulkLoad at done
  exact h.incrementalLoad guard split rfl rfl rfl rfl done

theorem Tracks.poll {s : Following} (h : s.Tracks) {opens : Bool}
    (meets : s.Meets (.poll opens answers)) (taken : s.step (.poll opens answers) = some t) :
    t.Tracks ∧
      (t.result = some .pollSuccess → t.reader.consumer.failed = false → t.UpToDate) := by
  obtain ⟨⟨result, r'⟩, polled, rfl⟩ := Option.map_eq_some_iff.mp taken
  cases opens with
  | false =>
    cases polled
    exact ⟨h.congr rfl rfl rfl rfl, nofun⟩
  | true =>
    obtain ⟨opened, guard⟩ := meets rfl
    obtain ⟨prober, seen, unchanged⟩ := h.probe opened
    rw [h.length_file] at guard
    simp only [ClassAdLogReader.poll, if_true] at polled
    rw [opened, prober] at polled
    change (s.probed answers).load s.file _ = _ at polled
    cases found : (s.reader.prober.probe s.file s.reader.parser.lastCALogEntry).result with
    | probeFatalError =>
      rw [found] at polled
      cases polled
      exact ⟨h.congr rfl rfl rfl rfl, nofun⟩
    | noChange =>
      obtain ⟨loaded, number⟩ := seen (.inl found)
      obtain ⟨done, rest, split, offset, callbacks, -, all⟩ := h.synced loaded number
      rw [all (unchanged found)] at split
      rw [found] at polled
      cases polled
      have idle : ClassAdLogReader.Loads [] (s.probed answers) true (s.probed answers) :=
        ⟨rfl, rfl, fun _ => rfl, [], [], rfl, fun _ => rfl, rfl, (List.append_nil _).symm⟩
      obtain ⟨tracks, upToDate⟩ := h.loaded split idle rfl offset callbacks rfl (.inl rfl)
      exact ⟨tracks, fun _ => upToDate⟩
    | addition =>
      obtain ⟨loaded, number⟩ := seen (.inr found)
      obtain ⟨done, rest, split, offset, callbacks, -, -⟩ := h.synced loaded number
      rw [found] at polled
      have consumer : (s.probed answers).consumer =
          ⟨done.filterMap LogRecord.callback, answers, false⟩ := by
        rw [← callbacks]
        rfl
      obtain ⟨tracks, upToDate⟩ := h.incrementalLoad guard (r := s.probed answers) split rfl
        offset rfl consumer polled
      exact ⟨tracks, fun _ => upToDate⟩
    | _ =>
      rw [found] at polled
      obtain ⟨tracks, upToDate⟩ := h.bulkLoad guard polled
      exact ⟨tracks, fun _ => upToDate⟩

theorem Tracks.step {s : Following} (h : s.Tracks) {a : FollowingStep} (meets : s.Meets a)
    (taken : s.step a = some t) :
    t.Tracks ∧
      (t.result = some .pollSuccess → t.reader.consumer.failed = false → t.UpToDate) := by
  cases a with
  | append r =>
    cases taken
    exact ⟨h.append meets, nofun⟩
  | flush n =>
    cases taken
    exact ⟨h.flush n, nofun⟩
  | rotate number timestamp state =>
    simp only [Following.step] at taken
    split at taken
    · next larger =>
        cases taken
        exact ⟨h.rotate timestamp larger meets.1 meets.2, nofun⟩
    · cases taken
  | poll opens answers => exact h.poll meets taken

/-- In every run of a writer and a follower whose steps meet the condition, a successful
poll without a failing callback leaves the consumer with exactly the complete records of
the file. -/
theorem follower_up_to_date {number : UInt64} (small : number.toNat < 2 ^ 63)
    (timestamp : UInt64) {as : List FollowingStep} {s : Following}
    (run : Run (Guarded (Takes step) Meets) (start number timestamp) as s)
    (success : s.result = some .pollSuccess) (passed : s.reader.consumer.failed = false) :
    s.UpToDate := by
  have kept : s.Tracks ∧
      (s.result = some .pollSuccess → s.reader.consumer.failed = false → s.UpToDate) := by
    refine run.invariant (I := fun s => s.Tracks ∧ (s.result = some .pollSuccess →
      s.reader.consumer.failed = false → s.UpToDate)) ⟨.start small timestamp, ?_⟩ ?_
    · intro wrong
      cases wrong
    · intro s a t before taken
      exact before.1.step taken.1 taken.2
  exact kept.2 success passed

/-! Runs of a writer and a follower of a log with one job. -/

instance (s : Following) : ∀ a : FollowingStep, Decidable (s.Meets a)
  | .append _ => inferInstanceAs (Decidable (LogRecord.Clear _))
  | .flush _ => .isTrue trivial
  | .rotate _ _ state =>
    @instDecidableAnd _ _ (Nat.decLt _ _) (List.decidableBAll _ state)
  | .poll opens answers =>
    have : Decidable (∀ a ∈ answers, a = true) := List.decidableBAll _ answers
    inferInstanceAs (Decidable (opens = true → _ = LogFp.opened ∧ (_ ∨ _ ∨ _ ∨ _)))

def jobRecord : LogRecord := .newClassAd (ascii "1.0") (ascii "Job") (ascii "Machine")

def valueRecord (value : String) : LogRecord :=
  .setAttribute (ascii "1.0") (ascii "A") (ascii value) false

/-- The outcome of a run: the result of its last poll, whether a callback has failed in it,
and the numbers of callbacks that the consumer has had and should have had. -/
def outcome (s : Following) : Option PollResultType × Bool × Nat × Nat :=
  (s.result, s.reader.consumer.failed, s.reader.consumer.callbacks.length,
    (s.complete.filterMap LogRecord.callback).length)

theorem not_upToDate_of_outcome {failed : Bool} {had due : Nat}
    (h : s.outcome = (result, failed, had, due)) (differ : had ≠ due) :
    ¬s.UpToDate := by
  intro same
  obtain ⟨-, h⟩ := Prod.mk.inj h
  obtain ⟨-, h⟩ := Prod.mk.inj h
  obtain ⟨rfl, rfl⟩ := Prod.mk.inj h
  exact differ (by rw [same])

def partialRun : List FollowingStep :=
  [.append jobRecord, .flush 46, .poll true [], .append (valueRecord "1"), .flush 5,
    .poll true [], .flush 20, .poll true [false], .poll true [], .append .beginTransaction,
    .rotate 2 0 [jobRecord, valueRecord "2", .destroyClassAd (ascii "1.0")], .poll true [true]]

theorem partialRun_outcome :
    (execute (guardedStep step Meets) (start 1 0) partialRun).map outcome =
      some (some .pollSuccess, false, 3, 3) := by
  decide +kernel

theorem follower_up_to_date_partial :
    ∃ s, Run (Guarded (Takes step) Meets) (start 1 0) partialRun s ∧ s.UpToDate := by
  obtain ⟨s, executed, outcome⟩ := Option.map_eq_some_iff.mp partialRun_outcome
  have run := Run.of_execute_guarded executed
  obtain ⟨success, outcome⟩ := Prod.mk.inj outcome
  obtain ⟨passed, -⟩ := Prod.mk.inj outcome
  exact ⟨s, run, follower_up_to_date (by decide) 0 run success passed⟩

def blankRun : List FollowingStep :=
  [.append jobRecord, .append (valueRecord " "), .append (.destroyClassAd (ascii "1.0")),
    .flush 100, .poll true []]

/-- The record of a value becomes complete between two polls. The next poll takes it for a
change and reads all again; a callback fails; and the poll after it sees no change. -/
def reloadRun : List FollowingStep :=
  [.append jobRecord, .append (valueRecord "1"), .flush 50, .poll true [], .flush 100,
    .poll true [], .poll true [false], .poll true []]

theorem blankRun_outcome :
    (execute step (start 1 0) blankRun).map outcome = some (some .pollSuccess, false, 1, 3) := by
  decide +kernel

theorem reloadRun_outcome :
    (execute step (start 1 0) reloadRun).map outcome = some (some .pollSuccess, false, 1, 2) := by
  decide +kernel

/-- Two runs at whose end a successful poll has missed records. -/
theorem follower_misses_records :
    (∃ s, Run (Takes step) (start 1 0) blankRun s ∧ s.result = some .pollSuccess ∧
      s.reader.consumer.failed = false ∧ ¬s.UpToDate) ∧
    ∃ s, Run (Takes step) (start 1 0) reloadRun s ∧ s.result = some .pollSuccess ∧
      s.reader.consumer.failed = false ∧ ¬s.UpToDate := by
  obtain ⟨s, executed, outcome⟩ := Option.map_eq_some_iff.mp blankRun_outcome
  obtain ⟨s', executed', outcome'⟩ := Option.map_eq_some_iff.mp reloadRun_outcome
  have missed := not_upToDate_of_outcome outcome (by decide)
  have missed' := not_upToDate_of_outcome outcome' (by decide)
  obtain ⟨success, outcome⟩ := Prod.mk.inj outcome
  obtain ⟨success', outcome'⟩ := Prod.mk.inj outcome'
  exact ⟨⟨s, .of_execute executed, success, (Prod.mk.inj outcome).1, missed⟩,
    ⟨s', .of_execute executed', success', (Prod.mk.inj outcome').1, missed'⟩⟩

end Following

end Condor.TransactionLog
