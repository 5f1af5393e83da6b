import Condor.TransactionLog.ClassAdLog

/-! The operations of a log commit entries: single records and whole transactions. A crash leaves
some first part of the bytes. Reading it back gives the table of its whole entries, unless the
constructor has to rotate the log and an attribute cannot be written. -/
namespace Condor.TransactionLog
open Condor.Lib Condor.Utils Condor.ClassAd

inductive Entry where
  | record (r : LogRecord)
  | transaction (rs : List LogRecord)

namespace Entry

def played : Entry → List LogRecord
  | .record r => [r]
  | .transaction rs => rs

def records : Entry → List LogRecord
  | .record r => [r]
  | .transaction rs => .beginTransaction :: (rs ++ [.endTransaction])

def bytes (e : Entry) : Bytes := e.records.flatMap fun r => r.write.1

end Entry

structure Journal where
  entries : List Entry
  pending : Option (List LogRecord)

namespace Journal

def commit (j : Journal) : Journal :=
  match j.pending with
  | none => j
  | some [] => { j with pending := none }
  | some (r :: rs) => ⟨j.entries ++ [.transaction (r :: rs)], none⟩

def perform (j : Journal) : Operation → Journal
  | .appendLog r =>
    match j.pending with
    | none => { j with entries := j.entries ++ [.record r] }
    | some rs => { j with pending := some (rs ++ [r]) }
  | .beginTransaction => { j with pending := some [] }
  | .abortTransaction => { j with pending := none }
  | .commitTransaction => j.commit
  | .commitNondurableTransaction => j.commit

end Journal

def journal (ops : List Operation) : List Entry := (ops.foldl Journal.perform ⟨[], none⟩).entries

def playEntries (lib : Library) (entries : List Entry) : ClassAdHashTable :=
  (entries.flatMap Entry.played).foldl (LogRecord.play lib) .empty

def playStored (lib : Library) (entries : List Entry) : ClassAdHashTable :=
  ((entries.flatMap Entry.played).map LogRecord.stored).foldl (LogRecord.play lib) .empty

def firstRecord (time : UInt64) : LogRecord := .historicalSequenceNumber 1 time

def fileRecords (time : UInt64) (entries : List Entry) : List LogRecord :=
  firstRecord time :: entries.flatMap Entry.records

/-- The entries whose last byte is among the first `n` of the file. -/
def completed (time : UInt64) (n : Nat) (entries : List Entry) : List Entry :=
  wholeRecords Entry.bytes (n - (firstRecord time).write.1.length) entries

/-- The constructor accepts the file, and its table is that of the entries: the same
ads, and the dirty marks of records that the file does not mark. -/
def Recovers (lib : Library) (os : SystemCalls) (maxHistoricalLogs : Nat) (time : UInt64)
    (tmp file : Bytes) (entries : List Entry) : Prop :=
  ∃ log, ClassAdLog.construct lib os maxHistoricalLogs time tmp file = .ok log ∧
    log.table = playStored lib entries ∧ contents log.table = contents (playEntries lib entries)

/-- The first `n` bytes of the file end with a record and begin no transaction. -/
def EndsCleanly (time : UInt64) (n : Nat) (entries : List Entry) : Prop :=
  tornPart (fun r => r.write.1) n (fileRecords time entries) = [] ∧
    .beginTransaction ∉ wholeRecords (fun r => r.write.1) n (fileRecords time entries)

/-- `WriteBody` accepts every attribute that `LogState` writes for the table. -/
def Loggable (lib : Library) (table : HashTable Bytes Attrs) : Prop :=
  ∀ b ∈ table.buckets, ∀ a ∈ b.value,
    (LogRecord.logSetAttribute b.index a.1 (lib.exprTreeToString a.2) false).write.2 = true

instance (lib : Library) (table : HashTable Bytes Attrs) : Decidable (Loggable lib table) := by
  delta Loggable
  infer_instance

def LogRecord.isClient : LogRecord → Bool
  | .beginTransaction => false
  | .endTransaction => false
  | .historicalSequenceNumber .. => false
  | _ => true

def LogRecord.Edit (r : LogRecord) : Prop := r.Legible ∧ r.isClient = true

instance (r : LogRecord) : Decidable r.Edit := inferInstanceAs (Decidable (_ ∧ _))

def Operation.Legible : Operation → Prop
  | .appendLog r => r.Edit
  | _ => True

instance (op : Operation) : Decidable op.Legible := by
  unfold Operation.Legible
  split <;> infer_instance

theorem Entry.bytes_ne_nil (e : Entry) : e.bytes ≠ [] := by
  cases e with
  | record r => simpa [bytes, records] using r.write_ne_nil
  | transaction rs =>
    have first := LogRecord.write_ne_nil .beginTransaction
    simp [bytes, records, first]

/-! ## The log implements the journal -/

def openTransaction (rs : List LogRecord) : List LogRecord :=
  if rs = [] then [] else .beginTransaction :: rs

structure Implements (lib : Library) (time : UInt64) (log : ClassAdLog) (j : Journal) : Prop where
  file : log.file = (fileRecords time j.entries).flatMap fun r => r.write.1
  table : log.table = playEntries lib j.entries
  transaction : log.activeTransaction = j.pending.map openTransaction
  entries : ∀ e ∈ j.entries, ∀ r ∈ e.played, r.Edit
  pending : ∀ rs, j.pending = some rs → ∀ r ∈ rs, r.Edit

theorem sameAds_playStored (lib : Library) (entries : List Entry) :
    SameAds (playStored lib entries) (playEntries lib entries) :=
  SameAds.empty.playAll lib (entries.flatMap Entry.played)

theorem playEntries_append (lib : Library) (entries : List Entry) (e : Entry) :
    playEntries lib (entries ++ [e]) =
      e.played.foldl (LogRecord.play lib) (playEntries lib entries) := by
  simp [playEntries]

theorem fileRecords_append (time : UInt64) (entries : List Entry) (e : Entry) :
    (fileRecords time (entries ++ [e])).flatMap (fun r => r.write.1) =
      (fileRecords time entries).flatMap (fun r => r.write.1) ++ e.bytes := by
  simp [fileRecords, Entry.bytes]

variable {lib : Library} {log log' : ClassAdLog}
variable {time : UInt64} {j : Journal} {e : Entry} {ops : List LogRecord} {log : ClassAdLog}

theorem Implements.add (h : Implements lib time log j) (file : log'.file = log.file ++ e.bytes)
    (table : log'.table = e.played.foldl (LogRecord.play lib) log.table)
    (done : log'.activeTransaction = none) (edits : ∀ r ∈ e.played, r.Edit) :
    Implements lib time log' ⟨j.entries ++ [e], none⟩ where
  file := by rw [file, h.file, fileRecords_append]
  table := by rw [table, h.table, playEntries_append]
  transaction := done
  entries := by
    intro e' member
    rcases List.mem_append.mp member with old | new
    · exact h.entries e' old
    · rw [List.mem_singleton.mp new]
      exact edits
  pending := by
    intro rs none
    cases none

theorem writeWithStatus_legible (legible : ∀ r ∈ ops, r.Legible) (file : Bytes) :
    ops.foldl writeWithStatus (file, true) = (file ++ ops.flatMap fun r => r.write.1, true) := by
  induction ops generalizing file with
  | nil => simp
  | cons r ops ih =>
    have first := LogRecord.write_legible (legible r List.mem_cons_self)
    rw [List.foldl_cons, writeWithStatus, if_pos rfl, first,
      ih fun r hr => legible r (List.mem_cons_of_mem _ hr), List.flatMap_cons, List.append_assoc]

variable {ε α : Type*} {result : Except ε α} {part : List LogRecord}

theorem ok_of_toOption {a : α} (h : result.toOption = some a) :
    result = .ok a := by
  cases result with
  | error e => cases h
  | ok b =>
    cases h
    rfl

theorem ok_of_map {β : Type*} {f : α → β} {b : β} (h : result.map f = .ok b) :
    ∃ a, result = .ok a ∧ f a = b := by
  cases result with
  | error e => cases h
  | ok a =>
    cases h
    exact ⟨a, rfl, rfl⟩

theorem Implements.congr (h : Implements lib time log j) (file : log'.file = log.file)
    (table : log'.table = log.table) (transaction : log'.activeTransaction = log.activeTransaction)
    : Implements lib time log' j :=
  ⟨file.trans h.file, table.trans h.table, transaction.trans h.transaction, h.entries, h.pending⟩

theorem Implements.close (h : Implements lib time log j) :
    Implements lib time { log with activeTransaction := none } { j with pending := none } :=
  ⟨h.file, h.table, rfl, h.entries, fun _ none => by cases none⟩

theorem commitTransaction_implements (h : Implements lib time log j)
    (done : log.commitTransaction lib = .ok log') :
    Implements lib time log' j.commit := by
  have active := h.transaction
  cases here : j.pending with
  | none =>
    rw [here, Option.map_none] at active
    simp only [ClassAdLog.commitTransaction, active, Except.ok.injEq] at done
    simp only [Journal.commit, here]
    rw [← done]
    exact h
  | some rs =>
    rw [here, Option.map_some] at active
    cases rs with
    | nil =>
      simp only [ClassAdLog.commitTransaction, active, openTransaction, if_true,
        Except.ok.injEq] at done
      simp only [Journal.commit, here]
      rw [← done]
      exact h.close
    | cons r rs =>
      have edits : ∀ q ∈ (Entry.transaction (r :: rs)).played, q.Edit := h.pending _ here
      have legible : ∀ q ∈ (Entry.transaction (r :: rs)).records, q.Legible := by
        intro q member
        rcases List.mem_cons.mp member with rfl | later
        · trivial
        · rcases List.mem_append.mp later with inner | last
          · exact (edits q inner).1
          · rw [List.mem_singleton.mp last]
            trivial
      have written := writeWithStatus_legible legible log.file
      simp only [Entry.records, List.cons_append] at written
      simp only [ClassAdLog.commitTransaction, active, openTransaction, reduceCtorEq, if_false,
        ClassAdLog.commit, List.cons_append, written, false_and, Except.map,
        Except.ok.injEq] at done
      simp only [Journal.commit, here]
      rw [← done]
      refine h.add (e := .transaction (r :: rs)) ?_ ?_ rfl edits
      · simp [Entry.bytes, Entry.records]
      · simp [Entry.played, LogRecord.play]

theorem ClassAdLog.step_implements (h : Implements lib time log j) {op : Operation}
    (legible : op.Legible) (taken : log.step lib op = some log') :
    Implements lib time log' (j.perform op) := by
  have active := h.transaction
  cases op with
  | appendLog r =>
    have edit : r.Edit := legible
    simp only [ClassAdLog.step, ClassAdLog.appendLog] at taken
    cases here : j.pending with
    | none =>
      rw [here, Option.map_none] at active
      simp only [active, LogRecord.write_legible edit.1, if_true, Except.toOption,
        Option.some.injEq] at taken
      have added : Implements lib time log' ⟨j.entries ++ [.record r], none⟩ := by
        rw [← taken]
        refine h.add (e := .record r) ?_ rfl rfl ?_
        · simp [Entry.bytes, Entry.records]
        · intro q member
          rw [List.mem_singleton.mp member]
          exact edit
      simpa only [Journal.perform, here] using added
    | some rs =>
      rw [here, Option.map_some] at active
      simp only [active, Except.toOption, Option.some.injEq] at taken
      simp only [Journal.perform, here]
      rw [← taken]
      refine ⟨h.file, h.table, ?_, h.entries, ?_⟩
      · simp only [Option.map_some, openTransaction]
        cases rs <;> simp
      · intro rs' same q member
        cases same
        rcases List.mem_append.mp member with old | new
        · exact h.pending rs here q old
        · rw [List.mem_singleton.mp new]
          exact edit
  | beginTransaction =>
    simp only [ClassAdLog.step, ClassAdLog.beginTransaction] at taken
    split at taken
    · cases taken
    · simp only [Except.toOption, Option.some.injEq] at taken
      rw [← taken]
      refine ⟨h.file, h.table, rfl, h.entries, ?_⟩
      intro rs same q member
      cases same
      cases member
  | abortTransaction =>
    simp only [ClassAdLog.step, ClassAdLog.abortTransaction, Option.some.injEq] at taken
    rw [← taken]
    exact h.close
  | commitTransaction => exact commitTransaction_implements h (ok_of_toOption taken)
  | commitNondurableTransaction =>
    have done := ok_of_toOption taken
    unfold ClassAdLog.commitNondurableTransaction at done
    obtain ⟨committed, inner, rfl⟩ := ok_of_map done
    have raised : Implements lib time { log with nondurableLevel := log.nondurableLevel + 1 } j :=
      h.congr rfl rfl rfl
    exact (commitTransaction_implements raised inner).congr rfl rfl rfl

/-! ## Reading a cut file -/

namespace ClassAdLog

theorem edit_isClean (lib : Library) (st : Loading) (r : LogRecord) :
    (st.edit lib r).isClean = st.isClean := by
  unfold Loading.edit
  split <;> rfl

theorem load_isClean (lib : Library) (st : Loading) (r : LogRecord) :
    (st.load lib r).isClean = (st.isClean && decide (r ≠ .beginTransaction)) := by
  cases r with
  | endTransaction =>
    simp only [Loading.load]
    split <;> simp
  | _ => simp [Loading.load, edit_isClean]

theorem foldl_load_isClean (lib : Library) (rs : List LogRecord) (st : Loading) :
    (rs.foldl (Loading.load lib) st).isClean =
      (st.isClean && decide (.beginTransaction ∉ rs)) := by
  induction rs generalizing st with
  | nil => simp
  | cons r rs ih =>
    rw [List.foldl_cons, ih, load_isClean]
    by_cases here : r = .beginTransaction
    · simp [here]
    · have other : LogRecord.beginTransaction ≠ r := fun same => here same.symm
      simp [here, other]

variable {r : LogRecord} {st : Loading}

theorem load_edit (lib : Library) (st : Loading) (edit : r.Edit) :
    st.load lib r.stored = ({ st with count := st.count + 1 } : Loading).edit lib r.stored := by
  have client := edit.2
  cases r with
  | beginTransaction => cases client
  | endTransaction => cases client
  | historicalSequenceNumber number timestamp => cases client
  | _ => rfl

theorem load_inside (lib : Library) (edit : r.Edit) (inside : st.log.activeTransaction = some ops) :
    (st.load lib r.stored).log =
      { st.log with activeTransaction := some (ops ++ [r.stored]) } := by
  simp only [load_edit lib st edit, Loading.edit, inside]

theorem load_outside (lib : Library) (edit : r.Edit) (outside : st.log.activeTransaction = none) :
    (st.load lib r.stored).log = { st.log with table := r.stored.play lib st.log.table } := by
  simp only [load_edit lib st edit, Loading.edit, outside]

theorem load_begin (lib : Library) (outside : st.log.activeTransaction = none) :
    (st.load lib .beginTransaction).log = { st.log with activeTransaction := some [] } := by
  simp only [Loading.load, outside, Option.getD_none]

theorem load_end (lib : Library) (inside : st.log.activeTransaction = some ops) :
    (st.load lib .endTransaction).log =
      { st.log with
        table := ops.foldl (LogRecord.play lib) st.log.table
        activeTransaction := none } := by
  simp only [Loading.load, inside]

/-- Inside a transaction records are only collected. -/
theorem foldl_load_inside (lib : Library) {rs : List LogRecord} (edits : ∀ r ∈ rs, r.Edit)
    (st : Loading) (inside : st.log.activeTransaction = some ops) :
    ((rs.map LogRecord.stored).foldl (Loading.load lib) st).log =
      { st.log with activeTransaction := some (ops ++ rs.map LogRecord.stored) } := by
  induction rs generalizing st ops with
  | nil =>
    rw [List.map_nil, List.foldl_nil, List.append_nil, ← inside]
  | cons r rs ih =>
    have first := load_inside lib (edits r List.mem_cons_self) inside
    have collected : (st.load lib r.stored).log.activeTransaction = some (ops ++ [r.stored]) := by
      rw [first]
    rw [List.map_cons, List.foldl_cons,
      ih (fun r hr => edits r (List.mem_cons_of_mem _ hr)) _ collected, first, List.append_assoc]
    rfl

theorem foldl_load_entry (lib : Library) (edits : ∀ r ∈ e.played, r.Edit) (st : Loading)
    (outside : st.log.activeTransaction = none) :
    ((e.records.map LogRecord.stored).foldl (Loading.load lib) st).log =
      { st.log with
        table := (e.played.map LogRecord.stored).foldl (LogRecord.play lib) st.log.table } := by
  cases e with
  | record r => exact load_outside lib (edits r List.mem_cons_self) outside
  | transaction rs =>
    have opened := load_begin lib outside
    have collected := foldl_load_inside lib (show ∀ r ∈ rs, r.Edit from edits)
      (st.load lib .beginTransaction) (by rw [opened])
    have closed := load_end lib (by rw [collected])
    simp only [Entry.records, List.map_cons, List.map_append, List.map_nil, List.foldl_cons,
      List.foldl_append, List.foldl_nil, LogRecord.stored, Entry.played]
    rw [closed, collected, opened, List.nil_append, ← outside]

theorem foldl_load_entries (lib : Library) {entries : List Entry}
    (edits : ∀ e ∈ entries, ∀ r ∈ e.played, r.Edit) (st : Loading)
    (outside : st.log.activeTransaction = none) :
    (((entries.flatMap Entry.records).map LogRecord.stored).foldl (Loading.load lib) st).log =
      { st.log with
        table := ((entries.flatMap Entry.played).map LogRecord.stored).foldl (LogRecord.play lib)
          st.log.table } := by
  induction entries generalizing st with
  | nil => rfl
  | cons e entries ih =>
    have first := foldl_load_entry lib (edits e List.mem_cons_self) st outside
    have between : ((e.records.map LogRecord.stored).foldl (Loading.load lib)
        st).log.activeTransaction = none := by
      rw [first]
      exact outside
    rw [List.flatMap_cons, List.map_append, List.foldl_append,
      ih (fun e he => edits e (List.mem_cons_of_mem _ he)) _ between, first, List.flatMap_cons,
      List.map_append, List.foldl_append]

end ClassAdLog

/-- The records of a transaction that was cut off before its end, or none. -/
def Unfinished (part : List LogRecord) : Prop :=
  part = [] ∨ ∃ rs, part = .beginTransaction :: rs ∧ ∀ r ∈ rs, r.Edit

theorem Entry.unfinished (edits : ∀ r ∈ e.played, r.Edit) (inside : part <+: e.records)
    (proper : part ≠ e.records) : Unfinished part := by
  cases e with
  | record r =>
    rcases List.prefix_cons_iff.mp inside with none | ⟨rest, rfl, empty⟩
    · exact .inl none
    · exact absurd (by rw [ List.prefix_nil.mp empty, records]) proper
  | transaction rs =>
    rcases List.prefix_cons_iff.mp inside with none | ⟨rest, rfl, later⟩
    · exact .inl none
    · refine .inr ⟨rest, rfl, fun r member => edits r ?_⟩
      rcases List.prefix_concat_iff.mp later with all | early
      · exact absurd (by rw [all, records]) proper
      · exact early.subset member

variable {entries : List Entry}

/-- The whole records of a cut file are those of the completed entries and the
beginning of at most one transaction. -/
theorem wholeRecords_entries (edits : ∀ e ∈ entries, ∀ r ∈ e.played, r.Edit) (n : Nat) :
    ∃ part, wholeRecords (fun r => r.write.1) n (entries.flatMap Entry.records) =
        (wholeRecords Entry.bytes n entries).flatMap Entry.records ++ part ∧ Unfinished part := by
  induction entries generalizing n with
  | nil => exact ⟨[], rfl, .inl rfl⟩
  | cons e entries ih =>
    by_cases fits : e.bytes.length ≤ n
    · obtain ⟨part, same, unfinished⟩ :=
        ih (fun e he => edits e (List.mem_cons_of_mem _ he)) (n - e.bytes.length)
      refine ⟨part, ?_, unfinished⟩
      rw [List.flatMap_cons, wholeRecords_append_of_le fits, wholeRecords, if_pos fits]
      change e.records ++ wholeRecords _ (n - e.bytes.length) _ = _
      rw [same, List.flatMap_cons, List.append_assoc]
    · have short : n < (e.records.flatMap fun r => r.write.1).length := Nat.lt_of_not_le fits
      obtain ⟨inside, proper⟩ := wholeRecords_append_of_lt short (entries.flatMap Entry.records)
      refine ⟨_, ?_, Entry.unfinished (edits e List.mem_cons_self) inside proper⟩
      rw [List.flatMap_cons, wholeRecords, if_neg fits]
      rfl

theorem Unfinished.load (lib : Library) (h : Unfinished part) {st : ClassAdLog.Loading}
    (outside : st.log.activeTransaction = none) :
    ((part.map LogRecord.stored).foldl (ClassAdLog.Loading.load lib) st).log.table = st.log.table ∧
      (((part.map LogRecord.stored).foldl (ClassAdLog.Loading.load lib) st).log.activeTransaction ≠
        none → .beginTransaction ∈ part) := by
  rcases h with rfl | ⟨rs, rfl, edits⟩
  · exact ⟨rfl, fun inside => absurd outside inside⟩
  · have opened := ClassAdLog.load_begin lib outside
    have collected := ClassAdLog.foldl_load_inside lib edits (st.load lib .beginTransaction)
      (by rw [opened])
    refine ⟨?_, fun _ => List.mem_cons_self⟩
    rw [List.map_cons, List.foldl_cons, LogRecord.stored, collected, opened]
    simp

theorem load_cut (lib : Library)
    (edits : ∀ e ∈ entries, ∀ r ∈ e.played, r.Edit) (time : UInt64) (n : Nat)
    {st₀ st : ClassAdLog.Loading} (table : st₀.log.table = .empty)
    (outside : st₀.log.activeTransaction = none)
    (loaded : ((wholeRecords (fun r => r.write.1) n (fileRecords time entries)).map
      LogRecord.stored).foldl (ClassAdLog.Loading.load lib) st₀ = st) :
    st.log.table = playStored lib (completed time n entries) ∧
      (st.log.activeTransaction ≠ none →
        .beginTransaction ∈ wholeRecords (fun r => r.write.1) n (fileRecords time entries)) := by
  unfold completed
  rw [fileRecords, wholeRecords] at loaded ⊢
  split at loaded
  · next fits =>
      rw [if_pos fits]
      obtain ⟨part, same, unfinished⟩ :=
        wholeRecords_entries edits (n - (firstRecord time).write.1.length)
      have done : ∀ e ∈ wholeRecords Entry.bytes (n - (firstRecord time).write.1.length) entries,
          ∀ r ∈ e.played, r.Edit :=
        fun e he => edits e (( wholeRecords_prefix _ _).subset he)
      generalize wholeRecords Entry.bytes _ entries = whole at done same ⊢
      rw [same] at loaded ⊢
      rw [List.map_cons, List.foldl_cons, List.map_append, List.foldl_append] at loaded
      have played := ClassAdLog.foldl_load_entries lib done
        (st₀.load lib (firstRecord time).stored) outside
      generalize ((whole.flatMap Entry.records).map LogRecord.stored).foldl _
        (st₀.load lib (firstRecord time).stored) = st₁ at played loaded
      have outside₁ : st₁.log.activeTransaction = none := by
        rw [played]
        exact outside
      obtain ⟨kept, opened⟩ := unfinished.load lib outside₁
      rw [loaded] at kept opened
      refine ⟨?_, fun inside => List.mem_cons_of_mem _ (List.mem_append_right _ (opened inside))⟩
      have first : (st₀.load lib (firstRecord time).stored).log.table = .empty := table
      rw [kept, played, first, playStored]
  · next beyond =>
      have none : n - (firstRecord time).write.1.length = 0 := by omega
      rw [none, wholeRecords_zero Entry.bytes_ne_nil]
      rw [List.map_nil, List.foldl_nil] at loaded
      rw [← loaded, table]
      exact ⟨rfl, fun inside => absurd outside inside⟩

/-! ## The rotation -/

theorem writeAll_isSome_iff (rs : List LogRecord) :
    (writeAll rs).isSome ↔ ∀ r ∈ rs, r.write.2 = true := by
  induction rs with
  | nil => simp [writeAll]
  | cons r rs ih =>
    rw [writeAll, List.forall_mem_cons, ← ih]
    split
    · next accepted => simp [accepted]
    · next refused => simp [refused]

theorem logState_accepted_iff (lib : Library) (log : ClassAdLog) :
    (writeAll (logState lib log)).isSome ↔ Loggable lib (contents log.table) := by
  have number : ∀ m t, (LogRecord.historicalSequenceNumber m t).write.2 = true := fun _ _ => rfl
  have create : ∀ k m t, (LogRecord.newClassAd k m t).write.2 = true := fun _ _ _ => rfl
  simp only [writeAll_isSome_iff, logState, logStateAd, List.forall_mem_cons, number, true_and,
    List.mem_flatMap, Loggable, contents, HashTable.buckets_mapValues, List.forall_mem_map]
  constructor
  · intro all b hb a ha
    exact all _ ⟨b, hb, List.mem_cons_of_mem _ (List.mem_map_of_mem ha)⟩
  · rintro all r ⟨b, hb, member⟩
    rcases List.mem_cons.mp member with rfl | attr
    · exact create _ _ _
    · obtain ⟨a, ha, rfl⟩ := List.mem_map.mp attr
      exact all b hb a ha

namespace ClassAdLog

variable {os : SystemCalls}
variable {tmp : Bytes}

theorem truncLog_table {lib : Library} {log' : ClassAdLog} {cleaned : Bool}
    (h : log.truncLog lib os tmp = .ok (cleaned, log')) :
    log'.table = log.table := by
  unfold truncLog at h
  split at h
  · cases h
    rfl
  split at h
  · cases h
    rfl
  dsimp only at h
  split at h
  · cases h
  split at h
  · cases h
  split at h
  · cases h
  split at h
  · cases h
    rfl
  · cases h
    rfl

/-- When the system calls succeed, a rotation fails only on what it has to write. -/
theorem truncLog_of_succeed (lib : Library) (calls : os.Succeed) (tmp : Bytes) (log : ClassAdLog) :
    (Loggable lib (contents log.table) ∧ ∃ log', log.truncLog lib os tmp = .ok (true, log')) ∨
      (¬Loggable lib (contents log.table) ∧ ∃ e, log.truncLog lib os tmp = .error e) := by
  have accepted := logState_accepted_iff lib
    { log with historicalSequenceNumber := log.historicalSequenceNumber + 1 }
  rw [SystemCalls.Succeed] at calls
  subst calls
  simp only [truncLog, reduceCtorEq, and_false, if_false, if_true]
  cases text : writeAll (logState lib
      { log with historicalSequenceNumber := log.historicalSequenceNumber + 1 }) with
  | none =>
    rw [text] at accepted
    refine .inr ⟨fun loggable => ?_, _, rfl⟩
    cases accepted.mpr loggable
  | some bytes =>
    rw [text] at accepted
    exact .inl ⟨accepted.mp rfl, _, rfl⟩

theorem finish_eq (lib : Library) (os : SystemCalls) (tmp : Bytes) (st : Loading) (torn : Bool) :
    ∃ log : ClassAdLog, log.table = st.log.table ∧
      finish lib os tmp st torn =
        if st.isClean = false ∨ (torn || st.log.activeTransaction.isSome) = true then
          match log.truncLog lib os tmp with
          | .error e => .error e
          | .ok (cleaned, log) =>
            if cleaned = false ∧ (torn || st.log.activeTransaction.isSome) = true then
              .error "Failed to rotate ClassAd log"
            else .ok log
        else .ok log := by
  refine ⟨_, ?_, rfl⟩
  split <;> rfl

theorem finish_table {lib : Library} {st : Loading} {torn : Bool}
    (h : finish lib os tmp st torn = .ok log) : log.table = st.log.table := by
  obtain ⟨before, same, eq⟩ := finish_eq lib os tmp st torn
  rw [eq] at h
  split at h
  · split at h
    · cases h
    · next rotated =>
        split at h
        · cases h
        · cases h
          exact (truncLog_table rotated).trans same
  · cases h
    exact same

/-- When the system calls succeed, only a rotation that has to write an attribute it
cannot write stops the constructor. -/
theorem finish_ok_iff (lib : Library) (calls : os.Succeed) (tmp : Bytes) (st : Loading)
    (torn : Bool) :
    (∃ log, finish lib os tmp st torn = .ok log) ↔
      (st.isClean = true ∧ torn = false ∧ st.log.activeTransaction = none) ∨
        Loggable lib (contents st.log.table) := by
  obtain ⟨before, same, eq⟩ := finish_eq lib os tmp st torn
  have outcome := truncLog_of_succeed lib calls tmp before
  rw [same] at outcome
  have skips : ¬(st.isClean = false ∨ (torn || st.log.activeTransaction.isSome) = true) ↔
      st.isClean = true ∧ torn = false ∧ st.log.activeTransaction = none := by
    simp
  rw [eq, ← skips]
  by_cases needed : st.isClean = false ∨ (torn || st.log.activeTransaction.isSome) = true
  · rw [if_pos needed]
    rcases outcome with ⟨loggable, log', rotated⟩ | ⟨stuck, e, failed⟩
    · exact ⟨fun _ => .inr loggable, fun _ => ⟨log', by simp [rotated]⟩⟩
    · rw [failed]
      constructor
      · rintro ⟨log, impossible⟩
        cases impossible
      · rintro (skipped | loggable)
        · exact absurd needed skipped
        · exact absurd loggable stuck
  · rw [if_neg needed]
    exact ⟨fun _ => .inl needed, fun _ => ⟨before, rfl⟩⟩

end ClassAdLog

theorem fileRecords_legible (time : UInt64) (edits : ∀ e ∈ entries, ∀ r ∈ e.played, r.Edit) :
    ∀ r ∈ fileRecords time entries, r.Legible := by
  intro r member
  rcases List.mem_cons.mp member with rfl | later
  · trivial
  obtain ⟨e, he, member⟩ := List.mem_flatMap.mp later
  cases e with
  | record q =>
    rw [List.mem_singleton.mp member]
    exact (edits _ he q List.mem_cons_self).1
  | transaction rs =>
    rcases List.mem_cons.mp member with rfl | later
    · trivial
    rcases List.mem_append.mp later with inner | last
    · exact (edits _ he r inner).1
    · rw [List.mem_singleton.mp last]
      trivial

theorem beginTransaction_mem_stored {rs : List LogRecord} :
    .beginTransaction ∈ rs.map LogRecord.stored ↔ .beginTransaction ∈ rs := by
  have same : ∀ r : LogRecord, r.stored = .beginTransaction ↔ r = .beginTransaction := by
    intro r
    cases r <;> simp [LogRecord.stored]
  simp [List.mem_map, same]

theorem construct_cut (lib : Library) {os : SystemCalls} (calls : os.Succeed)
    (maxHistoricalLogs : Nat) (time time' : UInt64) (tmp : Bytes)
    (edits : ∀ e ∈ entries, ∀ r ∈ e.played, r.Edit) (n : Nat) :
    Recovers lib os maxHistoricalLogs time' tmp
        (((fileRecords time entries).flatMap fun r => r.write.1).take n)
        (completed time n entries) ↔
      EndsCleanly time n entries ∨
        Loggable lib (contents (playEntries lib (completed time n entries))) := by
  have legible := fileRecords_legible time edits
  generalize cut : ((fileRecords time entries).flatMap fun r => r.write.1).take n = file
  have few : (wholeRecords (fun r : LogRecord => r.write.1) n (fileRecords time entries)).length ≤
      (((fileRecords time entries).flatMap fun r => r.write.1).take n).length :=
    length_wholeRecords_le LogRecord.write_ne_nil n (fileRecords time entries)
  rw [cut] at few
  have read := foldRecords_take readLogEntry (ClassAdLog.Loading.load lib)
    (fileRecords time entries) rfl (fun r hr => LogRecord.readLogEntry_write (legible r hr))
    (fun r hr _ inside proper => LogRecord.readLogEntry_torn (legible r hr) inside proper)
    n (file.length + 1) (Nat.lt_succ_of_le few) ⟨.initial maxHistoricalLogs time' file, 0, true⟩
  rw [cut] at read
  generalize loaded : ((wholeRecords (fun r => r.write.1) n (fileRecords time entries)).map
    LogRecord.stored).foldl (ClassAdLog.Loading.load lib)
      ⟨.initial maxHistoricalLogs time' file, 0, true⟩ = st at read
  have clean := ClassAdLog.foldl_load_isClean lib
    ((wholeRecords (fun r => r.write.1) n (fileRecords time entries)).map LogRecord.stored)
    ⟨.initial maxHistoricalLogs time' file, 0, true⟩
  rw [loaded, Bool.true_and] at clean
  obtain ⟨table, opened⟩ := load_cut lib edits time n rfl rfl loaded
  have ads := sameAds_playStored lib (completed time n entries)
  rw [← table] at ads
  have opens : os.logOpened = true := by rw [calls]
  have ends : (st.isClean = true ∧
      decide ((tornPart (fun r => r.write.1) n (fileRecords time entries)).length ≠
        ([] : Bytes).length) = false ∧ st.log.activeTransaction = none) ↔
      EndsCleanly time n entries := by
    rw [clean, decide_eq_true_iff, beginTransaction_mem_stored]
    simp only [List.length_nil, ne_eq, List.length_eq_zero_iff, decide_eq_false_iff_not, not_not]
    constructor
    · rintro ⟨noBegin, whole, -⟩
      exact ⟨whole, noBegin⟩
    · rintro ⟨whole, noBegin⟩
      refine ⟨noBegin, whole, ?_⟩
      by_contra inside
      exact noBegin (opened inside)
  rw [← ends, ← ads.contents, ← ClassAdLog.finish_ok_iff lib calls tmp]
  unfold Recovers ClassAdLog.construct
  rw [← ads.contents, ← table]
  simp only [opens, reduceCtorEq, if_false, read]
  constructor
  · rintro ⟨log, done, -⟩
    exact ⟨log, done⟩
  · rintro ⟨log, done⟩
    have same := ClassAdLog.finish_table done
    exact ⟨log, done, same, congrArg contents same⟩

theorem construct_implements {os : SystemCalls} {maxHistoricalLogs : Nat} {tmp : Bytes}
    (fresh : ClassAdLog.construct lib os maxHistoricalLogs time tmp [] = .ok log) :
    Implements lib time log ⟨[], none⟩ := by
  unfold ClassAdLog.construct at fresh
  split at fresh
  · cases fresh
  have empty : readLogEntry [] = .ok (none, []) := rfl
  simp only [foldRecords, empty, ClassAdLog.finish, ClassAdLog.initial, if_true] at fresh
  simp only [ne_eq, not_true, decide_false, Bool.false_or, Option.isSome_none, reduceCtorEq,
    or_self, if_false, Except.ok.injEq, List.nil_append] at fresh
  rw [← fresh]
  refine ⟨?_, rfl, rfl, ?_, ?_⟩
  · simp [fileRecords, firstRecord]
  · intro e member
    cases member
  · intro rs none
    cases none

theorem run_implements {ops : List Operation} (run : Run (Takes (ClassAdLog.step lib)) log ops log')
    (legible : ∀ op ∈ ops, op.Legible) (start : Implements lib time log j) :
    Implements lib time log' (ops.foldl Journal.perform j) := by
  induction run generalizing j with
  | nil log => exact start
  | cons taken _ ih =>
    have next := ClassAdLog.step_implements start (legible _ List.mem_cons_self) taken
    exact ih (fun op hop => legible op (List.mem_cons_of_mem _ hop)) next

/-- A crash may cut the file of a log anywhere. The constructor rebuilds the table of
exactly the entries that are whole in what is left if and only if it need not rotate
the log, or can. -/
theorem recovery_exact_iff (lib : Library) {os os₀ : SystemCalls} (calls : os.Succeed)
    {maxHistoricalLogs : Nat} {time : UInt64} {tmp₀ : Bytes} {log₀ log : ClassAdLog}
    {ops : List Operation}
    (fresh : ClassAdLog.construct lib os₀ maxHistoricalLogs time tmp₀ [] = .ok log₀)
    (run : Run (Takes (ClassAdLog.step lib)) log₀ ops log) (legible : ∀ op ∈ ops, op.Legible)
    (n maxHistoricalLogs' : Nat) (time' : UInt64) (tmp : Bytes) :
    Recovers lib os maxHistoricalLogs' time' tmp (log.file.take n)
        (completed time n (journal ops)) ↔
      EndsCleanly time n (journal ops) ∨
        Loggable lib (contents (playEntries lib (completed time n (journal ops)))) := by
  have written := run_implements run legible (construct_implements fresh)
  rw [written.file]
  exact construct_cut lib calls maxHistoricalLogs' time time' tmp written.entries n

/-! Runs of a job queue: attributes of one job, set in transactions. -/

def sampleLibrary : Library where
  parseExpression text :=
    if text = ascii "time()" then some (.fnCall (ascii "time") [])
    else if text = ascii "1" then some (.literal (.integer 1) .none)
    else if text = ascii "[ a = 1 ]" then
      some (.classAd [(ascii "a", .literal (.integer 1) .none)])
    else none
  evaluateAttrString attrs name :=
    match attrs.find? fun a => sameIgnoringCase a.1 name with
    | some (_, .literal (.string s) _) => some s
    | _ => none
  formats := ⟨fun r => unparseInteger r.floor ++ ascii ".000000", fun _ _ => [], fun _ => []⟩
  strictEvaluation := false

def noFailure : SystemCalls := ⟨true, true, true, true, true, true⟩

def newJob : List Operation :=
  [.beginTransaction, .appendLog (.newClassAd (ascii "1.0") (ascii "Job") (ascii "Machine")),
    .commitTransaction]

def setJob (value : String) : List Operation :=
  [.beginTransaction, .appendLog (.setAttribute (ascii "1.0") (ascii "A") (ascii value) false),
    .commitTransaction]

def logAfter (ops : List Operation) : Option ClassAdLog :=
  (ClassAdLog.construct sampleLibrary noFailure 0 0 [] []).toOption.bind fun log =>
    execute (ClassAdLog.step sampleLibrary) log ops

theorem run_of_logAfter {ops : List Operation} (h : logAfter ops = some log) :
    ∃ log₀, ClassAdLog.construct sampleLibrary noFailure 0 0 [] [] = .ok log₀ ∧
      Run (Takes (ClassAdLog.step sampleLibrary)) log₀ ops log := by
  obtain ⟨log₀, made, rest⟩ := Option.bind_eq_some_iff.mp h
  exact ⟨log₀, ok_of_toOption made, .of_execute rest⟩

theorem setNested_rejected :
    (logAfter (newJob ++ setJob "[ a = 1 ]")).map (fun log =>
      (ClassAdLog.construct sampleLibrary noFailure 0 0 [] log.file).toOption.isSome) =
        some false := by
  decide +kernel

/-- An attribute that is a nested ad, set in a transaction, stops the next constructor. -/
theorem nested_ad_stops_recovery :
    ∃ log₀ log, ClassAdLog.construct sampleLibrary noFailure 0 0 [] [] = .ok log₀ ∧
      Run (Takes (ClassAdLog.step sampleLibrary)) log₀ (newJob ++ setJob "[ a = 1 ]") log ∧
      (∀ op ∈ newJob ++ setJob "[ a = 1 ]", op.Legible) ∧
      ¬Recovers sampleLibrary noFailure 0 0 [] (log.file.take log.file.length)
        (completed 0 log.file.length (journal (newJob ++ setJob "[ a = 1 ]"))) := by
  obtain ⟨log, after, rejected⟩ := Option.map_eq_some_iff.mp setNested_rejected
  obtain ⟨log₀, fresh, run⟩ := run_of_logAfter after
  refine ⟨log₀, log, fresh, run, by decide +kernel, ?_⟩
  rintro ⟨log', accepted, -⟩
  rw [List.take_length] at accepted
  rw [accepted] at rejected
  cases rejected

theorem setTwice_length :
    (logAfter (newJob ++ setJob "1" ++ setJob "1")).map (fun log => log.file.length) =
      some 100 := by
  decide +kernel

/-- A crash in the middle of a record leaves the transactions before it. -/
theorem recovery_exact_iff_torn :
    ∃ log₀ log, ClassAdLog.construct sampleLibrary noFailure 0 0 [] [] = .ok log₀ ∧
      Run (Takes (ClassAdLog.step sampleLibrary)) log₀ (newJob ++ setJob "1" ++ setJob "1") log ∧
      log.file.length = 100 ∧
      Recovers sampleLibrary noFailure 0 0 [] (log.file.take 90)
        (completed 0 90 (journal (newJob ++ setJob "1" ++ setJob "1"))) := by
  obtain ⟨log, after, length⟩ := Option.map_eq_some_iff.mp setTwice_length
  obtain ⟨log₀, fresh, run⟩ := run_of_logAfter after
  refine ⟨log₀, log, fresh, run, length, ?_⟩
  exact (recovery_exact_iff sampleLibrary rfl fresh run (by decide +kernel) 90 0 0 []).mpr
    (.inr (by decide +kernel))

end Condor.TransactionLog
