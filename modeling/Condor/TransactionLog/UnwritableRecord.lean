import Condor.TransactionLog.Recovery

/-! `LogSetAttribute::WriteBody` refuses an attribute with a newline, after the header of its record
is in the file. A nondurable commit plays the whole transaction and leaves an open record, which the
next transaction runs into. -/
namespace Condor.TransactionLog
open Condor.Lib Condor.Utils Condor.ClassAd

namespace ClassAdLog

/-- The constructor's loop over a whole file. Its arguments do not reach the table. -/
def replay (lib : Library) (file : Bytes) : Except String (Loading × Bytes × Bytes) :=
  foldRecords readLogEntry (Loading.load lib) (file.length + 1) ⟨initial 0 0 [], 0, true⟩ file

/-- The table in memory holds the ads of the table that the whole file builds. -/
def Agrees (lib : Library) (log : ClassAdLog) : Prop :=
  ∃ st ends, replay lib log.file = .ok (st, ends) ∧ contents st.log.table = contents log.table

/-- The file is read to its end, outside a transaction, and builds the table in memory. -/
def Committed (lib : Library) (log : ClassAdLog) : Prop :=
  ∃ st, replay lib log.file = .ok (st, [], []) ∧ st.log.activeTransaction = none ∧
    SameAds st.log.table log.table

/-- The records are written as the format holds them, or a failure to write one is reported. -/
def Recorded (reports : Prop) (rs : List LogRecord) : Prop :=
  (∀ r ∈ rs, r.Legible) ∨ reports ∧ ∃ r ∈ rs, r.write.2 = false

def Sound (log : ClassAdLog) : Operation → Prop
  | .appendLog r => r.isClient = true ∧ (log.activeTransaction = none → Recorded True [r])
  | .commitTransaction =>
    Recorded (log.nondurableLevel ≤ 0) (log.activeTransaction.getD [])
  | .commitNondurableTransaction =>
    Recorded (log.nondurableLevel + 1 ≤ 0) (log.activeTransaction.getD [])
  | _ => True

instance (reports : Prop) [Decidable reports] (rs : List LogRecord) :
    Decidable (Recorded reports rs) :=
  inferInstanceAs (Decidable (_ ∨ _ ∧ _))

instance (log : ClassAdLog) : ∀ op : Operation, Decidable (log.Sound op)
  | .appendLog _ =>
    have : Decidable (log.activeTransaction = none) :=
      decidable_of_iff _ Option.isNone_iff_eq_none
    inferInstanceAs (Decidable (_ ∧ (_ → _)))
  | .commitTransaction | .commitNondurableTransaction => inferInstanceAs (Decidable (Recorded _ _))
  | .beginTransaction | .abortTransaction => .isTrue trivial

/-- The equality of table and file, now and after all later operations. -/
def Lasts (lib : Library) (log : ClassAdLog) : Prop :=
  ∀ ops log', Run (Guarded (Takes (step lib)) Sound) log ops log' → Agrees lib log'

theorem Committed.agrees {lib : Library} {log : ClassAdLog} (h : Committed lib log) :
    Agrees lib log := by
  obtain ⟨st, read, -, ads⟩ := h
  exact ⟨st, _, read, ads.contents⟩

end ClassAdLog

/-! ## Reading on behind what was read -/

variable {bs word rest : Bytes} {c : UInt8}
variable {stop : UInt8 → Bool}

theorem scanUntil_append (found : scanUntil stop bs = (word, some c, rest)) (more : Bytes) :
    scanUntil stop (bs ++ more) = (word, some c, rest ++ more) := by
  induction bs generalizing word with
  | nil => cases found
  | cons b bs ih =>
    rw [List.cons_append, scanUntil]
    rw [scanUntil] at found
    split at found
    · next stops =>
        cases found
        rw [if_pos stops]
    · next goesOn =>
        rw [if_neg goesOn]
        cases scanned : scanUntil stop bs with
        | mk inner left =>
          obtain ⟨last, left⟩ := left
          rw [scanned] at found
          simp only [Prod.mk.injEq] at found
          obtain ⟨rfl, rfl, rfl⟩ := found
          rw [ih scanned]

theorem scanUntil_length {last : Option UInt8} (found : scanUntil stop bs = (word, last, rest)) :
    rest.length ≤ bs.length := by
  induction bs generalizing word last with
  | nil =>
    cases found
    exact Nat.le_refl 0
  | cons b bs ih =>
    rw [scanUntil] at found
    split at found
    · cases found
      exact Nat.le_succ _
    · cases scanned : scanUntil stop bs with
      | mk inner left =>
        obtain ⟨other, left⟩ := left
        rw [scanned] at found
        simp only [Prod.mk.injEq] at found
        obtain ⟨-, -, rfl⟩ := found
        exact Nat.le_succ_of_le (ih scanned)

theorem skipBlanks_append (found : skipBlanks bs = (some c, rest)) (more : Bytes) :
    skipBlanks (bs ++ more) = (some c, rest ++ more) := by
  induction bs with
  | nil => cases found
  | cons b bs ih =>
    rw [List.cons_append, skipBlanks]
    rw [skipBlanks] at found
    split at found
    · next space =>
        rw [if_pos space]
        exact ih found
    · next solid =>
        cases found
        rw [if_neg solid]

theorem skipBlanks_length (found : skipBlanks bs = (some c, rest)) : rest.length < bs.length := by
  induction bs with
  | nil => cases found
  | cons b bs ih =>
    rw [skipBlanks] at found
    split at found
    · exact Nat.lt_succ_of_lt (ih found)
    · cases found
      exact Nat.lt_succ_self _

theorem readword_append (found : readword bs = (some word, rest)) :
    rest.length < bs.length ∧ ∀ more, readword (bs ++ more) = (some word, rest ++ more) := by
  unfold readword at found ⊢
  cases skipped : skipBlanks bs with
  | mk first left =>
    rw [skipped] at found
    cases first with
    | none => cases found
    | some c =>
      dsimp only at found
      split at found
      · cases found
      · next solid =>
          cases scanned : scanUntil endsWord left with
          | mk inner after =>
            obtain ⟨last, after⟩ := after
            rw [scanned] at found
            cases last with
            | none => cases found
            | some last =>
              dsimp only at found
              split at found
              · cases found
              · next ends =>
                  cases found
                  have shorter := skipBlanks_length skipped
                  have few := scanUntil_length scanned
                  refine ⟨Nat.lt_of_le_of_lt few shorter, fun more => ?_⟩
                  rw [skipBlanks_append skipped]
                  dsimp only
                  rw [if_neg solid, scanUntil_append scanned]
                  exact if_neg ends

theorem stable_readword : Stable readword := by
  intro bs word rest found
  obtain ⟨shorter, again⟩ := readword_append found
  exact ⟨Nat.le_of_lt shorter, again⟩

theorem stable_readline : Stable readline := by
  intro bs line rest found
  unfold readline at found ⊢
  cases scanned : scanUntil endsLine bs with
  | mk inner after =>
    obtain ⟨last, after⟩ := after
    rw [scanned] at found
    cases last with
    | none => cases found
    | some last =>
      dsimp only at found
      split at found
      · cases found
      · next ends =>
          cases found
          refine ⟨scanUntil_length scanned, fun more => ?_⟩
          rw [scanUntil_append scanned]
          exact if_neg ends

theorem stable_readNewline : Stable readNewline := by
  intro bs u rest found
  cases bs with
  | nil => cases found
  | cons c bs =>
    simp only [readNewline, Prod.mk.injEq] at found
    obtain ⟨ended, rfl⟩ := found
    refine ⟨Nat.le_succ _, fun more => ?_⟩
    rw [List.cons_append, readNewline, ended]

theorem stable_readBody {type : Int} {read : Reader UInt8 LogRecord}
    (known : readBody type = some read) : Stable read := by
  have word := stable_readword
  have last : ∀ r : LogRecord, Stable (pure r : Reader UInt8 LogRecord) := .pure
  unfold readBody at known
  split at known
  · cases known
    exact word.bind fun _ => word.bind fun _ => word.bind fun _ => last _
  split at known
  · cases known
    exact word.bind fun _ => last _
  split at known
  · cases known
    exact word.bind fun _ => word.bind fun _ => stable_readline.bind fun _ => last _
  split at known
  · cases known
    exact word.bind fun _ => word.bind fun _ => last _
  split at known
  · cases known
    exact stable_readNewline.bind fun _ => last _
  split at known
  · cases known
    exact stable_readNewline.bind fun _ => last _
  split at known
  · cases known
    exact word.bind fun _ => word.bind fun _ => word.bind fun _ => last _
  · cases known

theorem readLogEntry_append (bs : Bytes) (r : LogRecord) (rest : Bytes)
    (found : readLogEntry bs = .ok (some r, rest)) :
    rest.length < bs.length ∧
      ∀ more, readLogEntry (bs ++ more) = .ok (some r, rest ++ more) := by
  unfold readLogEntry at found ⊢
  cases header : readword bs with
  | mk op left =>
    rw [header] at found
    cases op with
    | none => cases found
    | some op =>
      obtain ⟨shorter, again⟩ := readword_append header
      dsimp only [instantiateLogEntry] at found
      cases known : readBody (atoi op) with
      | none =>
        rw [known] at found
        cases found
      | some read =>
        rw [known] at found
        cases body : read left with
        | mk record after =>
          simp only [body] at found
          cases record with
          | none =>
            simp only at found
            split at found <;> cases found
          | some record =>
            cases found
            obtain ⟨fewer, again'⟩ := stable_readBody known left r rest body
            refine ⟨Nat.lt_of_le_of_lt fewer shorter, fun more => ?_⟩
            rw [again more]
            simp only [instantiateLogEntry, known, again' more]

/-! ## One commit -/

namespace ClassAdLog

variable {pre : List LogRecord} {r : LogRecord}

/-- The first record that is refused ends what a commit writes. -/
theorem writeWithStatus_refused (legible : ∀ r ∈ pre, r.Legible) (refused : r.write.2 = false)
    (post : List LogRecord) (file : Bytes) :
    (pre ++ r :: post).foldl writeWithStatus (file, true) =
      (file ++ (pre.flatMap (fun r => r.write.1) ++ r.write.1), false) := by
  have stopped : ∀ (rs : List LogRecord) (out : Bytes),
      rs.foldl writeWithStatus (out, false) = (out, false) := by
    intro rs out
    induction rs with
    | nil => rfl
    | cons q rs ih => exact ih
  rw [List.foldl_append, writeWithStatus_legible legible, List.foldl_cons, writeWithStatus,
    if_pos rfl, refused, stopped, List.append_assoc]

theorem writeWithStatus_status (rs : List LogRecord) (out : Bytes × Bool) :
    (rs.foldl writeWithStatus out).2 = (out.2 && rs.all fun r => r.write.2) := by
  induction rs generalizing out with
  | nil => rw [List.foldl_nil, List.all_nil, Bool.and_true]
  | cons r rs ih =>
    rw [List.foldl_cons, ih, List.all_cons, ← Bool.and_assoc, writeWithStatus]
    cases here : out.2 <;> simp [here]

variable {lib : Library} {log log' : ClassAdLog}
variable {rs : List LogRecord}

/-- A commit that returns has written every record, or does not report failures. -/
theorem commit_cases (done : log.commit lib rs = .ok log') :
    log' = { log with
        file := (rs.foldl writeWithStatus (log.file, true)).1
        table := rs.foldl (LogRecord.play lib) log.table } ∧
      (log.nondurableLevel ≤ 0 → ∀ r ∈ rs, r.write.2 = true) := by
  have status := writeWithStatus_status rs (log.file, true)
  unfold commit at done
  dsimp only at done
  split at done
  · cases done
  · next reported =>
      cases done
      refine ⟨rfl, fun durable r member => ?_⟩
      by_contra refused
      refine reported ⟨?_, durable⟩
      rw [status, Bool.true_and, List.all_eq_false]
      exact ⟨r, member, refused⟩

theorem Committed.add (h : Committed lib log) {e : Entry}
    (edits : ∀ r ∈ e.played, r.Edit) (file : log'.file = log.file ++ e.bytes)
    (table : log'.table = e.played.foldl (LogRecord.play lib) log.table) : Committed lib log' := by
  obtain ⟨st, read, outside, ads⟩ := h
  have legible : ∀ r ∈ e.records, r.Legible := by
    intro r member
    have single : ∀ e' ∈ [e], ∀ r ∈ e'.played, r.Edit := by
      intro e' here
      rw [List.mem_singleton.mp here]
      exact edits
    refine fileRecords_legible 0 single r (List.mem_cons_of_mem _ ?_)
    rwa [List.flatMap_singleton]
  obtain ⟨n, few, first⟩ := foldRecords_append readLogEntry_append read
  have loaded := foldl_load_entry lib edits st outside
  have enough : e.records.length < log'.file.length + 1 - n := by
    have short := length_le_flatMap LogRecord.write_ne_nil e.records
    have size : log'.file.length =
        log.file.length + (e.records.flatMap fun r => r.write.1).length := by
      rw [file, List.length_append]
      rfl
    omega
  have fuel : log'.file.length + 1 = n + (log'.file.length + 1 - n) := by omega
  have all := foldRecords_all readLogEntry (Loading.load lib) e.records rfl
    (fun r member => LogRecord.readLogEntry_write (legible r member)) enough st
  refine ⟨(e.records.map LogRecord.stored).foldl (Loading.load lib) st, ?_, ?_, ?_⟩
  · rw [replay, fuel, file, first, ← file]
    exact all
  · rw [loaded]
    exact outside
  · rw [loaded, table]
    exact ads.playAll lib e.played

structure Kept (lib : Library) (log : ClassAdLog) : Prop where
  committed : Committed lib log
  clients : ∀ ops, log.activeTransaction = some ops →
    ∃ rs, ops = openTransaction rs ∧ ∀ r ∈ rs, r.isClient = true

theorem Kept.congr (h : Kept lib log) (file : log'.file = log.file) (table : log'.table = log.table)
    (transaction : log'.activeTransaction = log.activeTransaction) : Kept lib log' := by
  refine ⟨?_, ?_⟩
  · unfold Committed
    rw [file, table]
    exact h.committed
  · rw [transaction]
    exact h.clients

theorem Committed.closed (h : Committed lib log)
    (file : log'.file = log.file) (table : log'.table = log.table)
    (outside : log'.activeTransaction = none) : Kept lib log' := by
  refine ⟨?_, fun ops inside => ?_⟩
  · unfold Committed
    rw [file, table]
    exact h
  · rw [outside] at inside
    cases inside

theorem commitTransaction_kept (h : Kept lib log)
    (recorded : Recorded (log.nondurableLevel ≤ 0) (log.activeTransaction.getD []))
    (done : log.commitTransaction lib = .ok log') : Kept lib log' := by
  unfold commitTransaction at done
  cases here : log.activeTransaction with
  | none =>
    rw [here] at done
    cases done
    exact h
  | some ops =>
    obtain ⟨rs, rfl, clients⟩ := h.clients ops here
    rw [here] at done recorded
    cases rs with
    | nil =>
      cases done
      exact h.committed.closed rfl rfl rfl
    | cons r rs =>
      simp only [openTransaction, reduceCtorEq, if_false] at done
      obtain ⟨committed, inner, rfl⟩ := ok_of_map done
      obtain ⟨rfl, reported⟩ := commit_cases inner
      have legible : ∀ q ∈ r :: rs, q.Legible := by
        intro q member
        have inside : q ∈ LogRecord.beginTransaction :: r :: rs := List.mem_cons_of_mem _ member
        simp only [Option.getD_some, openTransaction, reduceCtorEq, if_false] at recorded
        rcases recorded with all | ⟨durable, p, hp, refused⟩
        · exact all q inside
        · have written := reported durable p (List.mem_append_left _ hp)
          rw [refused] at written
          cases written
      have edits : ∀ q ∈ (Entry.transaction (r :: rs)).played, q.Edit :=
        fun q member => ⟨legible q member, clients q member⟩
      have whole : ∀ q ∈ (Entry.transaction (r :: rs)).records, q.Legible := by
        intro q member
        rcases List.mem_cons.mp member with rfl | later
        · trivial
        · rcases List.mem_append.mp later with inner | last
          · exact legible q inner
          · rw [List.mem_singleton.mp last]
            trivial
      have written := writeWithStatus_legible whole log.file
      refine (h.committed.add (e := .transaction (r :: rs)) edits ?_ ?_).closed rfl rfl rfl
      · exact congrArg Prod.fst written
      · simp [Entry.played, LogRecord.play]

theorem step_kept (h : Kept lib log) {op : Operation}
    (sound : log.Sound op) (taken : log.step lib op = some log') : Kept lib log' := by
  cases op with
  | appendLog r =>
    obtain ⟨client, recorded⟩ := sound
    have done := ok_of_toOption taken
    unfold appendLog at done
    cases here : log.activeTransaction with
    | none =>
      rw [here] at done
      dsimp only at done
      split at done
      · next written =>
          cases done
          have edit : r.Edit := by
            refine ⟨?_, client⟩
            rcases recorded here with legible | ⟨-, q, member, refused⟩
            · exact legible r List.mem_cons_self
            · rw [List.mem_singleton.mp member, written] at refused
              cases refused
          refine (h.committed.add (e := .record r) ?_ ?_ rfl).closed rfl rfl rfl
          · intro q member
            rw [List.mem_singleton.mp member]
            exact edit
          · simp [Entry.bytes, Entry.records]
      · cases done
    | some ops =>
      obtain ⟨rs, rfl, clients⟩ := h.clients ops here
      rw [here] at done
      cases done
      refine ⟨h.committed, fun ops same => ⟨rs ++ [r], ?_, ?_⟩⟩
      · cases same
        cases rs <;> simp [openTransaction]
      · intro q member
        rcases List.mem_append.mp member with old | new
        · exact clients q old
        · rw [List.mem_singleton.mp new]
          exact client
  | beginTransaction =>
    have done := ok_of_toOption taken
    unfold beginTransaction at done
    split at done
    · cases done
    · cases done
      refine ⟨h.committed, fun ops same => ⟨[], ?_, ?_⟩⟩
      · cases same
        rfl
      · intro q member
        cases member
  | abortTransaction =>
    cases taken
    exact h.committed.closed rfl rfl rfl
  | commitTransaction => exact commitTransaction_kept h sound (ok_of_toOption taken)
  | commitNondurableTransaction =>
    have done := ok_of_toOption taken
    unfold commitNondurableTransaction at done
    obtain ⟨committed, inner, rfl⟩ := ok_of_map done
    have raised : Kept lib { log with nondurableLevel := log.nondurableLevel + 1 } :=
      h.congr rfl rfl rfl
    exact (commitTransaction_kept raised sound inner).congr rfl rfl rfl

variable {log : ClassAdLog}

theorem construct_kept {os : SystemCalls} {maxHistoricalLogs : Nat} {time : UInt64} {tmp : Bytes}
    (fresh : construct lib os maxHistoricalLogs time tmp [] = .ok log) : Kept lib log := by
  have written := construct_implements fresh
  have file : log.file = [firstRecord time].flatMap fun r => r.write.1 := written.file
  have whole : ∀ r ∈ [firstRecord time], ∀ rest,
      readLogEntry (r.write.1 ++ rest) = .ok (some r.stored, rest) := by
    intro r member
    rw [List.mem_singleton.mp member]
    exact LogRecord.readLogEntry_write (r := firstRecord time) trivial
  have enough := Nat.lt_succ_of_le (length_le_flatMap LogRecord.write_ne_nil [firstRecord time])
  have read := foldRecords_all readLogEntry (Loading.load lib) [firstRecord time] rfl whole enough
    ⟨initial 0 0 [], 0, true⟩
  have committed : Committed lib log := by
    refine ⟨Loading.load lib ⟨initial 0 0 [], 0, true⟩ (firstRecord time), ?_, rfl, ?_⟩
    · rw [replay, file]
      exact read
    · rw [written.table]
      exact .empty
  exact committed.closed rfl rfl written.transaction

theorem Kept.lasts (h : Kept lib log) : Lasts lib log := by
  intro ops log' run
  have kept : Kept lib log' := run.invariant (I := Kept lib) h fun s op t before taken =>
    step_kept before taken.1 taken.2
  exact kept.committed.agrees

/-! ## A commit that hides a refused record -/

theorem header_of_refused (refused : r.write.2 = false) :
    r.write.1 = ascii "103 " := by
  have unwritten : r.body = none := by
    unfold LogRecord.write at refused
    split at refused
    · cases refused
    · assumption
  have header : r.write.1 = r.header := by rw [LogRecord.write, unwritten]
  rw [header]
  cases r with
  | setAttribute key name value isDirty =>
    change decimal 103 ++ [blank] = ascii "103 "
    decide +kernel
  | _ => cases unwritten

def newJobEntry : Entry :=
  .transaction [.newClassAd (ascii "1.0") (ascii "Job") (ascii "Machine")]

/-- The file of a log whose last commit stopped inside a record cannot be read any more
once another transaction is behind it. -/
theorem replay_behind_refused (h : Committed lib log) (legible : ∀ r ∈ rs, r.Legible) (file : Bytes)
    (grown : file = log.file ++ (rs.flatMap (fun r => r.write.1) ++
      (ascii "103 " ++ newJobEntry.bytes))) :
    ∃ e, replay lib file = .error e := by
  obtain ⟨st, read, -, -⟩ := h
  obtain ⟨n, few, first⟩ := foldRecords_append readLogEntry_append read
  have short := length_le_flatMap LogRecord.write_ne_nil rs
  obtain ⟨extra, fuel⟩ : ∃ extra, file.length + 1 = n + (rs.length + (extra + 1)) := by
    have size := congrArg List.length grown
    rw [List.length_append, List.length_append] at size
    exact ⟨file.length - n - rs.length, by omega⟩
  have whole := foldRecords_whole readLogEntry (Loading.load lib)
    (fun r member => LogRecord.readLogEntry_write (legible r member))
    (ascii "103 " ++ newJobEntry.bytes) (extra + 1) st
  -- The header takes `105` for a key and finds the end of the line where a name should be.
  have corrupt : readLogEntry (ascii "103 " ++ newJobEntry.bytes) =
      .error "Error: bad record with op=103 in corrupt logfile" := by
    decide +kernel
  refine ⟨"Error: bad record with op=103 in corrupt logfile", ?_⟩
  rw [replay, fuel, grown, first, whole, foldRecords, corrupt]

/-- A new ad is committed in a transaction of its own, whatever happened before. -/
theorem exists_run_newJob (lib : Library) (outside : log.activeTransaction = none) :
    ∃ log', Run (Guarded (Takes (step lib)) Sound) log newJob log' ∧
      log'.file = log.file ++ newJobEntry.bytes := by
  have legible : ∀ r ∈ newJobEntry.records, r.Legible := by decide +kernel
  have written := writeWithStatus_legible legible log.file
  let filled := { log with activeTransaction := some (.beginTransaction :: newJobEntry.played) }
  let final := { log with
    file := log.file ++ newJobEntry.bytes
    table := newJobEntry.records.foldl (LogRecord.play lib) log.table
    activeTransaction := none }
  have opened : step lib log .beginTransaction =
      some { log with activeTransaction := some [] } := by
    rw [step, beginTransaction, outside]
    rfl
  have closed : step lib filled .commitTransaction = some final := by
    have committed : commit lib filled newJobEntry.records =
        .ok { final with activeTransaction := filled.activeTransaction } := by
      rw [commit, written]
      rfl
    exact congrArg (fun out => (Except.map (fun log : ClassAdLog =>
      { log with activeTransaction := none }) out).toOption) committed
  refine ⟨final, .cons ⟨trivial, opened⟩ (.cons (t := filled) ⟨⟨rfl, fun none => ?_⟩, rfl⟩
    (.cons ⟨.inl ?_, closed⟩ (.nil final))), rfl⟩
  · cases none
  · change ∀ r ∈ LogRecord.beginTransaction :: newJobEntry.played, r.Legible
    decide +kernel

/-- A commit that does not report a refused record leaves its header open in the file. -/
theorem commitTransaction_hides (lib : Library)
    (transaction : log.activeTransaction = some (openTransaction rs))
    (legible : ∀ r ∈ rs, r.write.2 = true → r.Legible)
    (hidden : ¬Recorded (log.nondurableLevel ≤ 0) (openTransaction rs)) :
    ∃ (log' : ClassAdLog) (pre : List LogRecord),
      log.commitTransaction lib = .ok log' ∧ log'.activeTransaction = none ∧
      (∀ r ∈ pre, r.Legible) ∧
      log'.file = log.file ++ (pre.flatMap (fun r => r.write.1) ++ ascii "103 ") := by
  obtain ⟨unclear, silent⟩ := not_or.mp hidden
  push Not at unclear
  obtain ⟨q, member, illegible⟩ := unclear
  have some_ : rs ≠ [] := by
    rintro rfl
    cases member
  simp only [openTransaction, some_, if_false] at member transaction silent
  have refused : q ∈ rs ∧ q.write.2 = false := by
    rcases List.mem_cons.mp member with rfl | inside
    · exact absurd trivial illegible
    · exact ⟨inside, Bool.eq_false_iff.mpr fun written => illegible (legible q inside written)⟩
  have nondurable : ¬log.nondurableLevel ≤ 0 :=
    fun durable => silent ⟨durable, q, member, refused.2⟩
  -- The file gets the records in front of the first one that is refused.
  obtain ⟨r, found⟩ : ∃ r, rs.find? (fun r => !r.write.2) = some r := by
    rw [← Option.isSome_iff_exists, List.find?_isSome]
    exact ⟨q, refused.1, by rw [refused.2, Bool.not_false]⟩
  obtain ⟨stops, pre, post, rfl, written⟩ := List.find?_eq_some_iff_append.mp found
  have before : ∀ p ∈ LogRecord.beginTransaction :: pre, p.Legible := by
    intro p inside
    rcases List.mem_cons.mp inside with rfl | early
    · trivial
    · exact legible p (List.mem_append_left _ early) (by simpa using written p early)
  have out := writeWithStatus_refused before (Bool.not_eq_true' _ |>.mp stops)
    (post ++ [.endTransaction]) log.file
  rw [header_of_refused (Bool.not_eq_true' _ |>.mp stops)] at out
  refine ⟨{ log with
    file := log.file ++ ((LogRecord.beginTransaction :: pre).flatMap (fun r => r.write.1) ++
      ascii "103 ")
    table := (LogRecord.beginTransaction :: pre ++ r :: (post ++ [.endTransaction])).foldl
      (LogRecord.play lib) log.table
    activeTransaction := none }, LogRecord.beginTransaction :: pre, ?_, rfl, before, rfl⟩
  have whole : LogRecord.beginTransaction :: (pre ++ r :: post) ++ [.endTransaction] =
      .beginTransaction :: pre ++ r :: (post ++ [.endTransaction]) := by simp
  rw [commitTransaction, transaction]
  dsimp only
  rw [whole, commit, out]
  simp only [nondurable, and_false, if_false, Except.map]

theorem not_lasts_of_hidden (h : Committed lib log) (legible : ∀ r ∈ pre, r.Legible)
    (outside : log'.activeTransaction = none)
    (file : log'.file = log.file ++ (pre.flatMap (fun r => r.write.1) ++ ascii "103 ")) :
    ¬Lasts lib log' := by
  intro lasts
  obtain ⟨later, run, grown⟩ := exists_run_newJob lib outside
  have whole : later.file = log.file ++ (pre.flatMap (fun r => r.write.1) ++
      (ascii "103 " ++ newJobEntry.bytes)) := by
    rw [grown, file]
    simp only [List.append_assoc]
  obtain ⟨e, unreadable⟩ := replay_behind_refused h legible later.file whole
  obtain ⟨st, ends, read, -⟩ := lasts newJob later run
  rw [unreadable] at read
  cases read

end ClassAdLog

/-- For every committed log and every transaction, the table in memory equals the replay of
the file after the commit and after all later ones if every record fits the log format or
a record that does not is reported. The converse holds when the records that `WriteBody`
accepts fit the format. -/
theorem commit_agrees_iff {lib : Library} {log : ClassAdLog} {rs : List LogRecord}
    {op : Operation} (committed : log.Committed lib)
    (transaction : log.activeTransaction = some (openTransaction rs))
    (clients : ∀ r ∈ rs, r.isClient = true)
    (commits : op = .commitTransaction ∨ op = .commitNondurableTransaction) :
    (log.Sound op → ∀ log', log.step lib op = some log' → log'.Lasts lib) ∧
      ((∀ r ∈ rs, r.write.2 = true → r.Legible) →
        (∀ log', log.step lib op = some log' → log'.Lasts lib) → log.Sound op) := by
  have kept : log.Kept lib := by
    refine ⟨committed, fun ops same => ⟨rs, ?_, clients⟩⟩
    rw [transaction] at same
    exact (Option.some.inj same).symm
  refine ⟨fun sound log' taken => (ClassAdLog.step_kept kept sound taken).lasts, ?_⟩
  intro legible lasts
  by_contra unsound
  rcases commits with rfl | rfl
  · have hidden : ¬ClassAdLog.Recorded (log.nondurableLevel ≤ 0) (openTransaction rs) := by
      rw [ClassAdLog.Sound, transaction] at unsound
      exact unsound
    obtain ⟨log', pre, done, outside, fits, file⟩ :=
      ClassAdLog.commitTransaction_hides lib transaction legible hidden
    refine ClassAdLog.not_lasts_of_hidden committed fits outside file (lasts log' ?_)
    rw [ClassAdLog.step, done]
    rfl
  · have hidden : ¬ClassAdLog.Recorded (log.nondurableLevel + 1 ≤ 0) (openTransaction rs) := by
      rw [ClassAdLog.Sound, transaction] at unsound
      exact unsound
    have raised : ({ log with nondurableLevel := log.nondurableLevel + 1 } :
        ClassAdLog).activeTransaction = some (openTransaction rs) := transaction
    obtain ⟨log', pre, done, outside, fits, file⟩ :=
      ClassAdLog.commitTransaction_hides lib raised legible hidden
    have taken : log.step lib .commitNondurableTransaction =
        some { log' with nondurableLevel := log'.nondurableLevel - 1 } := by
      rw [ClassAdLog.step, ClassAdLog.commitNondurableTransaction, done]
      rfl
    have outside' : ({ log' with nondurableLevel := log'.nondurableLevel - 1 } :
        ClassAdLog).activeTransaction = none := outside
    exact ClassAdLog.not_lasts_of_hidden committed fits outside' file (lasts _ taken)

/-! Transactions on one job, one of them with a value of two lines. -/

def soundAfter (ops : List Operation) : Option ClassAdLog :=
  (ClassAdLog.construct sampleLibrary noFailure 0 0 [] []).toOption.bind fun log =>
    execute (guardedStep (ClassAdLog.step sampleLibrary) ClassAdLog.Sound) log ops

theorem kept_of_soundAfter {ops : List Operation} {log : ClassAdLog}
    (h : soundAfter ops = some log) : log.Kept sampleLibrary := by
  obtain ⟨log₀, made, rest⟩ := Option.bind_eq_some_iff.mp h
  have fresh := ClassAdLog.construct_kept (ok_of_toOption made)
  exact (Run.of_execute_guarded rest).invariant (I := ClassAdLog.Kept sampleLibrary) fresh
    fun s op t before taken => ClassAdLog.step_kept before taken.1 taken.2

def setBoth (value : String) : List LogRecord :=
  [.setAttribute (ascii "1.0") (ascii "B") (ascii value) false,
    .setAttribute (ascii "1.0") (ascii "A") (ascii "1") false]

def beforeCommit (value : String) : List Operation :=
  newJob ++ .beginTransaction :: (setBoth value).map .appendLog

def jobSize (table : ClassAdHashTable) : Option Nat :=
  ((contents table).lookup (ascii "1.0")).map List.length

def jobSizes (log : ClassAdLog) : Option Nat × Option (Option Nat) :=
  (jobSize log.table,
    (ClassAdLog.replay sampleLibrary log.file).toOption.map fun out => jobSize out.1.log.table)

theorem not_agrees_of_jobSizes {log : ClassAdLog}
    (differ : (jobSizes log).2 ≠ some (jobSizes log).1) : ¬log.Agrees sampleLibrary := by
  rintro ⟨st, ends, read, same⟩
  refine differ ?_
  rw [jobSizes, read]
  simp only [Except.toOption, Option.map_some, jobSize, same]

def brokenCommit : Option (ClassAdLog × ClassAdLog × ClassAdLog) :=
  (soundAfter (beforeCommit "1\n1")).bind fun log =>
    (log.step sampleLibrary .commitNondurableTransaction).bind fun log' =>
      (execute (ClassAdLog.step sampleLibrary) log' newJob).map fun log'' => (log, log', log'')

theorem brokenCommit_sizes :
    brokenCommit.map (fun logs =>
      (logs.1.activeTransaction, jobSizes logs.2.1, jobSizes logs.2.2)) =
      some (some (openTransaction (setBoth "1\n1")), (some 4, some (some 3)), some 3, none) := by
  decide +kernel

/-- `CommitNondurableTransaction` returns, and the file lacks what the table has. After
one more commit the file cannot be read at all. -/
theorem hidden_record_diverges :
    ∃ log log' log'' : ClassAdLog, log.Committed sampleLibrary ∧
      log.activeTransaction = some (openTransaction (setBoth "1\n1")) ∧
      log.step sampleLibrary .commitNondurableTransaction = some log' ∧
      ¬log'.Agrees sampleLibrary ∧
      Run (Takes (ClassAdLog.step sampleLibrary)) log' newJob log'' ∧
      ¬log''.Agrees sampleLibrary := by
  obtain ⟨logs, run, facts⟩ := Option.map_eq_some_iff.mp brokenCommit_sizes
  obtain ⟨log, before, run⟩ := Option.bind_eq_some_iff.mp run
  obtain ⟨log', committed, run⟩ := Option.bind_eq_some_iff.mp run
  obtain ⟨log'', later, rfl⟩ := Option.map_eq_some_iff.mp run
  obtain ⟨transaction, facts⟩ := Prod.mk.inj facts
  obtain ⟨sizes, sizes'⟩ := Prod.mk.inj facts
  refine ⟨log, log', log'', (kept_of_soundAfter before).committed, transaction, committed,
    not_agrees_of_jobSizes ?_, .of_execute later, not_agrees_of_jobSizes ?_⟩
  · rw [sizes]
    decide
  · rw [sizes']
    decide

theorem plain_commit_sizes :
    (soundAfter (beforeCommit "1")).map (fun log =>
      (log.activeTransaction, decide (log.Sound .commitNondurableTransaction),
        (log.step sampleLibrary .commitNondurableTransaction).isSome)) =
      some (some (openTransaction (setBoth "1")), true, true) := by
  decide +kernel

/-- A transaction that can be written is committed without sync and stays in the file. -/
theorem commit_agrees_iff_nondurable :
    ∃ log log' : ClassAdLog, log.step sampleLibrary .commitNondurableTransaction = some log' ∧
      log'.Lasts sampleLibrary := by
  obtain ⟨log, before, facts⟩ := Option.map_eq_some_iff.mp plain_commit_sizes
  obtain ⟨transaction, facts⟩ := Prod.mk.inj facts
  obtain ⟨sound, returns⟩ := Prod.mk.inj facts
  obtain ⟨log', committed⟩ := Option.isSome_iff_exists.mp returns
  have both := commit_agrees_iff (kept_of_soundAfter before).committed transaction
    (by decide +kernel) (.inr rfl)
  exact ⟨log, log', committed, both.1 (of_decide_eq_true sound) log' committed⟩

end Condor.TransactionLog
