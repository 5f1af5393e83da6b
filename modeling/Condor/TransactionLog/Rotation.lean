import Condor.TransactionLog.AttributeView
import Condor.TransactionLog.Recovery

/-! `TruncLog` writes the table to a temporary file and renames it over the log. The file is not
truncated when it is opened, so a longer one that a crash left behind keeps its end. -/
namespace Condor.TransactionLog
open Condor.Lib Condor.Utils Condor.ClassAd

def stateBytes (lib : Library) (log : ClassAdLog) : Bytes :=
  (logState lib log).flatMap fun r => r.write.1

def ClassAdLog.advance (log : ClassAdLog) : ClassAdLog :=
  { log with historicalSequenceNumber := log.historicalSequenceNumber + 1 }

/-- The ad is as the log format and the parser can hold it: its words are words, its
expressions print to values that parse back, its names differ by more than case, and it
has the attributes that every new ad starts with. -/
structure Storable (lib : Library) (b : HashBucket Bytes CompatClassAd) : Prop where
  key : IsWord b.index
  mytype : IsWord (b.value.typeName lib "MyType")
  targettype : IsWord (b.value.typeName lib "TargetType")
  names : ∀ a ∈ b.value.attrs, IsWord a.1
  values : ∀ a ∈ b.value.attrs, IsValue (lib.exprTreeToString a.2)
  parsed : ∀ a ∈ b.value.attrs, lib.exprOf (lib.exprTreeToString a.2) = some a.2
  distinct : b.value.attrs.Pairwise fun a a' => sameIgnoringCase a.1 a'.1 = false
  hasMyType : b.value.attr (ascii "MyType") ≠ none
  hasTargetType : b.value.attr (ascii "TargetType") ≠ none
  hasCurrentTime : lib.strictEvaluation = true ∨ b.value.attr (ascii "CurrentTime") ≠ none

variable {text : Bytes} {os : SystemCalls} {bs : List (HashBucket Bytes CompatClassAd)}

theorem overwrite_eq_self {old : Bytes} :
    overwrite text old = text ↔ old.length ≤ text.length := by
  rw [overwrite, List.append_right_eq_self, List.drop_eq_nil_iff]

variable {rs : List LogRecord} {table : ClassAdHashTable}

theorem writeAll_eq (h : writeAll rs = some text) :
    text = rs.flatMap fun r => r.write.1 := by
  induction rs generalizing text with
  | nil =>
    cases h
    rfl
  | cons r rs ih =>
    rw [writeAll] at h
    split at h
    · obtain ⟨rest, written, rfl⟩ := Option.map_eq_some_iff.mp h
      rw [List.flatMap_cons, ih written]
    · cases h

theorem truncLog_eq (lib : Library) (calls : os.Succeed) (tmp : Bytes) (log : ClassAdLog)
    (result : Bool × ClassAdLog) :
    log.truncLog lib os tmp = .ok result ↔
      Loggable lib (contents log.table) ∧
        result =
          (true, { log.advance with file := overwrite (stateBytes lib log.advance) tmp }) := by
  have accepted : (writeAll (logState lib log.advance)).isSome ↔
      Loggable lib (contents log.table) := logState_accepted_iff lib log.advance
  rw [SystemCalls.Succeed] at calls
  subst calls
  simp only [ClassAdLog.truncLog, reduceCtorEq, and_false, if_false, if_true]
  rw [ClassAdLog.advance] at accepted
  cases written : writeAll (logState lib
    { log with historicalSequenceNumber := log.historicalSequenceNumber + 1 }) with
  | none =>
    rw [written] at accepted
    refine iff_of_false (by simp) fun both => ?_
    cases accepted.mpr both.1
  | some text =>
    rw [written] at accepted
    have text_eq : text = stateBytes lib log.advance := writeAll_eq written
    rw [and_iff_right (accepted.mp rfl), text_eq]
    constructor
    · intro ok
      cases ok
      rfl
    · rintro rfl
      rfl

/-! ## Reading the state back -/

theorem attrOf_congr {n name : Bytes} (same : sameIgnoringCase n name = true) (attrs : Attrs) :
    attrOf n attrs = attrOf name attrs := by
  unfold attrOf
  congr 2
  funext a
  rw [sameIgnoringCase_congr same]

variable {lib : Library} {b : HashBucket Bytes CompatClassAd}

theorem Storable.record (h : Storable lib b) {a : Bytes × ExprTree} (member : a ∈ b.value.attrs) :
    LogRecord.logSetAttribute b.index a.1 (lib.exprTreeToString a.2) false =
      .setAttribute b.index a.1 (lib.exprTreeToString a.2) false := by
  rw [LogRecord.logSetAttribute, if_neg (h.values a member).1]

theorem Storable.edits (h : Storable lib b) : ∀ r ∈ logStateAd lib b, r.Edit := by
  intro r member
  rcases List.mem_cons.mp member with rfl | later
  · exact ⟨⟨h.key, h.mytype, h.targettype⟩, rfl⟩
  · obtain ⟨a, ha, rfl⟩ := List.mem_map.mp later
    rw [h.record ha]
    exact ⟨⟨h.key, h.names a ha, h.values a ha⟩, rfl⟩

theorem logState_stored (lib : Library) (log : ClassAdLog) :
    (logState lib log).map LogRecord.stored = logState lib log := by
  refine (List.map_congr_left fun r member => ?_).trans (List.map_id _)
  rcases List.mem_cons.mp member with rfl | later
  · rfl
  · obtain ⟨b, -, inAd⟩ := List.mem_flatMap.mp later
    rcases List.mem_cons.mp inAd with rfl | attr
    · rfl
    · obtain ⟨a, -, rfl⟩ := List.mem_map.mp attr
      rfl

/-- The `SetAttribute` records of an ad leave each of its attributes as it is. -/
theorem foldl_viewStep_attrs {key : Bytes} {attrs : Attrs}
    (names : ∀ a ∈ attrs, IsWord a.1)
    (parsed : ∀ a ∈ attrs, lib.exprOf (lib.exprTreeToString a.2) = some a.2)
    (distinct : attrs.Pairwise fun a a' => sameIgnoringCase a.1 a'.1 = false) (name : Bytes)
    (x : Option ExprTree) :
    (attrs.map fun a => LogRecord.setAttribute key a.1 (lib.exprTreeToString a.2) false).foldl
        (viewStep lib key name) (some x) = some ((attrOf name attrs).or x) := by
  induction attrs generalizing x with
  | nil => rfl
  | cons a attrs ih =>
    have rest := fun x => ih (fun a ha => names a (List.mem_cons_of_mem _ ha))
      (fun a ha => parsed a (List.mem_cons_of_mem _ ha)) (List.pairwise_cons.mp distinct).2 x
    have word := (names a List.mem_cons_self).1
    rw [List.map_cons, List.foldl_cons, viewStep]
    by_cases here : sameIgnoringCase a.1 name = true
    · -- No later attribute of the ad has this name.
      have last : attrOf name attrs = none := by
        rw [← attrOf_congr here, attrOf, Option.map_eq_none_iff, List.find?_eq_none]
        intro a' ha'
        rw [sameIgnoringCase_comm, (List.pairwise_cons.mp distinct).1 a' ha']
        exact Bool.false_ne_true
      rw [if_pos ⟨rfl, word, here⟩, Option.map_some, parsed a List.mem_cons_self, rest, last]
      simp [attrOf, here]
    · rw [if_neg fun all => here all.2.2, rest]
      simp [attrOf, here]

/-- An attribute that every new ad has is overwritten or there already. -/
theorem Storable.typed_or (h : Storable lib b) (mytype targettype name : Bytes) :
    (b.value.attr name).or ((CompatClassAd.typed lib mytype targettype).attr name) =
      b.value.attr name := by
  cases here : b.value.attr name with
  | some e => rfl
  | none =>
    have missing : ∀ n, b.value.attr n ≠ none → sameIgnoringCase n name = false := by
      intro n present
      refine eq_false_of_ne_true fun same => present ?_
      rw [← here]
      exact attrOf_congr same _
    have time : ¬(lib.strictEvaluation = false ∧
        sameIgnoringCase (ascii "CurrentTime") name = true) := by
      rintro ⟨lax, same⟩
      rcases h.hasCurrentTime with strict | present
      · rw [strict] at lax
        cases lax
      · rw [missing _ present] at same
        cases same
    rw [CompatClassAd.attr_typed, missing _ h.hasTargetType, missing _ h.hasMyType, if_neg time]
    rfl

theorem Storable.foldl_viewStep (h : Storable lib b) (key name : Bytes)
    (seen : Option (Option ExprTree)) :
    (logStateAd lib b).foldl (viewStep lib key name) seen =
      if b.index = key then some (b.value.attr name) else seen := by
  have records : logStateAd lib b = .newClassAd b.index (b.value.typeName lib "MyType")
      (b.value.typeName lib "TargetType") :: b.value.attrs.map fun a =>
        .setAttribute b.index a.1 (lib.exprTreeToString a.2) false :=
    congrArg _ (List.map_congr_left fun a member => h.record member)
  rw [records, List.foldl_cons, viewStep]
  split
  · next here =>
      subst here
      rw [foldl_viewStep_attrs h.names h.parsed h.distinct]
      exact congrArg some (h.typed_or _ _ name)
  · next other =>
      have still : ∀ attrs : Attrs, (attrs.map fun a => LogRecord.setAttribute b.index a.1
          (lib.exprTreeToString a.2) false).foldl (viewStep lib key name) seen = seen := by
        intro attrs
        induction attrs with
        | nil => rfl
        | cons a attrs ih =>
          rw [List.map_cons, List.foldl_cons, viewStep, if_neg fun all => other all.1]
          exact ih
      exact still b.value.attrs

theorem foldl_viewStep_ads (storable : ∀ b ∈ bs, Storable lib b)
    (distinct : (bs.map HashBucket.index).Nodup) (key name : Bytes)
    (seen : Option (Option ExprTree)) :
    (bs.flatMap (logStateAd lib)).foldl (viewStep lib key name) seen =
      match bs.find? fun b => b.index = key with
      | some b => some (b.value.attr name)
      | none => seen := by
  induction bs generalizing seen with
  | nil => rfl
  | cons b bs ih =>
    rw [List.map_cons, List.nodup_cons] at distinct
    rw [List.flatMap_cons, List.foldl_append, (storable b List.mem_cons_self).foldl_viewStep,
      ih (fun b hb => storable b (List.mem_cons_of_mem _ hb)) distinct.2]
    by_cases here : b.index = key
    · have nowhere : bs.find? (fun b => b.index = key) = none := by
        rw [List.find?_eq_none]
        intro b' member
        rw [decide_eq_true_iff]
        intro same
        exact distinct.1 (here.trans same.symm ▸ List.mem_map_of_mem member)
      rw [nowhere, List.find?_cons_of_pos (by simp [here])]
      exact if_pos here
    · rw [List.find?_cons_of_neg (by simp [here]), if_neg here]

theorem allFresh_append {qs : List LogRecord} (first : AllFresh lib table rs)
    (then_ : AllFresh lib (rs.foldl (LogRecord.play lib) table) qs) :
    AllFresh lib table (rs ++ qs) := by
  induction rs generalizing table with
  | nil => exact then_
  | cons r rs ih => exact ⟨first.1, ih first.2 then_⟩

/-- Ads with distinct keys are new when they are created. -/
theorem allFresh_ads (storable : ∀ b ∈ bs, Storable lib b)
    (distinct : (bs.map HashBucket.index).Nodup) (chained : table.Chained)
    (absent : ∀ b ∈ bs, table.lookup b.index = none) :
    AllFresh lib table (bs.flatMap (logStateAd lib)) := by
  induction bs generalizing table with
  | nil => trivial
  | cons b bs ih =>
    rw [List.map_cons, List.nodup_cons] at distinct
    have sets : ∀ (attrs : Attrs) (table : ClassAdHashTable), AllFresh lib table
        (attrs.map fun a => .logSetAttribute b.index a.1 (lib.exprTreeToString a.2) false) := by
      intro attrs
      induction attrs with
      | nil => exact fun _ => trivial
      | cons a attrs ih => exact fun _ => ⟨trivial, ih _⟩
    have here : AllFresh lib table (logStateAd lib b) :=
      ⟨absent b List.mem_cons_self, sets _ _⟩
    obtain ⟨kept, viewed⟩ := playAll_view lib chained here
    have later := fun b hb => storable b (List.mem_cons_of_mem _ hb)
    refine allFresh_append here (ih later distinct.2 kept fun b' member => ?_)
    -- The ad of `b` has another key, so `b'` is as absent as before.
    have other : b.index ≠ b'.index := fun same => distinct.1 (same ▸ List.mem_map_of_mem member)
    have before : view table b'.index [] = none := by
      rw [view, absent b' (List.mem_cons_of_mem _ member)]
      rfl
    have after := viewed b'.index []
    rw [(storable b List.mem_cons_self).foldl_viewStep, if_neg other, before] at after
    exact Option.map_eq_none_iff.mp after

theorem view_eq_find (chained : table.Chained) (key name : Bytes) :
    view table key name =
      (table.buckets.find? fun b => b.index = key).map fun b => b.value.attr name := by
  unfold view
  cases found : table.buckets.find? fun b => b.index = key with
  | none =>
    have absent : ∀ b ∈ table.buckets, b.index ≠ key := by
      simpa using List.find?_eq_none.mp found
    rw [chained.lookup_eq_none_iff.mpr absent]
    rfl
  | some b =>
    have same : b.index = key := by simpa using List.find?_some found
    rw [chained.lookup_eq_some_iff.mpr ⟨b, List.mem_of_find?_eq_some found, same, rfl⟩]
    rfl

theorem replay_state (chained : table.Chained) (storable : ∀ b ∈ table.buckets, Storable lib b) :
    ((table.buckets.flatMap (logStateAd lib)).foldl (LogRecord.play lib) .empty).Chained ∧
      ∀ key name, view ((table.buckets.flatMap (logStateAd lib)).foldl (LogRecord.play lib) .empty)
        key name = view table key name := by
  have empty : ClassAdHashTable.empty.Chained := HashTable.Chained.create _ _
  have fresh : AllFresh lib .empty (table.buckets.flatMap (logStateAd lib)) :=
    allFresh_ads storable chained.distinct empty fun _ _ => rfl
  obtain ⟨kept, viewed⟩ := playAll_view lib empty fresh
  refine ⟨kept, fun key name => ?_⟩
  rw [viewed, foldl_viewStep_ads storable chained.distinct, view_eq_find chained]
  cases table.buckets.find? fun b => b.index = key <;> rfl

theorem foldl_load_edits (lib : Library) (edits : ∀ r ∈ rs, r.Edit)
    (whole : rs.map LogRecord.stored = rs) (st : ClassAdLog.Loading)
    (outside : st.log.activeTransaction = none) :
    (rs.foldl (ClassAdLog.Loading.load lib) st).log =
      { st.log with table := rs.foldl (LogRecord.play lib) st.log.table } := by
  have single : ∀ e ∈ rs.map Entry.record, ∀ r ∈ e.played, r.Edit := by
    rintro e member r inside
    obtain ⟨q, hq, rfl⟩ := List.mem_map.mp member
    rw [List.mem_singleton.mp inside]
    exact edits q hq
  have loaded := ClassAdLog.foldl_load_entries lib single st outside
  have flat : (rs.map Entry.record).flatMap Entry.records = rs := by
    rw [List.flatMap_map]
    exact List.flatMap_singleton' rs
  have flat' : (rs.map Entry.record).flatMap Entry.played = rs := by
    rw [List.flatMap_map]
    exact List.flatMap_singleton' rs
  rwa [flat, flat', whole] at loaded

theorem construct_state (log : ClassAdLog) (chained : log.table.Chained)
    (storable : ∀ b ∈ log.table.buckets, Storable lib b) (calls : os.Succeed)
    (maxHistoricalLogs : Nat) (time : UInt64) (tmp : Bytes) :
    ∃ log', ClassAdLog.construct lib os maxHistoricalLogs time tmp (stateBytes lib log) = .ok log' ∧
      log'.table.Chained ∧ ∀ key name, view log'.table key name = view log.table key name := by
  have edits : ∀ r ∈ log.table.buckets.flatMap (logStateAd lib), r.Edit := by
    intro r member
    obtain ⟨b, hb, inAd⟩ := List.mem_flatMap.mp member
    exact (storable b hb).edits r inAd
  have legible : ∀ r ∈ logState lib log, r.Legible := by
    intro r member
    rcases List.mem_cons.mp member with rfl | later
    · trivial
    · exact (edits r later).1
  have read := foldRecords_all readLogEntry (ClassAdLog.Loading.load lib) (logState lib log) rfl
    (fun r hr => LogRecord.readLogEntry_write (legible r hr))
    (Nat.lt_succ_of_le (length_le_flatMap LogRecord.write_ne_nil _))
    ⟨.initial maxHistoricalLogs time (stateBytes lib log), 0, true⟩
  rw [logState_stored] at read
  generalize loaded : (logState lib log).foldl (ClassAdLog.Loading.load lib)
    ⟨.initial maxHistoricalLogs time (stateBytes lib log), 0, true⟩ = st at read
  obtain ⟨table, outside⟩ : st.log.table = (log.table.buckets.flatMap (logStateAd lib)).foldl
      (LogRecord.play lib) .empty ∧ st.log.activeTransaction = none := by
    have whole := (List.cons_eq_cons.mp (logState_stored lib log)).2
    have played := foldl_load_edits lib edits whole (ClassAdLog.Loading.load lib
      ⟨.initial maxHistoricalLogs time (stateBytes lib log), 0, true⟩
      (.historicalSequenceNumber log.historicalSequenceNumber log.originalLogBirthdate)) rfl
    rw [← loaded, logState, List.foldl_cons, played]
    exact ⟨rfl, rfl⟩
  have clean : st.isClean = true := by
    rw [← loaded, ClassAdLog.foldl_load_isClean, Bool.true_and, decide_eq_true_iff]
    intro member
    rcases List.mem_cons.mp member with first | later
    · cases first
    · cases (edits _ later).2
  obtain ⟨log', finished⟩ := (ClassAdLog.finish_ok_iff lib calls tmp st false).mpr
    (.inl ⟨clean, rfl, outside⟩)
  have opens : os.logOpened = true := by rw [calls]
  refine ⟨log', ?_, ?_⟩
  · unfold ClassAdLog.construct
    simp only [opens, reduceCtorEq, if_false, stateBytes] at read ⊢
    rw [read]
    exact finished
  · rw [ClassAdLog.finish_table finished, table]
    exact replay_state chained storable

def typeLibrary : Library :=
  { sampleLibrary with
    parseExpression := fun text =>
      if text = ascii "time()" then some (.fnCall (ascii "time") [])
      else if text = ascii "\"Job\"" then some (.literal (.string (ascii "Job")) .none)
      else if text = ascii "\"Machine\"" then some (.literal (.string (ascii "Machine")) .none)
      else none }

/-- A log without ads. A rotation that crashed before the renaming, when there was still
an ad, has left the temporary file. -/
def leftover : Bytes := ascii "107 2 CreationTimestamp 0\n101 1.0 Job Machine\n"

def oneJob : ClassAdLog :=
  { ClassAdLog.initial 0 0 [] with
    table := LogRecord.play typeLibrary .empty
      (.newClassAd (ascii "1.0") (ascii "Job") (ascii "Machine")) }

theorem oneJob_storable : ∀ b ∈ oneJob.table.buckets, Storable typeLibrary b := by
  have bucket : oneJob.table.buckets =
      [⟨0, ascii "1.0", CompatClassAd.typed typeLibrary (ascii "Job") (ascii "Machine")⟩] := rfl
  rw [bucket, List.forall_mem_singleton]
  refine ⟨by decide +kernel, by decide +kernel, by decide +kernel, by decide +kernel,
    by decide +kernel, ?_, by decide +kernel, by decide +kernel, by decide +kernel,
    by decide +kernel⟩
  have attrs : (CompatClassAd.typed typeLibrary (ascii "Job") (ascii "Machine")).attrs =
      [(ascii "CurrentTime", .fnCall (ascii "time") []),
        (ascii "MyType", .literal (.string (ascii "Job")) .none),
        (ascii "TargetType", .literal (.string (ascii "Machine")) .none)] := rfl
  simp only [attrs, List.forall_mem_cons]
  exact ⟨rfl, rfl, rfl, nofun⟩

end Condor.TransactionLog
