import Condor.TransactionLog.AttributeView
import Condor.TransactionLog.Recovery

/-! `LookupInTransaction` scans the records of the open transaction for one key and keeps three
flags. The flags of the attribute survive the destruction and the creation of an ad, and a value
counts as found whether or not its record has an effect. -/
namespace Condor.TransactionLog
open Condor.Utils Condor.ClassAd

inductive Answer where
  | found (value : Bytes)
  | deleted
  | notFound
  deriving DecidableEq, Repr

/-- The flags of `ExamineTransaction`; `ValFound` with the value. -/
structure Examined where
  adDeleted : Bool
  valDeleted : Bool
  valFound : Option Bytes

def Examined.examine (name : Bytes) (s : Examined) : LogRecord → Examined
  | .newClassAd .. => { s with adDeleted := false }
  | .destroyClassAd _ => { s with adDeleted := true }
  | .setAttribute _ lname value _ =>
    if sameIgnoringCase lname name then { s with valFound := some value, valDeleted := false }
    else s
  | .deleteAttribute _ lname =>
    if sameIgnoringCase lname name then { s with valFound := none, valDeleted := true } else s
  | _ => s

def Examined.answer (s : Examined) : Answer :=
  if s.adDeleted || s.valDeleted then .deleted
  else
    match s.valFound with
    | some value => .found value
    | none => .notFound

/-- `ExamineTransaction` over the list of the key in `op_log`. -/
def examineTransaction (ops : List LogRecord) (key name : Bytes) : Examined :=
  (ops.filter fun r => r.key = key).foldl (Examined.examine name) ⟨false, false, none⟩

def ClassAdLog.lookupInTransaction (log : ClassAdLog) (key name : Bytes) : Answer :=
  match log.activeTransaction with
  | none => .notFound
  | some ops => (examineTransaction ops key name).answer

/-- The answer is right about an attribute: `before` is its state in the committed
table, `after` its state once the transaction is committed. -/
def Answer.Tells (lib : Library) (before after : Option ExprTree) : Answer → Prop
  | .found value => ∃ e, lib.exprOf value = some e ∧ after = some e
  | .deleted => after = none
  | .notFound => after = before

section Condition
variable (lib : Library) (key name : Bytes)

/-- The last `NewClassAd` or `DestroyClassAd` for the key, in records with the latest
first: whether it created the ad. -/
def lastLife : List LogRecord → Option Bool
  | [] => none
  | .newClassAd k _ _ :: rs => if k = key then some true else lastLife rs
  | .destroyClassAd k :: rs => if k = key then some false else lastLife rs
  | _ :: rs => lastLife rs

/-- The last record for the attribute, in records with the latest first: the value set,
or a deletion. -/
def lastEdit : List LogRecord → Option (Option Bytes)
  | [] => none
  | .setAttribute k n value _ :: rs =>
    if k = key ∧ sameIgnoringCase n name = true then some (some value) else lastEdit rs
  | .deleteAttribute k n :: rs =>
    if k = key ∧ sameIgnoringCase n name = true then some none else lastEdit rs
  | _ :: rs => lastEdit rs

/-- What the last record for the attribute says: the value it set, the deletion, or
without such a record the state before the transaction. -/
def EditTells (was after : Option ExprTree) : Option (Option Bytes) → Prop
  | some (some value) => ∃ e, lib.exprOf value = some e ∧ after = some e
  | some none => after = none
  | none => after = was

/-- The condition on the records for the key, latest first: a value that is the last word
on the attribute is an expression set on an ad that exists, and an ad that is created
starts with what the records before it say. -/
def Settled (before : Option (Option ExprTree)) : List LogRecord → Prop
  | [] => True
  | .newClassAd k mytype targettype :: rs =>
    if k = key then
      EditTells lib before.join ((CompatClassAd.typed lib mytype targettype).attr name)
        (lastEdit key name rs)
    else Settled before rs
  | .destroyClassAd k :: rs => k = key ∨ Settled before rs
  | .setAttribute k n value _ :: rs =>
    if k = key ∧ sameIgnoringCase n name = true then
      lastLife key rs = some false ∨
        (lastLife key rs = some true ∨ before ≠ none) ∧ n ≠ [] ∧ lib.exprOf value ≠ none
    else Settled before rs
  | .deleteAttribute k n :: rs => k = key ∧ sameIgnoringCase n name = true ∨ Settled before rs
  | _ :: rs => Settled before rs

end Condition

/-! The flags and the view after records, latest first. -/

def examinedAfter (key name : Bytes) (rs : List LogRecord) : Examined :=
  rs.foldr (fun r s => if r.key = key then s.examine name r else s) ⟨false, false, none⟩

theorem examineTransaction_eq (ops : List LogRecord) (key name : Bytes) :
    examineTransaction ops key name = examinedAfter key name ops.reverse := by
  unfold examineTransaction examinedAfter
  rw [List.foldl_filter, List.foldr_reverse]
  simp only [decide_eq_true_eq]

def viewAfter (lib : Library) (key name : Bytes) (before : Option (Option ExprTree))
    (rs : List LogRecord) : Option (Option ExprTree) :=
  rs.foldr (fun r seen => viewStep lib key name seen r) before

variable {lib : Library} {key name : Bytes} {before : Option (Option ExprTree)}

theorem examinedAfter_cons (r : LogRecord) (rs : List LogRecord) :
    examinedAfter key name (r :: rs) =
      if r.key = key then (examinedAfter key name rs).examine name r
      else examinedAfter key name rs := rfl

theorem viewAfter_cons (r : LogRecord) (rs : List LogRecord) :
    viewAfter lib key name before (r :: rs) =
      viewStep lib key name (viewAfter lib key name before rs) r := rfl

variable (rs : List LogRecord)

theorem examinedAfter_edit :
    (examinedAfter key name rs).valFound = (lastEdit key name rs).join ∧
      (examinedAfter key name rs).valDeleted = decide (lastEdit key name rs = some none) := by
  induction rs with
  | nil => exact ⟨rfl, rfl⟩
  | cons r rs ih =>
    rw [examinedAfter_cons]
    cases r with
    | setAttribute k n value isDirty =>
      by_cases here : k = key <;> by_cases same : sameIgnoringCase n name = true <;>
        simp [LogRecord.key, lastEdit, Examined.examine, here, same, ih]
    | deleteAttribute k n =>
      by_cases here : k = key <;> by_cases same : sameIgnoringCase n name = true <;>
        simp [LogRecord.key, lastEdit, Examined.examine, here, same, ih]
    | _ => split <;> exact ih

theorem examinedAfter_adDeleted :
    (examinedAfter key name rs).adDeleted = decide (lastLife key rs = some false) := by
  induction rs with
  | nil => rfl
  | cons r rs ih =>
    rw [examinedAfter_cons]
    cases r with
    | newClassAd k mytype targettype =>
      by_cases here : k = key <;> simp [LogRecord.key, lastLife, Examined.examine, here, ih]
    | destroyClassAd k =>
      by_cases here : k = key <;> simp [LogRecord.key, lastLife, Examined.examine, here, ih]
    | setAttribute k n value isDirty =>
      simp only [Examined.examine, lastLife]
      split
      · split <;> exact ih
      · exact ih
    | deleteAttribute k n =>
      simp only [Examined.examine, lastLife]
      split
      · split <;> exact ih
      · exact ih
    | _ => split <;> exact ih

/-- The ad exists if it was created last, or was there and never destroyed. -/
theorem viewAfter_eq_none :
    viewAfter lib key name before rs = none ↔
      lastLife key rs = some false ∨ lastLife key rs = none ∧ before = none := by
  induction rs with
  | nil => simp [viewAfter, lastLife]
  | cons r rs ih =>
    rw [viewAfter_cons]
    cases r with
    | newClassAd k mytype targettype =>
      by_cases here : k = key <;> simp [lastLife, viewStep, here, ih]
    | destroyClassAd k => by_cases here : k = key <;> simp [lastLife, viewStep, here, ih]
    | setAttribute k n value isDirty =>
      simp only [viewStep, lastLife]
      split
      · rw [Option.map_eq_none_iff, ih]
      · exact ih
    | deleteAttribute k n =>
      simp only [viewStep, lastLife]
      split
      · rw [Option.map_eq_none_iff, ih]
      · exact ih
    | _ => exact ih

/-- No ad has an attribute without a name. -/
theorem viewAfter_unnamed (unnamed : name = []) (nothing : before.join = none)
    (rs : List LogRecord) : (viewAfter lib key name before rs).join = none := by
  subst unnamed
  induction rs with
  | nil => exact nothing
  | cons r rs ih =>
    rw [viewAfter_cons]
    cases r with
    | newClassAd k mytype targettype =>
      have fresh : (CompatClassAd.typed lib mytype targettype).attr [] = none := by
        have apart : ∀ s, s ≠ [] → sameIgnoringCase s [] = false := by
          intro s nonempty
          rw [sameIgnoringCase_comm]
          exact eq_false_of_ne_true fun same => nonempty (sameIgnoringCase_nil.mp same)
        rw [CompatClassAd.attr_typed, apart _ (by decide), apart _ (by decide),
          apart _ (by decide)]
        simp
      simp only [viewStep, fresh]
      split
      · rfl
      · exact ih
    | destroyClassAd k =>
      simp only [viewStep]
      split
      · rfl
      · exact ih
    | setAttribute k n value isDirty =>
      have skipped : ¬(k = key ∧ n ≠ [] ∧ sameIgnoringCase n [] = true) := by
        rintro ⟨-, nonempty, same⟩
        rw [sameIgnoringCase_comm] at same
        exact nonempty (sameIgnoringCase_nil.mp same)
      rw [viewStep, if_neg skipped]
      exact ih
    | deleteAttribute k n =>
      simp only [viewStep]
      split
      · cases viewAfter lib key [] before rs <;> rfl
      · exact ih
    | _ => exact ih

variable {s : Examined}

/-- Without a destroyed ad the attribute's own flags decide the answer. -/
theorem tells_of_edit {edit : Option (Option Bytes)} (alive : s.adDeleted = false)
    (found : s.valFound = edit.join) (deleted : s.valDeleted = decide (edit = some none))
    (was after : Option ExprTree) :
    s.answer.Tells lib was after ↔ EditTells lib was after edit := by
  rw [Examined.answer, alive, found, deleted]
  rcases edit with _ | _ | value <;> rfl

theorem answer_of_adDeleted (gone : s.adDeleted = true) : s.answer = .deleted := by
  rw [Examined.answer, gone]
  rfl

theorem tells_set (proper : name = [] → before.join = none) {rs : List LogRecord} {n value : Bytes}
    {isDirty : Bool} (same : sameIgnoringCase n name = true) :
    (examinedAfter key name (.setAttribute key n value isDirty :: rs)).answer.Tells lib before.join
        (viewAfter lib key name before (.setAttribute key n value isDirty :: rs)).join ↔
      lastLife key rs = some false ∨
        (lastLife key rs = some true ∨ before ≠ none) ∧ n ≠ [] ∧ lib.exprOf value ≠ none := by
  have edit : lastEdit key name (.setAttribute key n value isDirty :: rs) = some (some value) :=
    if_pos ⟨rfl, same⟩
  have life : (examinedAfter key name (.setAttribute key n value isDirty :: rs)).adDeleted =
      decide (lastLife key rs = some false) := examinedAfter_adDeleted _
  have absent : viewAfter lib key name before rs = none ↔ _ := viewAfter_eq_none rs
  by_cases destroyed : lastLife key rs = some false
  · -- The record has no effect on an ad that is gone, and the answer says so.
    have gone := absent.mpr (.inl destroyed)
    rw [viewAfter_cons, gone, answer_of_adDeleted (life.trans (decide_eq_true destroyed))]
    refine iff_of_true ?_ (.inl destroyed)
    simp only [viewStep, Option.map_none, ite_self]
    rfl
  rw [tells_of_edit (life.trans (decide_eq_false destroyed)) (examinedAfter_edit _).1
    (examinedAfter_edit _).2, edit, or_iff_right destroyed, EditTells]
  by_cases unnamed : n = []
  · have nameless : name = [] := sameIgnoringCase_nil.mp (unnamed ▸ same)
    rw [viewAfter_unnamed nameless (proper nameless)]
    simp [unnamed]
  rw [viewAfter_cons, viewStep, if_pos ⟨rfl, unnamed, same⟩]
  cases seen : viewAfter lib key name before rs with
  | none =>
    obtain ⟨untouched, nowhere⟩ := (absent.mp seen).resolve_left destroyed
    simp [untouched, nowhere]
  | some old =>
    have alive : lastLife key rs = some true ∨ before ≠ none := by
      by_contra dead
      rw [not_or, not_not] at dead
      refine absurd (absent.mpr (.inr ⟨?_, dead.2⟩)) (by simp [seen])
      rcases last : lastLife key rs with _ | _ | _
      · rfl
      · exact absurd last destroyed
      · exact absurd last dead.1
    cases lib.exprOf value with
    | none => simp
    | some e => simp [alive, unnamed]

/-- The answer is right exactly under the condition. -/
theorem tells_iff_settled (proper : name = [] → before.join = none) (rs : List LogRecord) :
    (examinedAfter key name rs).answer.Tells lib before.join
        (viewAfter lib key name before rs).join ↔ Settled lib key name before rs := by
  induction rs with
  | nil => simp [examinedAfter, viewAfter, Examined.answer, Answer.Tells, Settled]
  | cons r rs ih =>
    cases r with
    | newClassAd k mytype targettype =>
      rw [examinedAfter_cons, viewAfter_cons, viewStep, Settled, LogRecord.key]
      by_cases here : k = key
      · rw [if_pos here, if_pos here, if_pos here]
        refine tells_of_edit rfl ?_ ?_ _ _
        · exact (examinedAfter_edit rs).1
        · exact (examinedAfter_edit rs).2
      · rw [if_neg here, if_neg here, if_neg here]
        exact ih
    | destroyClassAd k =>
      rw [examinedAfter_cons, viewAfter_cons, viewStep, Settled, LogRecord.key]
      by_cases here : k = key
      · rw [if_pos here, if_pos here, answer_of_adDeleted rfl]
        exact iff_of_true rfl (.inl here)
      · rw [if_neg here, if_neg here, ih]
        exact (or_iff_right here).symm
    | setAttribute k n value isDirty =>
      rw [Settled]
      split
      · next here =>
          obtain ⟨rfl, same⟩ := here
          exact tells_set proper same
      · next other =>
          have kept : examinedAfter key name (.setAttribute k n value isDirty :: rs) =
              examinedAfter key name rs := by
            rw [examinedAfter_cons]
            split
            · next here => exact if_neg fun same => other ⟨here, same⟩
            · rfl
          have unseen : ¬(k = key ∧ n ≠ [] ∧ sameIgnoringCase n name = true) :=
            fun all => other ⟨all.1, all.2.2⟩
          rw [kept, viewAfter_cons, viewStep, if_neg unseen]
          exact ih
    | deleteAttribute k n =>
      rw [examinedAfter_cons, viewAfter_cons, viewStep, Settled, LogRecord.key]
      by_cases all : k = key ∧ sameIgnoringCase n name = true
      · rw [if_pos all.1, if_pos all, Examined.examine, if_pos all.2, Examined.answer,
          Bool.or_true, if_pos rfl]
        refine iff_of_true ?_ (.inl all)
        cases viewAfter lib key name before rs <;> rfl
      · have kept : (if k = key then
            (examinedAfter key name rs).examine name (.deleteAttribute k n)
            else examinedAfter key name rs) = examinedAfter key name rs := by
          split
          · next here => exact if_neg fun same => all ⟨here, same⟩
          · rfl
        rw [kept, if_neg all, ih]
        exact (or_iff_right all).symm
    | _ =>
      rw [examinedAfter_cons]
      split <;> exact ih

theorem commitTransaction_table {log log' : ClassAdLog} {ops : List LogRecord}
    (active : log.activeTransaction = some ops) (committed : log.commitTransaction lib = .ok log') :
    log'.table = ops.foldl (LogRecord.play lib) log.table := by
  unfold ClassAdLog.commitTransaction at committed
  rw [active] at committed
  cases ops with
  | nil =>
    cases committed
    rfl
  | cons r ops =>
    obtain ⟨next, done, rfl⟩ := ok_of_map committed
    unfold ClassAdLog.commit at done
    simp only at done
    split at done
    · cases done
    · cases done
      rw [List.foldl_append]
      rfl

/-- A read through an open transaction agrees with the commit exactly if the last records
for the key are settled. -/
theorem lookup_agrees_iff {log log' : ClassAdLog} {ops : List LogRecord}
    (chained : log.table.Chained) (named : ∀ b ∈ log.table.buckets, b.value.attr [] = none)
    (active : log.activeTransaction = some ops) (fresh : AllFresh lib log.table ops)
    (committed : log.commitTransaction lib = .ok log') (key name : Bytes) :
    (log.lookupInTransaction key name).Tells lib (view log.table key name).join
        (view log'.table key name).join ↔
      Settled lib key name (view log.table key name) ops.reverse := by
  have proper : name = [] → (view log.table key name).join = none := by
    rintro rfl
    unfold view
    cases here : log.table.lookup key with
    | none => rfl
    | some ad =>
      obtain ⟨b, member, -, rfl⟩ := chained.lookup_eq_some_iff.mp here
      exact named b member
  have after : view log'.table key name =
      viewAfter lib key name (view log.table key name) ops.reverse := by
    rw [commitTransaction_table active committed, (playAll_view lib chained fresh).2, viewAfter,
      List.foldr_reverse]
  have answered : log.lookupInTransaction key name =
      (examinedAfter key name ops.reverse).answer := by
    rw [← examineTransaction_eq, ClassAdLog.lookupInTransaction, active]
  rw [after, answered]
  exact tells_iff_settled proper ops.reverse

/-- The queue with one job whose attribute `A` is 1, and an open transaction. -/
def openJob (ops : List LogRecord) : ClassAdLog where
  table := [.newClassAd (ascii "1.0") (ascii "Job") (ascii "Machine"),
    .setAttribute (ascii "1.0") (ascii "A") (ascii "1") false].foldl (LogRecord.play sampleLibrary)
      .empty
  activeTransaction := some (.beginTransaction :: ops)
  maxHistoricalLogs := 0
  historicalSequenceNumber := 1
  originalLogBirthdate := 0
  nondurableLevel := 0
  file := []

/-- The job is destroyed and created again: the read still finds its old attribute. -/
def recreated : List LogRecord :=
  [.destroyClassAd (ascii "1.0"), .newClassAd (ascii "1.0") (ascii "Job") (ascii "Machine")]

theorem recreated_job_keeps_attribute :
    AllFresh sampleLibrary (openJob recreated).table (.beginTransaction :: recreated) ∧
      (openJob recreated).lookupInTransaction (ascii "1.0") (ascii "A") = .notFound ∧
      (view (openJob recreated).table (ascii "1.0") (ascii "A")).join.isSome = true ∧
      ((openJob recreated).commitTransaction sampleLibrary).toOption.map
        (fun log' => (view log'.table (ascii "1.0") (ascii "A")).join.isSome) = some false := by
  decide +kernel

theorem openJob_chained (ops : List LogRecord) : (openJob ops).table.Chained :=
  (playAll_view sampleLibrary (HashTable.Chained.create _ _) (by decide +kernel)).1

def reset : List LogRecord := [.setAttribute (ascii "1.0") (ascii "a") (ascii "time()") false]

theorem lookup_agrees_iff_reset :
    ∃ log', (openJob reset).commitTransaction sampleLibrary = .ok log' ∧
      (openJob reset).lookupInTransaction (ascii "1.0") (ascii "A") = .found (ascii "time()") ∧
      (Answer.found (ascii "time()")).Tells sampleLibrary
        (view (openJob reset).table (ascii "1.0") (ascii "A")).join
        (view log'.table (ascii "1.0") (ascii "A")).join := by
  have answered : (openJob reset).lookupInTransaction (ascii "1.0") (ascii "A") =
      .found (ascii "time()") := by decide +kernel
  have named : ∀ b ∈ (openJob reset).table.buckets, b.value.attr [] = none := by decide +kernel
  have fresh : AllFresh sampleLibrary (openJob reset).table (.beginTransaction :: reset) := by
    decide +kernel
  have present : view (openJob reset).table (ascii "1.0") (ascii "A") ≠ none := by decide +kernel
  have settled : Settled sampleLibrary (ascii "1.0") (ascii "A")
      (view (openJob reset).table (ascii "1.0") (ascii "A"))
      (LogRecord.beginTransaction :: reset).reverse := by
    change if _ ∧ _ then _ else _
    rw [if_pos ⟨rfl, by decide⟩]
    exact .inr ⟨.inr present, by decide, by decide +kernel⟩
  refine ⟨_, rfl, answered, ?_⟩
  rw [← answered]
  exact (lookup_agrees_iff (openJob_chained reset) named rfl fresh rfl _ _).mpr settled

end Condor.TransactionLog
