import Condor.Utils.CheckEvents
import Condor.Utils.HashTable

/-! `CheckEvents` judges every event, and every job once more at the end. Without any of the ALLOW_
flags it accepts a stream exactly when the events of every job come in their order. -/
namespace Condor.Utils
open CheckEvents

def hashFuncJobID (key : CondorID) : Nat :=
  let result : BitVec 32 := .ofInt 32 (key.cluster * 29) ^^^ .ofInt 32 (key.proc * 7) ^^^
    .ofInt 32 key.subproc
  (if result.slt 0 then -result else result).toNat

/-- `CheckEvents` with its hash table; the counts are reached through pointers. -/
structure EventChecker where
  allowEvents : AllowEvents
  jobHash : HashTable CondorID JobInfo

namespace EventChecker

def create (allow : AllowEvents) : EventChecker :=
  ⟨allow, .create hashFuncJobID .rejectDuplicateKeys⟩

def entryFor (c : EventChecker) (id : CondorID) : Bool × HashTable CondorID JobInfo :=
  match c.jobHash.lookup id with
  | some _ => (true, c.jobHash)
  | none => c.jobHash.insert id {}

def checkAnEvent (c : EventChecker) (event : ULogEvent) : Result × EventChecker :=
  match c.entryFor event.id with
  | (false, table) => (.error, { c with jobHash := table })
  | (true, table) =>
    let info := ((table.lookup event.id).getD {}).count event.body
    (check c.allowEvents event.id info event.body,
      { c with jobHash := table.assign event.id info })

def checkAllJobs (c : EventChecker) : Result :=
  c.jobHash.buckets.foldl
    (fun result entry => checkJobFinal c.allowEvents entry.index entry.value result) .okay

def checkEvents (c : EventChecker) : List ULogEvent → List Result × EventChecker
  | [] => ([], c)
  | event :: events =>
    let (result, c) := c.checkAnEvent event
    let (results, c) := c.checkEvents events
    (result :: results, c)

def Accepts (c : EventChecker) (events : List ULogEvent) : Prop :=
  (∀ result ∈ (c.checkEvents events).1, result = .okay) ∧
    (c.checkEvents events).2.checkAllJobs = .okay

/-! ## The table and the counts -/

def view (c : EventChecker) : CheckEvents :=
  ⟨c.allowEvents, fun id => (c.jobHash.lookup id).getD {}⟩

variable {c : EventChecker} {event : ULogEvent} {events : List ULogEvent} {id : CondorID}

theorem view_jobHash (c : EventChecker) (id : CondorID) :
    c.view.jobHash id = (c.jobHash.lookup id).getD {} := rfl

theorem entryFor_lookup (chained : c.jobHash.Chained) (id : CondorID) :
    (c.entryFor id).1 = true ∧ (c.entryFor id).2.Chained ∧
      ∀ k, (c.entryFor id).2.lookup k =
        if k = id then some (c.view.jobHash id) else c.jobHash.lookup k := by
  cases found : c.jobHash.lookup id with
  | some info =>
    have entry : c.entryFor id = (true, c.jobHash) := by rw [entryFor, found]
    rw [entry]
    refine ⟨rfl, chained, fun k => ?_⟩
    split
    · next here => rw [here, found, view_jobHash, found, Option.getD_some]
    · rfl
  | none =>
    have entry : c.entryFor id = c.jobHash.insert id {} := by rw [entryFor, found]
    rw [entry, view_jobHash, found, Option.getD_none]
    exact chained.insert_absent found {}

/-- An event counts for its own job only. -/
theorem checkAnEvent_lookup (chained : c.jobHash.Chained) (event : ULogEvent) :
    (c.checkAnEvent event).1 = check c.allowEvents event.id
        ((c.view.jobHash event.id).count event.body) event.body ∧
      (c.checkAnEvent event).2.allowEvents = c.allowEvents ∧
      (c.checkAnEvent event).2.jobHash.Chained ∧
      ∀ k, (c.checkAnEvent event).2.jobHash.lookup k =
        if k = event.id then some ((c.view.jobHash event.id).count event.body)
        else c.jobHash.lookup k := by
  obtain ⟨inserted, chained', lookup⟩ := entryFor_lookup chained event.id
  rw [checkAnEvent]
  generalize c.entryFor event.id = entry at inserted chained' lookup
  obtain ⟨added, table⟩ := entry
  cases inserted
  have mine : table.lookup event.id = some (c.view.jobHash event.id) := by
    rw [lookup, if_pos rfl]
  simp only [mine, Option.getD_some]
  refine ⟨trivial, trivial, chained'.assign _ _, fun k => ?_⟩
  rw [HashTable.lookup_assign, mine, lookup]
  split <;> rfl

theorem checkAnEvent_refines (chained : c.jobHash.Chained) (event : ULogEvent) :
    (c.checkAnEvent event).1 = (c.view.checkAnEvent event).1 ∧
      (c.checkAnEvent event).2.view = (c.view.checkAnEvent event).2 := by
  obtain ⟨result, allowed, -, lookup⟩ := checkAnEvent_lookup chained event
  refine ⟨result, ?_⟩
  rw [view, CheckEvents.checkAnEvent, CheckEvents.mk.injEq]
  refine ⟨allowed, ?_⟩
  funext k
  rw [lookup]
  by_cases here : k = event.id
  · rw [if_pos here, here, Function.update_self, Option.getD_some]
  · rw [if_neg here, Function.update_of_ne here]
    rfl

/-! ## The events of one job -/

def bodiesOf (id : CondorID) (events : List ULogEvent) : List ULogEventBody :=
  (events.filter fun event => decide (event.id = id)).map ULogEvent.body

theorem bodiesOf_cons_self (event : ULogEvent) (events : List ULogEvent) :
    bodiesOf event.id (event :: events) = event.body :: bodiesOf event.id events := by
  have mine : decide (event.id = event.id) = true := decide_eq_true rfl
  rw [bodiesOf, List.filter_cons, if_pos mine, List.map_cons, bodiesOf]

theorem bodiesOf_cons_of_ne (other : event.id ≠ id) :
    bodiesOf id (event :: events) = bodiesOf id events := by
  have foreign : ¬decide (event.id = id) = true := fun same => other (of_decide_eq_true same)
  rw [bodiesOf, List.filter_cons, if_neg foreign, bodiesOf]

theorem bodiesOf_eq_nil : bodiesOf id events = [] ↔ ∀ event ∈ events, event.id ≠ id := by
  rw [bodiesOf, List.map_eq_nil_iff, List.filter_eq_nil_iff]
  simp only [decide_eq_true_eq, ne_eq]

def Judged (allow : AllowEvents) (id : CondorID) : JobInfo → List ULogEventBody → Prop
  | _, [] => True
  | info, body :: bodies =>
    check allow id (info.count body) body = .okay ∧ Judged allow id (info.count body) bodies

/-- The checks of a log are the checks of its jobs. -/
theorem checkEvents_judged (chained : c.jobHash.Chained) (events : List ULogEvent) :
    ((∀ result ∈ (c.checkEvents events).1, result = .okay) ↔
      ∀ id, Judged c.allowEvents id (c.view.jobHash id) (bodiesOf id events)) ∧
      (c.checkEvents events).2.allowEvents = c.allowEvents ∧
      (c.checkEvents events).2.jobHash.Chained ∧
      ∀ id, (c.checkEvents events).2.jobHash.lookup id =
        if bodiesOf id events = [] then c.jobHash.lookup id
        else some ((bodiesOf id events).foldl JobInfo.count (c.view.jobHash id)) := by
  induction events generalizing c with
  | nil =>
    refine ⟨⟨fun _ _ => trivial, fun _ => ?_⟩, rfl, chained, fun id => rfl⟩
    intro result member
    cases member
  | cons event events ih =>
    obtain ⟨verdict, allow, chained', lookup⟩ := checkAnEvent_lookup chained event
    generalize checked : c.checkAnEvent event = outcome at verdict allow chained' lookup
    obtain ⟨result, c'⟩ := outcome
    dsimp only at verdict allow chained' lookup
    have mine : c'.view.jobHash event.id = (c.view.jobHash event.id).count event.body := by
      rw [view_jobHash, lookup, if_pos rfl, Option.getD_some]
    have others : ∀ id, event.id ≠ id → c'.view.jobHash id = c.view.jobHash id := by
      intro id other
      rw [view_jobHash, lookup, if_neg other.symm, view_jobHash]
    obtain ⟨judged, allow', chained'', lookup'⟩ := ih chained'
    have unfolded : c.checkEvents (event :: events) =
        (result :: (c'.checkEvents events).1, (c'.checkEvents events).2) := by
      simp only [checkEvents, checked]
    rw [unfolded]
    refine ⟨?_, allow'.trans allow, chained'', fun id => ?_⟩
    · rw [List.forall_mem_cons, judged, verdict, allow]
      constructor
      · rintro ⟨okay, rest⟩ id
        by_cases here : event.id = id
        · subst here
          rw [bodiesOf_cons_self]
          exact ⟨okay, mine ▸ rest event.id⟩
        · rw [bodiesOf_cons_of_ne here, ← others id here]
          exact rest id
      · intro all
        have own := all event.id
        rw [bodiesOf_cons_self] at own
        refine ⟨own.1, fun id => ?_⟩
        by_cases here : event.id = id
        · subst here
          rw [mine]
          exact own.2
        · have rest := all id
          rwa [bodiesOf_cons_of_ne here, ← others id here] at rest
    · rw [lookup']
      by_cases here : event.id = id
      · subst here
        rw [bodiesOf_cons_self, if_neg (List.cons_ne_nil _ _), List.foldl_cons, ← mine]
        split
        · next none => rw [none, lookup, if_pos rfl, List.foldl_nil, mine]
        · rfl
      · rw [bodiesOf_cons_of_ne here, lookup, if_neg (Ne.symm here), others id here]

/-! ## What is found in order

The flags decide what becomes of an event that is not in order, not whether it is. -/

section Okay
variable {allow : AllowEvents} {info : JobInfo} {result : Result}

theorem ite_okay {p : Prop} [Decidable p] {bad : Result} (h : bad ≠ .okay) :
    (if p then bad else result) = .okay ↔ ¬p ∧ result = .okay := by
  split
  · next met => exact ⟨fun okay => absurd okay h, fun both => absurd met both.1⟩
  · next unmet => exact ⟨fun okay => ⟨unmet, okay⟩, fun both => both.2⟩

theorem badOr_ne_okay (allowed : Bool) : badOr allowed ≠ .okay := by
  cases allowed <;> decide

theorem warnOr_ne_okay (allowed : Bool) : warnOr allowed ≠ .okay := by
  cases allowed <;> decide

theorem endCountResult_ne_okay : endCountResult allow info ≠ .okay := by
  have bad : Result.badEvent ≠ .okay := by decide
  simp only [endCountResult, ne_eq, ite_okay bad, reduceCtorEq, and_false, not_false_eq_true]

theorem finalCountResult_ne_okay : finalCountResult allow info ≠ .okay := by
  have bad : Result.badEvent ≠ .okay := by decide
  simp only [finalCountResult, ne_eq, ite_okay bad, reduceCtorEq, and_false, not_false_eq_true]

theorem checkJobSubmit_okay : checkJobSubmit allow info .okay = .okay ↔
    info.totalEndCount = 0 ∧ info.submitCount = 1 := by
  simp only [checkJobSubmit, ite_okay (badOr_ne_okay _), ne_eq, not_not, and_true]

theorem checkJobExecute_okay : checkJobExecute allow info .okay = .okay ↔
    info.totalEndCount = 0 ∧ 1 ≤ info.submitCount := by
  simp only [checkJobExecute, ite_okay (badOr_ne_okay _), ite_okay (warnOr_ne_okay _), ne_eq,
    not_not, Nat.not_lt, and_true]

theorem checkJobEnd_okay : checkJobEnd allow info .okay = .okay ↔
    info.postScriptCount = 0 ∧ info.totalEndCount = 1 ∧ 1 ≤ info.submitCount := by
  simp only [checkJobEnd, ite_okay (badOr_ne_okay _), ite_okay (warnOr_ne_okay _),
    ite_okay endCountResult_ne_okay, ne_eq, not_not, Nat.not_lt, and_true]

theorem checkPostTerm_okay (real : id ≠ noSubmitId) : checkPostTerm allow id info .okay = .okay ↔
    info.postScriptCount ≤ 1 ∧ 1 ≤ info.totalEndCount ∧ 1 ≤ info.submitCount := by
  simp only [checkPostTerm, real, false_and, if_false, ite_okay (badOr_ne_okay _), Nat.not_lt,
    and_true]

theorem checkJobFinal_okay (real : id ≠ noSubmitId) (single : id.subproc = 0) :
    checkJobFinal allow id info .okay = .okay ↔
      info.postScriptCount ≤ 1 ∧ info.totalEndCount = 1 ∧ info.submitCount = 1 := by
  simp only [checkJobFinal, real, false_and, if_false, single, ne_eq, not_true_eq_false,
    ite_okay (badOr_ne_okay _), ite_okay finalCountResult_ne_okay, not_not, Nat.not_lt, and_true]

/-- A judgement that is not in order stays so. -/
theorem okay_of_checkJobFinal (h : checkJobFinal allow id info result = .okay) :
    result = .okay := by
  simp only [checkJobFinal] at h
  split at h
  · exact h
  · split at h
    · exact h
    · rw [ite_okay (badOr_ne_okay _), ite_okay finalCountResult_ne_okay,
        ite_okay (badOr_ne_okay _)] at h
      exact h.2.2.2

end Okay

theorem checkAllJobs_okay (chained : c.jobHash.Chained) :
    c.checkAllJobs = .okay ↔ ∀ id info, c.jobHash.lookup id = some info →
      checkJobFinal c.allowEvents id info .okay = .okay := by
  have folded : ∀ (entries : List (HashBucket CondorID JobInfo)) (result : Result),
      entries.foldl (fun result entry =>
        checkJobFinal c.allowEvents entry.index entry.value result) result = .okay ↔
      result = .okay ∧ ∀ entry ∈ entries,
        checkJobFinal c.allowEvents entry.index entry.value .okay = .okay := by
    intro entries
    induction entries with
    | nil =>
      intro result
      simp only [List.foldl_nil, List.not_mem_nil, false_implies, implies_true, and_true]
    | cons entry entries ih =>
      intro result
      rw [List.foldl_cons, ih, List.forall_mem_cons]
      constructor
      · rintro ⟨here, rest⟩
        have okay := okay_of_checkJobFinal here
        subst okay
        exact ⟨rfl, here, rest⟩
      · rintro ⟨rfl, here, rest⟩
        exact ⟨here, rest⟩
  rw [checkAllJobs, folded]
  constructor
  · rintro ⟨-, all⟩ id info found
    obtain ⟨entry, member, rfl, rfl⟩ := chained.lookup_eq_some_iff.mp found
    exact all entry member
  · intro all
    refine ⟨rfl, fun entry member => all entry.index entry.value ?_⟩
    exact chained.lookup_eq_some_iff.mpr ⟨entry, member, rfl, rfl⟩

/-! ## The order of the events of a job -/

def Counted : ULogEventBody → Bool
  | .submit _ => true
  | .execute => true
  | .jobTerminated .. => true
  | .jobAborted => true
  | .postScriptTerminated .. => true
  | _ => false

def Ends : ULogEventBody → Bool
  | .jobTerminated .. => true
  | .jobAborted => true
  | _ => false

def Posts : ULogEventBody → Bool
  | .postScriptTerminated .. => true
  | _ => false

/-- One submit, then executes, then one end, then at most one end of a POST script. -/
inductive InOrder : List ULogEventBody → Prop
  | mk (dagNode : Option String) {executes posts : List ULogEventBody} {ended : ULogEventBody}
      (executing : ∀ body ∈ executes, body = .execute) (ends : Ends ended = true)
      (posting : ∀ body ∈ posts, Posts body = true) (once : posts.length ≤ 1) :
      InOrder (.submit dagNode :: (executes ++ ended :: posts))

inductive Progress where
  | unseen
  | running
  | ended
  | posted
  deriving DecidableEq, Repr

def Progress.step : Progress → ULogEventBody → Option Progress
  | .unseen, .submit _ => some .running
  | .running, .execute => some .running
  | .running, .jobTerminated .. => some .ended
  | .running, .jobAborted => some .ended
  | .ended, .postScriptTerminated .. => some .posted
  | progress, body => if Counted body then none else some progress

def Progress.Tallies : Progress → JobInfo → Prop
  | .unseen, info => info.submitCount = 0 ∧ info.totalEndCount = 0 ∧ info.postScriptCount = 0
  | .running, info => info.submitCount = 1 ∧ info.totalEndCount = 0 ∧ info.postScriptCount = 0
  | .ended, info => info.submitCount = 1 ∧ info.totalEndCount = 1 ∧ info.postScriptCount = 0
  | .posted, info => info.submitCount = 1 ∧ info.totalEndCount = 1 ∧ info.postScriptCount = 1

section Progress
variable {progress next : Progress} {body : ULogEventBody} {bodies : List ULogEventBody}
  {info : JobInfo}

/-- An event is found in order exactly when it takes the job on its way. -/
theorem Progress.Tallies.step {allow : AllowEvents} (tallies : progress.Tallies info)
    (real : id ≠ noSubmitId) (body : ULogEventBody) :
    (∃ next, progress.step body = some next ∧ next.Tallies (info.count body) ∧
      check allow id (info.count body) body = .okay) ∨
    progress.step body = none ∧ check allow id (info.count body) body ≠ .okay := by
  cases body with
  | submit dagNode =>
    simp only [check, checkJobSubmit_okay, JobInfo.count, JobInfo.totalEndCount, ne_eq]
    cases progress <;> simp_all [Progress.step, Progress.Tallies, JobInfo.totalEndCount, Counted]
  | execute =>
    simp only [check, checkJobExecute_okay, JobInfo.count, ne_eq]
    cases progress <;> simp_all [Progress.step, Progress.Tallies, Counted]
  | jobTerminated normal returnValue signalNumber =>
    simp only [check, checkJobEnd_okay, JobInfo.count, JobInfo.totalEndCount, ne_eq]
    cases progress <;> simp_all [Progress.step, Progress.Tallies, JobInfo.totalEndCount, Counted]
    omega
  | jobAborted =>
    simp only [check, checkJobEnd_okay, JobInfo.count, JobInfo.totalEndCount, ne_eq]
    cases progress <;> simp_all [Progress.step, Progress.Tallies, JobInfo.totalEndCount, Counted]
    omega
  | postScriptTerminated normal returnValue signalNumber name =>
    simp only [check, checkPostTerm_okay real, JobInfo.count, JobInfo.totalEndCount, ne_eq]
    cases progress <;> simp_all [Progress.step, Progress.Tallies, JobInfo.totalEndCount, Counted]
  | executableError | jobEvicted | jobSuspended | shadowException | jobHeld | jobReleased
  | other =>
    cases progress <;> exact Or.inl ⟨_, rfl, tallies, rfl⟩

/-- The events of a job are found in order exactly when they take it on its way. -/
theorem Progress.Tallies.foldlM {allow : AllowEvents} (tallies : progress.Tallies info)
    (real : id ≠ noSubmitId) (bodies : List ULogEventBody) :
    (∃ final, bodies.foldlM Progress.step progress = some final ∧
      final.Tallies (bodies.foldl JobInfo.count info) ∧ Judged allow id info bodies) ∨
    bodies.foldlM Progress.step progress = none ∧ ¬Judged allow id info bodies := by
  induction bodies generalizing progress info with
  | nil => exact Or.inl ⟨progress, rfl, tallies, trivial⟩
  | cons body bodies ih =>
    rw [Judged, List.foldlM_cons, List.foldl_cons]
    rcases tallies.step real body with ⟨next, moved, tallies', okay⟩ | ⟨stuck, bad⟩
    · rw [moved]
      rcases ih tallies' with ⟨final, way, tallies'', judged⟩ | ⟨stuck, unjudged⟩
      · exact Or.inl ⟨final, way, tallies'', okay, judged⟩
      · exact Or.inr ⟨stuck, fun both => unjudged both.2⟩
    · rw [stuck]
      exact Or.inr ⟨rfl, fun both => bad both.1⟩

theorem Progress.Tallies.final {allow : AllowEvents} (tallies : progress.Tallies info)
    (real : id ≠ noSubmitId) (single : id.subproc = 0) :
    checkJobFinal allow id info .okay = .okay ↔ progress = .ended ∨ progress = .posted := by
  rw [checkJobFinal_okay real single]
  cases progress with
  | unseen | running | ended | posted =>
    obtain ⟨submits, ends, posts⟩ := tallies
    simp [submits, ends, posts]

theorem Progress.step_of_not_counted (uncounted : Counted body = false) :
    progress.step body = some progress := by
  cases body with
  | submit | execute | jobTerminated | jobAborted | postScriptTerminated => cases uncounted
  | executableError | jobEvicted | jobSuspended | shadowException | jobHeld | jobReleased
  | other => cases progress <;> rfl

theorem foldlM_step_filter : (bodies.filter Counted).foldlM Progress.step progress =
    bodies.foldlM Progress.step progress := by
  induction bodies generalizing progress with
  | nil => rfl
  | cons body bodies ih =>
    cases counted : Counted body with
    | false =>
      rw [List.filter_cons, counted, if_neg Bool.false_ne_true, List.foldlM_cons,
        Progress.step_of_not_counted counted, ih]
      rfl
    | true =>
      rw [List.filter_cons, if_pos counted, List.foldlM_cons, List.foldlM_cons]
      simp only [ih]

theorem Progress.step_cases (counted : Counted body = true)
    (h : progress.step body = some next) :
    (progress = .unseen ∧ next = .running ∧ ∃ dagNode, body = .submit dagNode) ∨
      (progress = .running ∧ next = .running ∧ body = .execute) ∨
      (progress = .running ∧ next = .ended ∧ Ends body = true) ∨
      (progress = .ended ∧ next = .posted ∧ Posts body = true) := by
  cases body with
  | submit dagNode =>
    cases progress <;> cases h
    exact Or.inl ⟨rfl, rfl, dagNode, rfl⟩
  | execute =>
    cases progress <;> cases h
    exact Or.inr (Or.inl ⟨rfl, rfl, rfl⟩)
  | jobTerminated | jobAborted =>
    cases progress <;> cases h
    exact Or.inr (Or.inr (Or.inl ⟨rfl, rfl, rfl⟩))
  | postScriptTerminated =>
    cases progress <;> cases h
    exact Or.inr (Or.inr (Or.inr ⟨rfl, rfl, rfl⟩))
  | executableError | jobEvicted | jobSuspended | shadowException | jobHeld | jobReleased
  | other => cases counted

theorem foldlM_posted {final : Progress} (counted : ∀ body ∈ bodies, Counted body = true)
    (h : bodies.foldlM Progress.step .posted = some final) : bodies = [] := by
  cases bodies with
  | nil => rfl
  | cons body bodies =>
    obtain ⟨next, moved, -⟩ := Option.bind_eq_some_iff.mp h
    rcases Progress.step_cases (counted body List.mem_cons_self) moved with
      ⟨wrong, -⟩ | ⟨wrong, -⟩ | ⟨wrong, -⟩ | ⟨wrong, -⟩ <;> cases wrong

theorem foldlM_ended {final : Progress} (counted : ∀ body ∈ bodies, Counted body = true)
    (h : bodies.foldlM Progress.step .ended = some final) :
    (∀ body ∈ bodies, Posts body = true) ∧ bodies.length ≤ 1 := by
  cases bodies with
  | nil => exact ⟨fun body member => (List.not_mem_nil member).elim, Nat.zero_le 1⟩
  | cons body bodies =>
    obtain ⟨next, moved, rest⟩ := Option.bind_eq_some_iff.mp h
    rcases Progress.step_cases (counted body List.mem_cons_self) moved with
      ⟨wrong, -⟩ | ⟨wrong, -⟩ | ⟨wrong, -⟩ | ⟨-, rfl, posts⟩
    · cases wrong
    · cases wrong
    · cases wrong
    · have none : bodies = [] :=
        foldlM_posted (fun body member => counted body (List.mem_cons_of_mem _ member)) rest
      subst none
      refine ⟨fun body' member => ?_, Nat.le_refl 1⟩
      rw [List.mem_singleton.mp member]
      exact posts

theorem foldlM_running {final : Progress} (counted : ∀ body ∈ bodies, Counted body = true)
    (h : bodies.foldlM Progress.step .running = some final) (done : final ≠ .running) :
    ∃ executes ended posts, bodies = executes ++ ended :: posts ∧
      (∀ body ∈ executes, body = .execute) ∧ Ends ended = true ∧
      (∀ body ∈ posts, Posts body = true) ∧ posts.length ≤ 1 := by
  induction bodies with
  | nil =>
    cases h
    exact absurd rfl done
  | cons body bodies ih =>
    have counted' := fun body member => counted body (List.mem_cons_of_mem _ member)
    obtain ⟨next, moved, rest⟩ := Option.bind_eq_some_iff.mp h
    rcases Progress.step_cases (counted body List.mem_cons_self) moved with
      ⟨wrong, -⟩ | ⟨-, rfl, rfl⟩ | ⟨-, rfl, ends⟩ | ⟨wrong, -⟩
    · cases wrong
    · obtain ⟨executes, ended, posts, rfl, executing, others⟩ := ih counted' rest
      refine ⟨.execute :: executes, ended, posts, rfl, ?_, others⟩
      exact List.forall_mem_cons.mpr ⟨rfl, executing⟩
    · obtain ⟨posting, once⟩ := foldlM_ended counted' rest
      exact ⟨[], body, bodies, rfl, fun body member => (List.not_mem_nil member).elim, ends,
        posting, once⟩
    · cases wrong

theorem foldlM_executes {executes : List ULogEventBody}
    (executing : ∀ body ∈ executes, body = .execute) :
    executes.foldlM Progress.step .running = some .running := by
  induction executes with
  | nil => rfl
  | cons body executes ih =>
    obtain ⟨rfl, rest⟩ := List.forall_mem_cons.mp executing
    exact ih rest

theorem foldlM_posts {posts : List ULogEventBody} (posting : ∀ body ∈ posts, Posts body = true)
    (once : posts.length ≤ 1) : ∃ final, posts.foldlM Progress.step .ended = some final ∧
      (final = .ended ∨ final = .posted) := by
  cases posts with
  | nil => exact ⟨.ended, rfl, Or.inl rfl⟩
  | cons body posts =>
    have none : posts = [] :=
      List.eq_nil_of_length_eq_zero (Nat.le_zero.mp (Nat.le_of_succ_le_succ once))
    subst none
    refine ⟨.posted, ?_, Or.inr rfl⟩
    have posts := posting body List.mem_cons_self
    cases body with
    | postScriptTerminated => rfl
    | submit | execute | executableError | jobEvicted | jobSuspended | shadowException
    | jobHeld | jobReleased | jobAborted | jobTerminated | other => cases posts

/-- The way of a job that has ended is the order of its events. -/
theorem inOrder_iff (counted : ∀ body ∈ bodies, Counted body = true) :
    InOrder bodies ↔ ∃ final, bodies.foldlM Progress.step .unseen = some final ∧
      (final = .ended ∨ final = .posted) := by
  constructor
  · rintro ⟨dagNode, executing, ends, posting, once⟩
    obtain ⟨final, way, finished⟩ := foldlM_posts posting once
    refine ⟨final, ?_, finished⟩
    rename_i executes posts ended
    have last : Progress.step .running ended = some .ended := by
      cases ended with
      | jobTerminated | jobAborted => rfl
      | submit | execute | executableError | jobEvicted | jobSuspended | shadowException
      | jobHeld | jobReleased | postScriptTerminated | other => cases ends
    change (executes ++ ended :: posts).foldlM Progress.step .running = some final
    rw [List.foldlM_append, foldlM_executes executing]
    change (ended :: posts).foldlM Progress.step .running = some final
    rw [List.foldlM_cons, last]
    exact way
  · rintro ⟨final, way, finished⟩
    cases bodies with
    | nil =>
      cases way
      rcases finished with wrong | wrong <;> cases wrong
    | cons body bodies =>
      obtain ⟨next, moved, rest⟩ := Option.bind_eq_some_iff.mp way
      rcases Progress.step_cases (counted body List.mem_cons_self) moved with
        ⟨-, rfl, dagNode, rfl⟩ | ⟨wrong, -⟩ | ⟨wrong, -⟩ | ⟨wrong, -⟩
      · have running : final ≠ .running := by
          rcases finished with rfl | rfl <;> decide
        obtain ⟨executes, ended, posts, rfl, executing, ends, posting, once⟩ :=
          foldlM_running (fun body member => counted body (List.mem_cons_of_mem _ member)) rest
            running
        exact .mk dagNode executing ends posting once
      · cases wrong
      · cases wrong
      · cases wrong

/-- A job is found in order, event by event and at the end, when its events are. -/
theorem judged_final_iff {allow : AllowEvents} (real : id ≠ noSubmitId) (single : id.subproc = 0) :
    (Judged allow id {} bodies ∧
      checkJobFinal allow id (bodies.foldl JobInfo.count {}) .okay = .okay) ↔
      InOrder (bodies.filter Counted) := by
  have start : Progress.Tallies .unseen {} := ⟨rfl, rfl, rfl⟩
  rw [inOrder_iff fun body member => (List.mem_filter.mp member).2, foldlM_step_filter]
  rcases start.foldlM real bodies with ⟨final, way, tallies, judged⟩ | ⟨stuck, unjudged⟩
  · rw [way, tallies.final real single]
    constructor
    · exact fun both => ⟨final, rfl, both.2⟩
    · rintro ⟨_, same, finished⟩
      cases same
      exact ⟨judged, finished⟩
  · rw [stuck]
    refine ⟨fun both => absurd both.1 unjudged, ?_⟩
    rintro ⟨final, none, -⟩
    cases none

end Progress

theorem exists_of_bodiesOf (occurs : bodiesOf id events ≠ []) :
    ∃ event ∈ events, event.id = id := by
  by_contra none
  refine occurs (bodiesOf_eq_nil.mpr fun event member same => ?_)
  exact none ⟨event, member, same⟩

/-- Whatever the flags, a stream is accepted exactly when the events of every job in it
come in their order. -/
theorem accepts_iff_inOrder {allow : AllowEvents} {events : List ULogEvent}
    (jobs : ∀ event ∈ events, event.id.subproc = 0 ∧ event.id ≠ noSubmitId) :
    (create allow).Accepts events ↔
      ∀ event ∈ events, InOrder ((bodiesOf event.id events).filter Counted) := by
  have chained : (create allow).jobHash.Chained := .create hashFuncJobID .rejectDuplicateKeys
  obtain ⟨judged, allow', chained', lookup⟩ := checkEvents_judged chained events
  have fresh : ∀ id, (create allow).jobHash.lookup id = none := fun id => rfl
  rw [Accepts, judged, checkAllJobs_okay chained', allow']
  constructor
  · rintro ⟨each, final⟩ event member
    obtain ⟨single, real⟩ := jobs event member
    have occurs : bodiesOf event.id events ≠ [] :=
      fun none => bodiesOf_eq_nil.mp none event member rfl
    refine (judged_final_iff real single).mp ⟨each event.id, final event.id _ ?_⟩
    rw [lookup, if_neg occurs]
    rfl
  · intro inOrder
    have fine : ∀ event ∈ events, Judged allow event.id {} (bodiesOf event.id events) ∧
        checkJobFinal allow event.id ((bodiesOf event.id events).foldl JobInfo.count {}) .okay =
          .okay := by
      intro event member
      obtain ⟨single, real⟩ := jobs event member
      exact (judged_final_iff real single).mpr (inOrder event member)
    refine ⟨fun id => ?_, fun id info found => ?_⟩
    · by_cases occurs : bodiesOf id events = []
      · rw [occurs]
        trivial
      · obtain ⟨event, member, rfl⟩ := exists_of_bodiesOf occurs
        exact (fine event member).1
    · rw [lookup] at found
      split at found
      · rw [fresh] at found
        cases found
      · next occurs =>
          obtain ⟨event, member, rfl⟩ := exists_of_bodiesOf occurs
          cases found
          exact (fine event member).2

/-- After any log, an event is judged by the events of its own job alone. -/
theorem verdict_of_own_events (allow : AllowEvents) (before : List ULogEvent) (event : ULogEvent) :
    (((create allow).checkEvents before).2.checkAnEvent event).1 = check allow event.id
      ((bodiesOf event.id (before ++ [event])).foldl JobInfo.count {}) event.body := by
  have start : (create allow).jobHash.Chained := .create hashFuncJobID .rejectDuplicateKeys
  obtain ⟨-, allow', chained, lookup⟩ := checkEvents_judged start before
  rw [(checkAnEvent_lookup chained event).1, allow', view_jobHash, lookup]
  have last : bodiesOf event.id (before ++ [event]) = bodiesOf event.id before ++ [event.body] := by
    simp [bodiesOf]
  rw [last, List.foldl_append]
  split
  · next none =>
      rw [none]
      rfl
  · rfl

def twoJobs : List ULogEvent :=
  [⟨⟨7, 0, 0⟩, .submit (some "A")⟩, ⟨⟨8, 0, 0⟩, .submit (some "B")⟩, ⟨⟨7, 0, 0⟩, .execute⟩,
    ⟨⟨8, 0, 0⟩, .jobAborted⟩, ⟨⟨7, 0, 0⟩, .jobTerminated true 0 0⟩,
    ⟨⟨7, 0, 0⟩, .postScriptTerminated true 0 0 "A"⟩]

theorem accepts_iff_inOrder_two : (create {}).Accepts twoJobs ∧
    ∀ event ∈ twoJobs, InOrder ((bodiesOf event.id twoJobs).filter Counted) := by
  have accepts : (create {}).Accepts twoJobs := ⟨by decide +kernel, by decide +kernel⟩
  exact ⟨accepts, (accepts_iff_inOrder (by decide)).mp accepts⟩

end EventChecker
end Condor.Utils
