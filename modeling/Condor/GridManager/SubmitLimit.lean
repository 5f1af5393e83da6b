import Condor.GridManager.JobRun
import Condor.Utils.Stdio

/-! All operations of `BaseResource` on its two job lists, in any order. The waiting list is
compared with an abstract first-in first-out queue. -/
namespace Condor.GridManager
open Condor.Lib Condor.Utils

def defaultMaxSubmittedJobs : Nat := 1000

def limitFor (resourceName : String) : Int → List String → Int
  | limit, name :: value :: rest =>
    limitFor resourceName (if name = resourceName then atoi (ascii value) else limit) rest
  | limit, _ => limit

/-- The limit that `Reconfig` reads; the parameter is the list of its words. -/
def configuredLimit (resourceName : String) (paramValue : Option (List String)) : Nat :=
  let jobLimit : Int := match paramValue with
    | some (first :: rest) => limitFor resourceName (atoi (ascii first)) rest
    | _ => -1
  if jobLimit ≤ 0 then defaultMaxSubmittedJobs else jobLimit.toNat

namespace BaseResource

def create : BaseResource := ⟨[], [], defaultMaxSubmittedJobs⟩

/-- The loop of `Reconfig`, with the jobs woken by `SetEvaluateState`. -/
def admitWanted (jobLimit : Nat) : List JobRef → List JobRef →
    List JobRef × List JobRef × List JobRef
  | allowed, [] => (allowed, [], [])
  | allowed, job :: wanted =>
    if allowed.length < jobLimit then
      let (allowed, wanted, woken) := admitWanted jobLimit (allowed ++ [job]) wanted
      (allowed, wanted, job :: woken)
    else (allowed, job :: wanted, [])

def reconfigure (r : BaseResource) (jobLimit : Nat) : BaseResource × List JobRef :=
  let (allowed, wanted, woken) := admitWanted jobLimit r.submitsAllowed r.submitsWanted
  (⟨wanted, allowed, jobLimit⟩, woken)

end BaseResource

inductive SlotInput where
  | requestSubmit (job : JobRef)
  | cancelSubmit (job : JobRef)
  | alreadySubmitted (job : JobRef)
  | unregisterJob (job : JobRef)
  | reconfig (paramValue : Option (List String))

namespace BaseResource

/-- An operation, with the jobs it wakes. `AlreadySubmitted` is for a job in neither list. -/
def operate (r : BaseResource) (resourceName : String) :
    SlotInput → Option (BaseResource × List JobRef)
  | .requestSubmit job => (r.requestSubmit job).map fun answer => (answer.2, [])
  | .cancelSubmit job => some ((r.cancelSubmit job).1, (r.cancelSubmit job).2.toList)
  | .alreadySubmitted job =>
    if job ∈ r.submitsAllowed ∨ job ∈ r.submitsWanted then none
    else some (r.alreadySubmitted job, [])
  -- `UnregisterJob` cancels first; its other lists do not matter here.
  | .unregisterJob job => some ((r.cancelSubmit job).1, (r.cancelSubmit job).2.toList)
  | .reconfig paramValue => some (r.reconfigure (configuredLimit resourceName paramValue))

end BaseResource

inductive QueueEvent where
  | queued (job : JobRef)
  | admitted (job : JobRef)
  | withdrawn (job : JobRef)
  deriving DecidableEq, Repr

namespace QueueEvent

/-- A first-in first-out queue refuses to admit any job but its first. -/
def apply (queue : List JobRef) : QueueEvent → Option (List JobRef)
  | .queued job => some (queue ++ [job])
  | .admitted job => if queue.head? = some job then some queue.tail else none
  | .withdrawn job => if job ∈ queue then some (queue.erase job) else none

def admittedJob : QueueEvent → Option JobRef
  | .admitted job => some job
  | _ => none

end QueueEvent

def fifo (events : List QueueEvent) : Option (List JobRef) := events.foldlM QueueEvent.apply []

/-- What an operation did to the waiting jobs, read off the lists before and after it. -/
def observe (r r' : BaseResource) : List QueueEvent :=
  (r.submitsWanted.filter (fun job => job ∈ r'.submitsAllowed)).map .admitted ++
    (r.submitsWanted.filter fun job => job ∉ r'.submitsWanted ∧ job ∉ r'.submitsAllowed).map
      .withdrawn ++
    (r'.submitsWanted.filter fun job => job ∉ r.submitsWanted).map .queued

structure Slots where
  resource : BaseResource
  events : List QueueEvent
  /-- The jobs on which `SetEvaluateState` was called. -/
  woken : List JobRef

namespace Slots

def create : Slots := ⟨.create, [], []⟩

def step (resourceName : String) (s : Slots) (input : SlotInput) : Option Slots :=
  (s.resource.operate resourceName input).map fun (r, woken) =>
    ⟨r, s.events ++ observe s.resource r, s.woken ++ woken⟩

abbrev Runs (resourceName : String) : Slots → List SlotInput → Slots → Prop :=
  Run (Takes (step resourceName))

end Slots

/-! ## The lists -/

namespace BaseResource
variable {r r' : BaseResource} {job : JobRef}

/-- No job is listed twice, and jobs wait only while the resource is full. -/
structure Fair (r : BaseResource) : Prop where
  nodup : (r.submitsAllowed ++ r.submitsWanted).Nodup
  full : r.submitsWanted ≠ [] → r.jobLimit ≤ r.submitsAllowed.length

theorem Fair.requestSubmit_ne_none (fair : Fair r) (job : JobRef) : r.requestSubmit job ≠ none := by
  simp only [requestSubmit]
  intro excepted
  split at excepted
  · cases excepted
  split at excepted
  · cases excepted
  split at excepted
  · next bad =>
      have := fair.full (List.ne_nil_of_length_pos bad.2)
      omega
  split at excepted <;> cases excepted

variable {granted : Bool} {input : SlotInput} {woken : List JobRef}

theorem requestSubmit_cases (h : r.requestSubmit job = some (granted, r')) :
    r' = r ∨
      (job ∉ r.submitsWanted ∧ job ∉ r.submitsAllowed ∧ r.submitsAllowed.length < r.jobLimit ∧
        r' = { r with submitsAllowed := r.submitsAllowed ++ [job] }) ∨
      (job ∉ r.submitsWanted ∧ job ∉ r.submitsAllowed ∧ r.jobLimit ≤ r.submitsAllowed.length ∧
        r' = { r with submitsWanted := r.submitsWanted ++ [job] }) := by
  simp only [requestSubmit] at h
  split at h
  · cases h
    exact Or.inl rfl
  next notWanted =>
  split at h
  · cases h
    exact Or.inl rfl
  next notAllowed =>
  split at h
  · cases h
  split at h
  · next free =>
      cases h
      exact Or.inr (Or.inl ⟨notWanted, notAllowed, free, rfl⟩)
  · next noFree =>
      cases h
      exact Or.inr (Or.inr ⟨notWanted, notAllowed, Nat.le_of_not_lt noFree, rfl⟩)

/-- `CancelSubmit` frees a slot, which may go to the first waiting job, or takes the
job from the waiting list. -/
theorem cancelSubmit_cases (r : BaseResource) (job : JobRef) :
    (∃ first rest, job ∈ r.submitsAllowed ∧ r.submitsWanted = first :: rest ∧
      (r.submitsAllowed.erase job).length < r.jobLimit ∧
      r.cancelSubmit job = (⟨rest, r.submitsAllowed.erase job ++ [first], r.jobLimit⟩,
        some first)) ∨
    (job ∈ r.submitsAllowed ∧
      (r.submitsWanted ≠ [] → r.jobLimit ≤ (r.submitsAllowed.erase job).length) ∧
      r.cancelSubmit job = ({ r with submitsAllowed := r.submitsAllowed.erase job }, none)) ∨
    (job ∉ r.submitsAllowed ∧
      r.cancelSubmit job = ({ r with submitsWanted := r.submitsWanted.erase job }, none)) := by
  by_cases allowed : job ∈ r.submitsAllowed
  · simp only [cancelSubmit, deleteJob, allowed, decide_true]
    cases wanted : r.submitsWanted with
    | nil => exact Or.inr (Or.inl ⟨trivial, fun waits => absurd rfl waits, rfl⟩)
    | cons first rest =>
      by_cases free : (r.submitsAllowed.erase job).length < r.jobLimit
      · refine Or.inl ⟨first, rest, trivial, rfl, free, ?_⟩
        simp only [if_pos free]
      · refine Or.inr (Or.inl ⟨trivial, fun _ => Nat.le_of_not_lt free, ?_⟩)
        simp only [if_neg free]
  · refine Or.inr (Or.inr ⟨allowed, ?_⟩)
    simp only [cancelSubmit, deleteJob, allowed, decide_false]

/-- The loop of `Reconfig` moves the first waiting jobs, wakes them and stops when
nobody waits or the limit is reached. -/
theorem admitWanted_spec (jobLimit : Nat) (allowed wanted : List JobRef) :
    ∃ moved rest, wanted = moved ++ rest ∧
      admitWanted jobLimit allowed wanted = (allowed ++ moved, rest, moved) ∧
      (rest ≠ [] → jobLimit ≤ (allowed ++ moved).length) := by
  induction wanted generalizing allowed with
  | nil => exact ⟨[], [], rfl, by simp [admitWanted], fun waits => absurd rfl waits⟩
  | cons job wanted ih =>
    rw [admitWanted]
    split
    · obtain ⟨moved, rest, split, loop, full⟩ := ih (allowed ++ [job])
      refine ⟨job :: moved, rest, by rw [split, List.cons_append], ?_, ?_⟩
      · simp only [loop, List.append_assoc, List.singleton_append]
      · simpa only [List.append_assoc, List.singleton_append] using full
    · next noFree =>
        refine ⟨[], job :: wanted, rfl, by simp, fun _ => ?_⟩
        simpa using noFree

/-! ## Operations keep the lists fair -/

theorem Fair.moved {moved rest allowed : List JobRef} {jobLimit : Nat}
    (nodup : (r.submitsAllowed ++ r.submitsWanted).Nodup)
    (split : r.submitsWanted = moved ++ rest) (fewer : allowed.Sublist r.submitsAllowed)
    (full : rest ≠ [] → jobLimit ≤ (allowed ++ moved).length) :
    Fair ⟨rest, allowed ++ moved, jobLimit⟩ := by
  refine ⟨?_, full⟩
  rw [split] at nodup
  simp only [List.append_assoc]
  exact nodup.sublist (fewer.append_right _)

theorem Fair.cancelSubmit (fair : Fair r) (job : JobRef) : Fair (r.cancelSubmit job).1 := by
  rcases cancelSubmit_cases r job with ⟨first, rest, allowed, wanted, free, result⟩ |
    ⟨allowed, full, result⟩ | ⟨notAllowed, result⟩
  · rw [result]
    have split : r.submitsWanted = [first] ++ rest := wanted
    refine Fair.moved fair.nodup split List.erase_sublist ?_
    intro _
    have before := fair.full (by simp [wanted])
    have one := List.length_erase_of_mem allowed
    rw [List.length_append, List.length_singleton]
    omega
  · rw [result]
    exact ⟨fair.nodup.sublist (List.erase_sublist.append_right _), full⟩
  · rw [result]
    refine ⟨fair.nodup.sublist (List.erase_sublist.append_left _), ?_⟩
    intro waits
    apply fair.full
    rintro none
    exact waits (by simp [none])

theorem Fair.admit (fair : Fair r) (notWanted : job ∉ r.submitsWanted)
    (notAllowed : job ∉ r.submitsAllowed) :
    Fair { r with submitsAllowed := r.submitsAllowed ++ [job] } := by
  refine ⟨?_, fun waits => ?_⟩
  · simp only [List.append_assoc, List.singleton_append]
    rw [List.nodup_middle, List.nodup_cons]
    exact ⟨by simp [notWanted, notAllowed], fair.nodup⟩
  · have := fair.full waits
    simp only [List.length_append, List.length_singleton]
    omega

theorem Fair.operate {resourceName : String} (fair : Fair r)
    (h : r.operate resourceName input = some (r', woken)) : Fair r' := by
  cases input with
  | requestSubmit job =>
    obtain ⟨⟨granted, r₁⟩, asked, same⟩ := Option.map_eq_some_iff.mp h
    cases same
    rcases requestSubmit_cases asked with rfl | ⟨notWanted, notAllowed, free, rfl⟩ |
      ⟨notWanted, notAllowed, noFree, rfl⟩
    · exact fair
    · exact fair.admit notWanted notAllowed
    · refine ⟨?_, fun _ => noFree⟩
      rw [← List.append_assoc, List.nodup_append]
      refine ⟨fair.nodup, List.nodup_singleton job, ?_⟩
      intro a member b last
      rw [List.mem_singleton.mp last]
      rintro rfl
      rcases List.mem_append.mp member with allowed | wanted
      · exact notAllowed allowed
      · exact notWanted wanted
  | cancelSubmit job =>
    cases h
    exact fair.cancelSubmit job
  | alreadySubmitted job =>
    rw [BaseResource.operate] at h
    split at h
    · cases h
    · next fresh =>
        cases h
        rw [not_or] at fresh
        exact fair.admit fresh.2 fresh.1
  | unregisterJob job =>
    cases h
    exact fair.cancelSubmit job
  | reconfig paramValue =>
    obtain ⟨moved, rest, split, loop, full⟩ := admitWanted_spec
      (configuredLimit resourceName paramValue) r.submitsAllowed r.submitsWanted
    simp only [BaseResource.operate, reconfigure, loop, Option.some.injEq, Prod.mk.injEq] at h
    rw [← h.1]
    exact Fair.moved fair.nodup split (List.Sublist.refl _) full

theorem requestSubmit_within_limit (h : r.requestSubmit job = some (granted, r'))
    (more : r.submitsAllowed.length < r'.submitsAllowed.length) :
    r'.submitsAllowed.length ≤ r.jobLimit := by
  rcases requestSubmit_cases h with rfl | ⟨-, -, free, rfl⟩ | ⟨-, -, -, rfl⟩
  · exact absurd more (Nat.lt_irrefl _)
  · simp only [List.length_append, List.length_singleton]
    omega
  · exact absurd more (Nat.lt_irrefl _)

/-! ## Waiting jobs -/

theorem Fair.wanted_not_allowed (fair : Fair r) (wanted : job ∈ r.submitsWanted) :
    job ∉ r.submitsAllowed := fun allowed =>
  List.disjoint_of_nodup_append fair.nodup allowed wanted

inductive Change (r r' : BaseResource) (woken : List JobRef) : Prop
  | moved (split : r.submitsWanted = woken ++ r'.submitsWanted)
      (which : ∀ job ∈ r.submitsWanted, job ∈ r'.submitsAllowed ↔ job ∈ woken)
  | queued (job : JobRef) (fresh : job ∉ r.submitsWanted)
      (allowed : r'.submitsAllowed = r.submitsAllowed)
      (wanted : r'.submitsWanted = r.submitsWanted ++ [job]) (nobody : woken = [])
  | withdrawn (job : JobRef) (waiting : job ∈ r.submitsWanted)
      (allowed : r'.submitsAllowed = r.submitsAllowed)
      (wanted : r'.submitsWanted = r.submitsWanted.erase job) (nobody : woken = [])

theorem Fair.cancelSubmit_change (fair : Fair r) (job : JobRef) :
    Change r (r.cancelSubmit job).1 (r.cancelSubmit job).2.toList := by
  rcases cancelSubmit_cases r job with ⟨first, rest, allowed, wanted, free, result⟩ |
    ⟨allowed, full, result⟩ | ⟨notAllowed, result⟩
  · rw [result]
    refine .moved wanted ?_
    intro other waiting
    simp [mt List.mem_of_mem_erase (fair.wanted_not_allowed waiting)]
  · rw [result]
    refine .moved rfl ?_
    intro other waiting
    simp [mt List.mem_of_mem_erase (fair.wanted_not_allowed waiting)]
  · rw [result]
    by_cases waiting : job ∈ r.submitsWanted
    · exact .withdrawn job waiting rfl rfl rfl
    · refine .moved ?_ fun other waits => ?_
      · simp [List.erase_of_not_mem waiting]
      · simp [fair.wanted_not_allowed waits]

theorem Fair.operate_change {resourceName : String} (fair : Fair r)
    (h : r.operate resourceName input = some (r', woken)) : Change r r' woken := by
  cases input with
  | requestSubmit job =>
    obtain ⟨⟨granted, r₁⟩, asked, same⟩ := Option.map_eq_some_iff.mp h
    cases same
    rcases requestSubmit_cases asked with rfl | ⟨notWanted, notAllowed, free, rfl⟩ |
      ⟨notWanted, notAllowed, noFree, rfl⟩
    · exact .moved rfl fun other waits => by simp [fair.wanted_not_allowed waits]
    · refine .moved rfl fun other waits => ?_
      have different : other ≠ job := by
        rintro rfl
        exact notWanted waits
      simp [fair.wanted_not_allowed waits, different]
    · exact .queued job notWanted rfl rfl rfl
  | cancelSubmit job =>
    cases h
    exact fair.cancelSubmit_change job
  | alreadySubmitted job =>
    rw [BaseResource.operate] at h
    split at h
    · cases h
    · next fresh =>
        cases h
        refine .moved rfl fun other waits => ?_
        have different : other ≠ job := by
          rintro rfl
          exact fresh (Or.inr waits)
        simp [alreadySubmitted, fair.wanted_not_allowed waits, different]
  | unregisterJob job =>
    cases h
    exact fair.cancelSubmit_change job
  | reconfig paramValue =>
    obtain ⟨moved, rest, split, loop, -⟩ := admitWanted_spec
      (configuredLimit resourceName paramValue) r.submitsAllowed r.submitsWanted
    simp only [BaseResource.operate, reconfigure, loop, Option.some.injEq, Prod.mk.injEq] at h
    obtain ⟨rfl, rfl⟩ := h
    refine .moved split fun other waits => ?_
    simp [fair.wanted_not_allowed waits]

end BaseResource

variable {r r' : BaseResource}

theorem observe_moved {moved : List JobRef} (nodup : r.submitsWanted.Nodup)
    (split : r.submitsWanted = moved ++ r'.submitsWanted)
    (which : ∀ job ∈ r.submitsWanted, job ∈ r'.submitsAllowed ↔ job ∈ moved) :
    observe r r' = moved.map .admitted := by
  have apart : ∀ job ∈ r'.submitsWanted, job ∉ moved := by
    rw [split] at nodup
    exact fun job waits member => List.disjoint_of_nodup_append nodup member waits
  have admitted : r.submitsWanted.filter (fun job => job ∈ r'.submitsAllowed) = moved := by
    have same : r.submitsWanted.filter (fun job => job ∈ r'.submitsAllowed) =
        r.submitsWanted.filter (fun job => job ∈ moved) :=
      List.filter_congr fun job waits => by simp [which job waits]
    rw [same, split, List.filter_append, List.filter_eq_self.mpr (by simp),
      List.filter_eq_nil_iff.mpr (by simpa using apart), List.append_nil]
  have withdrawn : r.submitsWanted.filter
      (fun job => job ∉ r'.submitsWanted ∧ job ∉ r'.submitsAllowed) = [] := by
    refine List.filter_eq_nil_iff.mpr fun job waits => ?_
    have here := waits
    rw [split, List.mem_append] at here
    simp only [decide_eq_true_eq, not_and, not_not]
    intro gone
    exact (which job waits).mpr (here.resolve_right gone)
  have queued : r'.submitsWanted.filter (fun job => job ∉ r.submitsWanted) = [] := by
    refine List.filter_eq_nil_iff.mpr fun job waits => ?_
    simp [split, waits]
  rw [observe, admitted, withdrawn, queued]
  simp

theorem foldlM_admitted (moved rest : List JobRef) :
    (moved.map QueueEvent.admitted).foldlM QueueEvent.apply (moved ++ rest) = some rest := by
  induction moved with
  | nil => rfl
  | cons job moved ih =>
    rw [List.map_cons, List.foldlM_cons]
    simpa [QueueEvent.apply] using ih

theorem filterMap_admitted (moved : List JobRef) :
    (moved.map QueueEvent.admitted).filterMap QueueEvent.admittedJob = moved := by
  induction moved with
  | nil => rfl
  | cons job moved ih => simpa [QueueEvent.admittedJob] using ih

theorem filter_admitted_nil (fair : r.Fair) (allowed : r'.submitsAllowed = r.submitsAllowed) :
    r.submitsWanted.filter (fun job => job ∈ r'.submitsAllowed) = [] := by
  refine List.filter_eq_nil_iff.mpr fun other waits => ?_
  simpa [allowed] using fair.wanted_not_allowed waits

theorem observe_queued {job : JobRef} (fair : r.Fair) (fresh : job ∉ r.submitsWanted)
    (allowed : r'.submitsAllowed = r.submitsAllowed)
    (wanted : r'.submitsWanted = r.submitsWanted ++ [job]) : observe r r' = [.queued job] := by
  have admitted := filter_admitted_nil fair allowed
  have withdrawn : r.submitsWanted.filter
      (fun job => job ∉ r'.submitsWanted ∧ job ∉ r'.submitsAllowed) = [] := by
    refine List.filter_eq_nil_iff.mpr fun other waits => ?_
    simp [wanted, waits]
  have queued : r'.submitsWanted.filter (fun job => job ∉ r.submitsWanted) = [job] := by
    rw [wanted, List.filter_append, List.filter_eq_nil_iff.mpr (by simp),
      List.filter_eq_self.mpr (by simpa using fresh), List.nil_append]
  rw [observe, admitted, withdrawn, queued]
  rfl

theorem observe_withdrawn {job : JobRef} (fair : r.Fair) (waiting : job ∈ r.submitsWanted)
    (allowed : r'.submitsAllowed = r.submitsAllowed)
    (wanted : r'.submitsWanted = r.submitsWanted.erase job) : observe r r' = [.withdrawn job] := by
  have nodup := fair.nodup.of_append_right
  have admitted := filter_admitted_nil fair allowed
  have withdrawn : r.submitsWanted.filter
      (fun job => job ∉ r'.submitsWanted ∧ job ∉ r'.submitsAllowed) = [job] := by
    have same : r.submitsWanted.filter
        (fun job => job ∉ r'.submitsWanted ∧ job ∉ r'.submitsAllowed) =
          r.submitsWanted.filter (· == job) := by
      refine List.filter_congr fun other waits => ?_
      have outside := fair.wanted_not_allowed waits
      rw [Bool.eq_iff_iff]
      simp [wanted, allowed, outside, nodup.mem_erase_iff, waits]
    rw [same, List.filter_beq, List.count_eq_one_of_mem nodup waiting, List.replicate_one]
  have queued : r'.submitsWanted.filter (fun job => job ∉ r.submitsWanted) = [] := by
    refine List.filter_eq_nil_iff.mpr fun other waits => ?_
    rw [wanted] at waits
    simp [List.mem_of_mem_erase waits]
  rw [observe, admitted, withdrawn, queued]
  rfl

/-- The abstract queue follows the waiting list, and admits the jobs that are woken. -/
theorem BaseResource.Change.fifo {woken : List JobRef} (fair : r.Fair) (change : r.Change r' woken)
    :
    (observe r r').foldlM QueueEvent.apply r.submitsWanted = some r'.submitsWanted ∧
      (observe r r').filterMap QueueEvent.admittedJob = woken := by
  have nodup := fair.nodup.of_append_right
  cases change with
  | moved split which =>
    rw [observe_moved nodup split which, split]
    exact ⟨foldlM_admitted woken r'.submitsWanted, filterMap_admitted woken⟩
  | queued job fresh allowed wanted nobody =>
    rw [observe_queued fair fresh allowed wanted, nobody, wanted]
    exact ⟨rfl, rfl⟩
  | withdrawn job waiting allowed wanted nobody =>
    rw [observe_withdrawn fair waiting allowed wanted, nobody, wanted]
    refine ⟨?_, rfl⟩
    rw [List.foldlM_cons, QueueEvent.apply, if_pos waiting]
    rfl

/-! ## Runs -/

namespace Slots
variable {resourceName : String} {s t : Slots}

structure Inv (s : Slots) : Prop where
  fair : s.resource.Fair
  order : fifo s.events = some s.resource.submitsWanted
  woken : s.events.filterMap QueueEvent.admittedJob = s.woken

theorem Inv.step {input : SlotInput} (inv : Inv s) (h : Takes (step resourceName) s input t) :
    Inv t := by
  obtain ⟨⟨r, woken⟩, operated, rfl⟩ := Option.map_eq_some_iff.mp h
  obtain ⟨order, admitted⟩ := (inv.fair.operate_change operated).fifo inv.fair
  refine ⟨inv.fair.operate operated, ?_, ?_⟩
  · have before := inv.order
    rw [fifo] at before ⊢
    rw [List.foldlM_append, before]
    exact order
  · rw [List.filterMap_append, inv.woken, admitted]

/-- In every run of the operations: no job is listed twice, jobs wait only while the
resource is full, `RequestSubmit` never EXCEPTs and never exceeds the limit, and
waiting jobs are admitted and woken in the order in which they asked. -/
theorem submit_limit_exact {inputs : List SlotInput} (run : Runs resourceName create inputs s) :
    (s.resource.submitsAllowed ++ s.resource.submitsWanted).Nodup ∧
      (s.resource.submitsWanted ≠ [] → s.resource.jobLimit ≤ s.resource.submitsAllowed.length) ∧
      (∀ job, s.resource.requestSubmit job ≠ none) ∧
      (∀ job granted r', s.resource.requestSubmit job = some (granted, r') →
        s.resource.submitsAllowed.length < r'.submitsAllowed.length →
        r'.submitsAllowed.length ≤ s.resource.jobLimit) ∧
      fifo s.events = some s.resource.submitsWanted ∧
      s.events.filterMap QueueEvent.admittedJob = s.woken := by
  have start : Inv create := ⟨⟨List.nodup_nil, fun waits => absurd rfl waits⟩, rfl, rfl⟩
  have inv := run.invariant start fun _ _ _ inv taken => inv.step taken
  refine ⟨inv.fair.nodup, inv.fair.full, inv.fair.requestSubmit_ne_none, ?_, inv.order, inv.woken⟩
  intro job granted r' asked more
  exact BaseResource.requestSubmit_within_limit asked more

/-- The limit is lowered to one, two jobs wait, and the first of them gets the slot. -/
def narrowInputs : List SlotInput :=
  [.requestSubmit 1, .reconfig (some ["1"]), .requestSubmit 2, .requestSubmit 3, .cancelSubmit 1]

theorem submit_limit_exact_narrow :
    ∃ s, Runs "resource" create narrowInputs s ∧
      s.resource = ⟨[3], [2], 1⟩ ∧ s.events = [.queued 2, .queued 3, .admitted 2] ∧ s.woken = [2] ∧
      (s.resource.submitsAllowed ++ s.resource.submitsWanted).Nodup ∧
      fifo s.events = some s.resource.submitsWanted := by
  have ran : (execute (step "resource") create narrowInputs).map
      (fun s => (s.resource, s.events, s.woken)) =
        some (⟨[3], [2], 1⟩, [.queued 2, .queued 3, .admitted 2], [2]) := by
    decide +kernel
  obtain ⟨s, ended, found⟩ := Option.map_eq_some_iff.mp ran
  obtain ⟨resource, events, woken⟩ : s.resource = _ ∧ s.events = _ ∧ s.woken = _ := by
    simpa only [Prod.mk.injEq] using found
  have run : Runs "resource" create narrowInputs s := .of_execute ended
  obtain ⟨nodup, -, -, -, order, -⟩ := submit_limit_exact run
  exact ⟨s, run, resource, events, woken, nodup, order⟩

end Slots
end Condor.GridManager
