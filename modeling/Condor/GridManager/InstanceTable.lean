import Condor.GridManager.JobFrame
import Condor.Lib.Index

/-! The jobs and the table that finds them by the key `url#id`. The destructor inserts the job once
more where it should take it out, so the table stays right as long as only jobs without an id are
destroyed and the keys can be told apart. -/
namespace Condor.GridManager
open Condor.Lib Condor.Utils

structure JobStore where
  jobs : List DCloudJob
  jobsByInstanceId : HashTable String JobRef

inductive StoreInput where
  /-- `new DCloudJob`; an object is never created where a live one is. -/
  | create (self : JobRef) (ad : JobAd) (resubmit gahpDefined : Bool) (time : Int)
      (resource : BaseResource)
  | setInstanceId (job : JobRef) (id : Option String) (time : Int)
  | destroy (job : JobRef)

/-- `JobsByInstanceId.insert( url#id, this )`, for a job that has an id. -/
def DCloudJob.enter (j : DCloudJob) (table : HashTable String JobRef) : HashTable String JobRef :=
  match j.instanceId with
  | some id => (table.insert (instanceKey j.serviceUrl id) j.self).2
  | none => table

/-- The edit of the table in `~DCloudJob`, which inserts the job. -/
def DCloudJob.destruct (j : DCloudJob) (table : HashTable String JobRef) :
    HashTable String JobRef :=
  j.enter table

namespace JobStore

def find (s : JobStore) (job : JobRef) : Option DCloudJob := s.jobs.find? (·.self = job)

def step (s : JobStore) : StoreInput → Option JobStore
  | .create self ad resubmit gahpDefined time resource =>
    match s.find self with
    | some _ => none
    | none =>
      let w := World.construct self ad resubmit gahpDefined time resource s.jobsByInstanceId
      some ⟨w.job :: s.jobs, w.jobsByInstanceId⟩
  | .setInstanceId job id time =>
    (s.find job).map fun j =>
      ⟨s.jobs.map fun k => if k.self = job then k.setInstanceId id time else k,
        j.rekey s.jobsByInstanceId id⟩
  | .destroy job =>
    (s.find job).map fun j =>
      ⟨s.jobs.filter fun k => k.self ≠ job, j.destruct s.jobsByInstanceId⟩

def empty (hashF : String → Nat) : JobStore := ⟨[], .create hashF .rejectDuplicateKeys⟩

def Exact (s : JobStore) : Prop :=
  ∀ url id ref, s.jobsByInstanceId.lookup (instanceKey url id) = some ref ↔
    ∃ j ∈ s.jobs, j.self = ref ∧ j.serviceUrl = url ∧ j.instanceId = some id

/-- The jobs that `StartBatchStatus` of a resource gives a status to. -/
def deliveries (s : JobStore) (resourceName : String) (listing : List (String × String)) :
    List (JobRef × String) :=
  listing.filterMap fun (id, status) =>
    (s.jobsByInstanceId.lookup (instanceKey (some resourceName) id)).map fun job => (job, status)

/-- Each listed instance of a live job reaches that job, and nothing else is delivered. -/
def Delivers (s : JobStore) : Prop :=
  ∀ resourceName listing ref status, (ref, status) ∈ s.deliveries resourceName listing ↔
    ∃ id, (id, status) ∈ listing ∧
      ∃ j ∈ s.jobs, j.self = ref ∧ j.serviceUrl = some resourceName ∧ j.instanceId = some id

theorem Exact.delivers {s : JobStore} (h : s.Exact) : s.Delivers := by
  intro resourceName listing ref status
  unfold deliveries
  rw [List.mem_filterMap]
  constructor
  · rintro ⟨⟨id, st⟩, member, found⟩
    obtain ⟨job, here, same⟩ := Option.map_eq_some_iff.mp found
    cases same
    exact ⟨id, member, (h (some resourceName) id ref).mp here⟩
  · rintro ⟨id, member, live⟩
    refine ⟨(id, status), member, Option.map_eq_some_iff.mpr ⟨ref, ?_, rfl⟩⟩
    exact (h (some resourceName) id ref).mpr live

/-- No job with that URL and that id, other than the one at `job`. -/
def Unshared (s : JobStore) (job : JobRef) (url : Option String) (id : String) : Prop :=
  ∀ k ∈ s.jobs, k.self ≠ job → k.serviceUrl = url → k.instanceId ≠ some id

def gains (s : JobStore) : StoreInput → Option (JobRef × Option String × String)
  | .create self ad resubmit gahpDefined time resource =>
    let w := World.construct self ad resubmit gahpDefined time resource s.jobsByInstanceId
    w.job.instanceId.map fun id => (self, w.job.serviceUrl, id)
  | .setInstanceId job id _ =>
    match s.find job, id with
    | some j, some id => some (job, j.serviceUrl, id)
    | _, _ => none
  | .destroy _ => none

/-- No two live jobs share service URL and instance id. -/
def Apart (s : JobStore) (input : StoreInput) : Prop :=
  ∀ gained ∈ s.gains input, s.Unshared gained.1 gained.2.1 gained.2.2

end JobStore

/-- A key that determines URL and id: there is a URL, and neither part has the
separator or reads like the text of a NULL URL. -/
def Readable (url : Option String) (id : String) : Prop :=
  ∃ u ∈ url, '#' ∉ u.toList ∧ u ≠ "(null)" ∧ '#' ∉ id.toList

/-- The condition on a step: only a job without an id is destroyed, and new keys are
readable. -/
def JobStore.Tidy (s : JobStore) (input : StoreInput) : Prop :=
  (∀ gained ∈ s.gains input, Readable gained.2.1 gained.2.2) ∧
    match input with
    | .destroy job => ∀ j ∈ s.find job, j.instanceId = none
    | _ => True

variable {url : Option String} {id : String}

theorem Readable.determines (readable : Readable url id) {url' : Option String} {id' : String}
    (same : instanceKey url' id' = instanceKey url id) :
    url' = url ∧ id' = id := by
  obtain ⟨u, here, noHash, notNull, plain⟩ := readable
  have here : url = some u := here
  subst here
  have texts : u.toList ++ '#' :: id.toList = (url'.getD "(null)").toList ++ '#' :: id'.toList := by
    have chars := congrArg String.toList same
    simpa [instanceKey, String.toList_append] using chars.symm
  obtain ⟨urls, -, ids⟩ := (List.append_cons_inj_of_notMem noHash plain).mp texts
  have ids : id = id' := String.toList_inj.mp ids
  have urls : u = url'.getD "(null)" := String.toList_inj.mp urls
  cases url' with
  | none => exact absurd urls notNull
  | some u' => exact ⟨congrArg some urls.symm, ids.symm⟩

namespace JobStore

def held (s : JobStore) (job : JobRef) : Option (Option String × String) :=
  (s.find job).bind fun j => j.instanceId.map fun id => (j.serviceUrl, id)

def keyOf (thing : Option String × String) : String := instanceKey thing.1 thing.2

structure Keeps (table : HashTable String JobRef)
    (held : JobRef → Option (Option String × String)) : Prop where
  chained : table.Chained
  reject : table.duplicateKeyBehavior = .rejectDuplicateKeys
  indexes : Indexes keyOf table.lookup held

structure Indexed (s : JobStore) : Prop where
  refs : (s.jobs.map DCloudJob.self).Nodup
  readable : ∀ job thing, s.held job = some thing → Readable thing.1 thing.2
  keeps : Keeps s.jobsByInstanceId s.held

variable {s : JobStore}
variable {j : DCloudJob} {table : HashTable String JobRef}

theorem find_eq_some (refs : (s.jobs.map DCloudJob.self).Nodup) (member : j ∈ s.jobs) :
    s.find j.self = some j := by
  unfold find
  cases found : s.jobs.find? (fun k => decide (k.self = j.self)) with
  | none =>
    have absent := List.find?_eq_none.mp found j member
    simp at absent
  | some k =>
    have same : k.self = j.self := by simpa using List.find?_some found
    have kMember := List.mem_of_find?_eq_some found
    rw [List.inj_on_of_nodup_map refs kMember member same]

variable {job : JobRef}

theorem find_spec (found : s.find job = some j) : j ∈ s.jobs ∧ j.self = job :=
  ⟨List.mem_of_find?_eq_some found, by simpa using List.find?_some found⟩

theorem held_eq_some_iff (refs : (s.jobs.map DCloudJob.self).Nodup) : s.held job = some (url, id) ↔
      ∃ j ∈ s.jobs, j.self = job ∧ j.serviceUrl = url ∧ j.instanceId = some id := by
  unfold held
  rw [Option.bind_eq_some_iff]
  constructor
  · rintro ⟨j, found, has⟩
    obtain ⟨i, known, same⟩ := Option.map_eq_some_iff.mp has
    cases same
    obtain ⟨member, self⟩ := find_spec found
    exact ⟨j, member, self, rfl, known⟩
  · rintro ⟨j, member, rfl, rfl, known⟩
    exact ⟨j, find_eq_some refs member, by rw [known]; rfl⟩

theorem Indexed.exact (h : s.Indexed) : s.Exact := fun url id ref =>
  (h.keeps.indexes (url, id) ref).trans (held_eq_some_iff h.refs)

theorem Unshared.free (refs : (s.jobs.map DCloudJob.self).Nodup) (h : s.Unshared job url id)
    {other : JobRef} (away : other ≠ job) : s.held other ≠ some (url, id) := by
  intro holds
  obtain ⟨j, member, rfl, same, known⟩ := (held_eq_some_iff refs).mp holds
  exact h j member away same known

theorem indexed_empty (hashF : String → Nat) : (empty hashF).Indexed where
  refs := List.nodup_nil
  readable := nofun
  keeps := ⟨.create hashF .rejectDuplicateKeys, rfl, fun _ _ => iff_of_false nofun nofun⟩

/-- The first half of `SetInstanceId`: the old key goes. -/
def unkey (j : DCloudJob) (table : HashTable String JobRef) : HashTable String JobRef :=
  match j.instanceId with
  | some old => (table.remove (instanceKey j.serviceUrl old)).2
  | none => table

theorem rekey_eq (j : DCloudJob) (table : HashTable String JobRef) (id : Option String) :
    j.rekey table id = match id with
      | some new => ((unkey j table).insert (instanceKey j.serviceUrl new) j.self).2
      | none => unkey j table := rfl

variable {held : JobRef → Option (Option String × String)}

theorem unkey_keeps (h : Keeps table held) (j : DCloudJob)
    (mine : held j.self = j.instanceId.map fun id => (j.serviceUrl, id))
    (readable : ∀ old ∈ j.instanceId, Readable j.serviceUrl old) :
    Keeps (unkey j table) (Function.update held j.self none) := by
  unfold unkey
  cases known : j.instanceId with
  | none =>
    rw [known] at mine
    rw [Function.update_eq_self_iff.mpr mine.symm]
    exact h
  | some old =>
    rw [known] at mine
    have gone := h.chained.remove (instanceKey j.serviceUrl old)
    refine ⟨gone.1, (table.remove_duplicateKeyBehavior _).trans h.reject, ?_⟩
    refine h.indexes.release mine (fun other same => ?_) gone.2
    have parts := (readable old known).determines same
    exact Prod.ext parts.1 parts.2

theorem insert_keeps (h : Keeps table held) (nothing : held job = none) (readable : Readable url id)
    (free : ∀ other, held other ≠ some (url, id)) :
    Keeps (table.insert (instanceKey url id) job).2
      (Function.update held job (some (url, id))) := by
  have added := h.chained.insert_reject h.reject (instanceKey url id) job
  refine ⟨added.1, (table.insert_duplicateKeyBehavior _ _).trans h.reject, ?_⟩
  refine h.indexes.gain nothing free (fun other same => ?_) added.2
  have parts := readable.determines same
  exact Prod.ext parts.1 parts.2

theorem rekey_keeps (h : Keeps table held) (j : DCloudJob)
    (mine : held j.self = j.instanceId.map fun id => (j.serviceUrl, id))
    (readable : ∀ old ∈ j.instanceId, Readable j.serviceUrl old) (id : Option String)
    (fresh : ∀ new ∈ id, Readable j.serviceUrl new ∧
      ∀ other, other ≠ j.self → held other ≠ some (j.serviceUrl, new)) :
    Keeps (j.rekey table id)
      (Function.update held j.self (id.map fun new => (j.serviceUrl, new))) := by
  have gone := unkey_keeps h j mine readable
  rw [rekey_eq]
  cases id with
  | none => exact gone
  | some new =>
    obtain ⟨legible, free⟩ := fresh new rfl
    have gained := insert_keeps gone (Function.update_self _ _ _) legible fun other => ?_
    · rwa [Function.update_idem] at gained
    · by_cases here : other = j.self
      · rw [here, Function.update_self]
        nofun
      · rw [Function.update_of_ne here]
        exact free other here

theorem find_map (f : DCloudJob → DCloudJob) (kept : ∀ j, (f j).self = j.self)
    (table : HashTable String JobRef) (job : JobRef) :
    (JobStore.mk (s.jobs.map f) table).find job = (s.find job).map f := by
  unfold find
  simp only [List.find?_map]
  congr 2
  funext j
  simp [kept]

theorem find_filter (job : JobRef) (table : HashTable String JobRef)
    (other : JobRef) : (JobStore.mk (s.jobs.filter fun k => k.self ≠ job) table).find other =
      if other = job then none else s.find other := by
  unfold find
  simp only [List.find?_filter]
  split
  · next here =>
      refine List.find?_eq_none.mpr fun k _ => ?_
      simp [here]
  · next here =>
      congr 1
      funext k
      by_cases same : k.self = other
      · simp [same, here]
      · simp [same]

theorem self_setInstanceId (j : DCloudJob) (id : Option String) (time : Int) :
    (j.setInstanceId id time).self = j.self ∧
      (j.setInstanceId id time).serviceUrl = j.serviceUrl ∧
      (j.setInstanceId id time).instanceId = id := by
  have members := DCloudJob.member_of_frozen
    (DCloudJob.setGridJobId_frozen { j with instanceId := id } time
      (DCloudJob.fullJobId j.instanceName id))
    (fun j => (j.self, j.serviceUrl, j.instanceId)) fun _ => rfl
  simp only [Prod.mk.injEq] at members
  exact members

theorem Indexed.update {s t : JobStore} (h : s.Indexed) (job : JobRef)
    (thing : Option (Option String × String)) (refs : (t.jobs.map DCloudJob.self).Nodup)
    (held : t.held = Function.update s.held job thing)
    (readable : ∀ new ∈ thing, Readable new.1 new.2)
    (keeps : Keeps t.jobsByInstanceId (Function.update s.held job thing)) : t.Indexed := by
  refine ⟨refs, fun other new holds => ?_, held ▸ keeps⟩
  rw [held] at holds
  by_cases here : other = job
  · rw [here, Function.update_self] at holds
    exact readable new holds
  · rw [Function.update_of_ne here] at holds
    exact h.readable other new holds

theorem held_of_find (found : s.find job = some j) :
    s.held job = j.instanceId.map fun id => (j.serviceUrl, id) := by
  unfold held
  rw [found]
  rfl

theorem setInstanceId_indexed (h : s.Indexed) {id : Option String} {time : Int}
    (found : s.find job = some j) (apart : s.Apart (.setInstanceId job id time))
    (tidy : s.Tidy (.setInstanceId job id time)) :
    Indexed ⟨s.jobs.map fun k => if k.self = job then k.setInstanceId id time else k,
      j.rekey s.jobsByInstanceId id⟩ := by
  have mine := held_of_find found
  obtain ⟨member, rfl⟩ := find_spec found
  have kept : ∀ k : DCloudJob,
      (if k.self = j.self then k.setInstanceId id time else k).self = k.self := by
    intro k
    split
    · exact (self_setInstanceId k id time).1
    · rfl
  have gained : ∀ new ∈ id,
      (j.self, j.serviceUrl, new) ∈ s.gains (.setInstanceId j.self id time) := by
    intro new here
    have here : id = some new := here
    simp only [gains, found, here]
    rfl
  refine h.update j.self (id.map fun new => (j.serviceUrl, new)) ?_ ?_ ?_ ?_
  · rw [List.map_map, show DCloudJob.self ∘ _ = DCloudJob.self from funext kept]
    exact h.refs
  · funext other
    unfold held
    rw [find_map _ kept]
    by_cases here : other = j.self
    · have changed := self_setInstanceId j id time
      rw [here, Function.update_self, found]
      simp only [Option.map_some, Option.bind_some, if_true, changed.2.1, changed.2.2]
    · rw [Function.update_of_ne here]
      cases elsewhere : s.find other with
      | none => rfl
      | some k =>
        have self := (find_spec elsewhere).2
        rw [Option.map_some, if_neg (self ▸ here)]
  · intro new here
    obtain ⟨i, given, same⟩ := Option.map_eq_some_iff.mp here
    cases same
    exact tidy.1 _ (gained i given)
  · refine rekey_keeps h.keeps j mine (fun old known => ?_) id fun new here =>
      ⟨?_, fun other away => ?_⟩
    · have known : j.instanceId = some old := known
      rw [known] at mine
      exact h.readable _ _ mine
    · exact tidy.1 _ (gained new here)
    · exact Unshared.free h.refs (apart _ (gained new here)) away

theorem destroy_indexed (h : s.Indexed) (found : s.find job = some j) (tidy : s.Tidy (.destroy job))
    :
    Indexed ⟨s.jobs.filter fun k => k.self ≠ job, j.destruct s.jobsByInstanceId⟩ := by
  have nothing : j.instanceId = none := tidy.2 j found
  have unchanged : j.destruct s.jobsByInstanceId = s.jobsByInstanceId := by
    unfold DCloudJob.destruct DCloudJob.enter
    rw [nothing]
  have gone : s.held job = none := by
    rw [held_of_find found, nothing]
    rfl
  have same : Function.update s.held job none = s.held := Function.update_eq_self_iff.mpr gone.symm
  refine h.update job none ?_ ?_ nofun ?_
  · exact h.refs.sublist (List.filter_sublist.map _)
  · funext other
    unfold held
    rw [find_filter]
    by_cases here : other = job
    · rw [here, Function.update_self, if_pos rfl]
      rfl
    · rw [Function.update_of_ne here, if_neg here]
  · rw [same, unchanged]
    exact h.keeps

theorem setInstanceName_kept {β : Type*} (w : World) (name : Option String) (time : Int)
    (f : DCloudJob → β) (kept : ∀ j, f j.frozen = f j)
    (blind : f { w.job with instanceName := name } = f w.job) :
    f (w.setInstanceName name time).job = f w.job :=
  (DCloudJob.member_of_frozen (DCloudJob.setGridJobId_frozen _ time _) f kept).trans blind

theorem restoreInstance_table (w : World) (name id : Option String) (time : Int)
    (unknown : w.job.instanceId = none) :
    (w.restoreInstance name id time).job.self = w.job.self ∧
      (w.restoreInstance name id time).jobsByInstanceId =
        (w.restoreInstance name id time).job.enter w.jobsByInstanceId := by
  unfold World.restoreInstance
  extract_lets w₁ w₂ w₃
  have named : (w₁.job.self, w₁.job.serviceUrl, w₁.job.instanceId) =
      (w.job.self, w.job.serviceUrl, w.job.instanceId) ∧
      w₁.jobsByInstanceId = w.jobsByInstanceId := by
    cases name with
    | none => exact ⟨rfl, rfl⟩
    | some n =>
      exact ⟨setInstanceName_kept w (some n) time (fun j => (j.self, j.serviceUrl, j.instanceId))
        (fun _ => rfl) rfl, rfl⟩
  simp only [Prod.mk.injEq] at named
  obtain ⟨⟨self, url, none_yet⟩, table⟩ := named
  have known : w₂.job.self = w.job.self ∧
      w₂.jobsByInstanceId = w₂.job.enter w.jobsByInstanceId := by
    cases id with
    | none =>
      refine ⟨self, ?_⟩
      change w₁.jobsByInstanceId = w₁.job.enter w.jobsByInstanceId
      unfold DCloudJob.enter
      rw [none_yet, unknown]
      exact table
    | some i =>
      have members := self_setInstanceId w₁.job (some i) time
      refine ⟨members.1.trans self, ?_⟩
      change w₁.job.rekey w₁.jobsByInstanceId (some i) =
        (w₁.job.setInstanceId (some i) time).enter w.jobsByInstanceId
      unfold DCloudJob.enter DCloudJob.rekey
      rw [members.2.2, members.2.1, members.1, none_yet, unknown, table]
  have slot : w₃.job = w₂.job ∧ w₃.jobsByInstanceId = w₂.jobsByInstanceId := by
    simp only [w₃]
    split <;> exact ⟨rfl, rfl⟩
  refine ⟨(congrArg DCloudJob.self slot.1).trans known.1, ?_⟩
  change w₃.jobsByInstanceId = w₃.job.enter w.jobsByInstanceId
  rw [slot.1, slot.2]
  exact known.2

theorem construct_table (self : JobRef) (ad : JobAd) (resubmit gahpDefined : Bool) (time : Int)
    (resource : BaseResource) (table : HashTable String JobRef) :
    (World.construct self ad resubmit gahpDefined time resource table).job.self = self ∧
      (World.construct self ad resubmit gahpDefined time resource table).jobsByInstanceId =
        (World.construct self ad resubmit gahpDefined time resource table).job.enter table := by
  unfold World.construct
  extract_lets j w₀
  have fresh : j.self = self ∧ j.instanceId = none := by
    simp only [j, DCloudJob.forgetHoldReason]
    split <;> exact ⟨rfl, rfl⟩
  -- A job on hold has no instance yet.
  have failed : ∀ (j' : DCloudJob) (e : ConstructError), j'.self = self → j'.instanceId = none →
      (j'.errorExit e).self = self ∧ table = (j'.errorExit e).enter table := by
    intro j' e same unknown
    have unknown : (j'.errorExit e).instanceId = none := unknown
    refine ⟨same, ?_⟩
    unfold DCloudJob.enter
    rw [unknown]
  split
  · exact failed j .noGahp fresh.1 fresh.2
  · split
    · next e _ => exact failed j e fresh.1 fresh.2
    · next j' read =>
        have kept := World.readAd_kept read (fun j => (j.self, j.instanceId))
          fun _ _ _ _ _ _ _ _ _ _ _ _ => rfl
        simp only [Prod.mk.injEq] at kept
        have here : j'.self = self ∧ j'.instanceId = none :=
          ⟨kept.1.trans fresh.1, kept.2.trans fresh.2⟩
        split
        · next e _ => exact failed j' e here.1 here.2
        · next name id _ =>
            have restored := restoreInstance_table (w₀.setJob j') name id time here.2
            exact ⟨restored.1.trans here.1, restored.2⟩

theorem create_indexed (h : s.Indexed) {self : JobRef} {ad : JobAd}
    {resubmit gahpDefined : Bool} {time : Int} {resource : BaseResource}
    (vacant : s.find self = none)
    (apart : s.Apart (.create self ad resubmit gahpDefined time resource))
    (tidy : s.Tidy (.create self ad resubmit gahpDefined time resource)) (w : World)
    (constructed : w = World.construct self ad resubmit gahpDefined time resource
      s.jobsByInstanceId) : Indexed ⟨w.job :: s.jobs, w.jobsByInstanceId⟩ := by
  obtain ⟨here, table⟩ := construct_table self ad resubmit gahpDefined time resource
      s.jobsByInstanceId
  rw [← constructed] at here table
  have nothing : s.held self = none := by
    unfold held
    rw [vacant]
    rfl
  have gained : ∀ new ∈ w.job.instanceId, (self, w.job.serviceUrl, new) ∈
      s.gains (.create self ad resubmit gahpDefined time resource) := by
    intro new known
    have known : w.job.instanceId = some new := known
    simp only [gains, ← constructed, known]
    rfl
  refine h.update self (w.job.instanceId.map fun new => (w.job.serviceUrl, new)) ?_ ?_ ?_ ?_
  · rw [List.map_cons, List.nodup_cons]
    refine ⟨fun member => ?_, h.refs⟩
    obtain ⟨k, live, same⟩ := List.mem_map.mp member
    have found := find_eq_some h.refs live
    rw [same, here, vacant] at found
    cases found
  · funext other
    unfold held find
    rw [List.find?_cons]
    by_cases mine : other = self
    · rw [mine, Function.update_self]
      simp only [here, decide_true, Option.bind_some]
    · rw [Function.update_of_ne mine]
      simp only [here, Ne.symm mine, decide_false]
  · intro new known
    obtain ⟨i, has, same⟩ := Option.map_eq_some_iff.mp known
    cases same
    exact tidy.1 _ (gained i has)
  · rw [table]
    unfold DCloudJob.enter
    cases known : w.job.instanceId with
    | none =>
      rw [Function.update_eq_self_iff.mpr nothing.symm]
      exact h.keeps
    | some new =>
      rw [here]
      refine insert_keeps h.keeps nothing (tidy.1 _ (gained new known)) fun other => ?_
      by_cases mine : other = self
      · rw [mine, nothing]
        nofun
      · exact Unshared.free h.refs (apart _ (gained new known)) mine

theorem step_indexed {s t : JobStore} {input : StoreInput} (h : s.Indexed) (apart : s.Apart input)
    (tidy : s.Tidy input) (taken : s.step input = some t) : t.Indexed := by
  cases input with
  | create self ad resubmit gahpDefined time resource =>
    simp only [step] at taken
    split at taken
    · cases taken
    · next vacant =>
        cases taken
        exact create_indexed h vacant apart tidy _ rfl
  | setInstanceId job id time =>
    obtain ⟨j, found, rfl⟩ := Option.map_eq_some_iff.mp taken
    exact setInstanceId_indexed h found apart tidy
  | destroy job =>
    obtain ⟨j, found, rfl⟩ := Option.map_eq_some_iff.mp taken
    exact destroy_indexed h found tidy

end JobStore

/-- In a run of tidy steps the table refers to live jobs only, and status listings
reach every live job they name. -/
theorem tidy_runs_exact (hashF : String → Nat) {inputs : List StoreInput} {t : JobStore}
    (run : Run (Guarded (Takes JobStore.step) fun s input => s.Apart input ∧ s.Tidy input)
      (JobStore.empty hashF) inputs t) : t.Exact ∧ t.Delivers := by
  have indexed : t.Indexed := run.invariant (JobStore.indexed_empty hashF) fun _ _ _ h taken =>
    JobStore.step_indexed h taken.1.1 taken.1.2 taken.2
  exact ⟨indexed.exact, indexed.exact.delivers⟩
instance (s : JobStore) (input : StoreInput) : Decidable (s.Apart input) := by
  delta JobStore.Apart JobStore.Unshared
  infer_instance

instance (url : Option String) (id : String) : Decidable (Readable url id) := by
  delta Readable
  infer_instance

instance (s : JobStore) (input : StoreInput) : Decidable (s.Tidy input) :=
  match input with
  | .create _ _ _ _ _ _ => inferInstanceAs (Decidable (_ ∧ True))
  | .setInstanceId _ _ _ => inferInstanceAs (Decidable (_ ∧ True))
  | .destroy job => inferInstanceAs (Decidable (_ ∧ ∀ j ∈ s.find job, j.instanceId = none))

def instanceAd : JobAd where
  value
    | .jobStatus => some (.status .running)
    | .gridResource => some (.string "deltacloud http://cloud")
    | .gridJobId => some (.string "deltacloud n1 i1")
    | .deltacloudUsername => some (.string "user")
    | .deltacloudPasswordFile => some (.string "password")
    | .deltacloudImageId => some (.string "image")
    | _ => none
  dirty := []

def createJob (self : JobRef) : StoreInput := .create self instanceAd false true 0 ⟨[], [], 10⟩

theorem destroyed_lookup :
    (execute (guardedStep JobStore.step JobStore.Apart) (JobStore.empty fun _ => 0)
      [createJob 1, .destroy 1]).map
      (fun t => (t.jobs.length, t.jobsByInstanceId.lookup
        (instanceKey (some "http://cloud") "i1"))) =
      some (0, some 1) := by
  decide +kernel

/-- After a job with an instance is destroyed the table still leads to it. -/
theorem destroyed_job_stays_in_table :
    ∃ t, Run (Guarded (Takes JobStore.step) JobStore.Apart) (JobStore.empty fun _ => 0)
      [createJob 1, .destroy 1] t ∧ ¬t.Exact ∧
      (1, "STOPPED") ∈ t.deliveries "http://cloud" [("i1", "STOPPED")] ∧ t.jobs = [] := by
  obtain ⟨t, ended, found⟩ := Option.map_eq_some_iff.mp destroyed_lookup
  simp only [Prod.mk.injEq, List.length_eq_zero_iff] at found
  refine ⟨t, .of_execute_guarded ended, fun exact => ?_, ?_, found.1⟩
  · obtain ⟨j, live, -⟩ := (exact (some "http://cloud") "i1" 1).mp found.2
    rw [found.1] at live
    cases live
  · simp [JobStore.deliveries, found.2]

def tidyRun : List StoreInput :=
  [createJob 1, .setInstanceId 1 none 1, .destroy 1, createJob 2]

theorem tidyRun_lookup :
    (execute (guardedStep JobStore.step fun s input => s.Apart input ∧ s.Tidy input)
      (JobStore.empty fun _ => 0) tidyRun).map
      (fun t => t.jobsByInstanceId.lookup (instanceKey (some "http://cloud") "i1")) =
      some (some 2) := by
  decide +kernel

theorem tidy_runs_exact_recreated :
    ∃ t : JobStore, t.jobsByInstanceId.lookup (instanceKey (some "http://cloud") "i1") = some 2 ∧
      t.Exact ∧ t.Delivers := by
  obtain ⟨t, ended, found⟩ := Option.map_eq_some_iff.mp tidyRun_lookup
  exact ⟨t, found, tidy_runs_exact (fun _ => 0) (.of_execute_guarded ended)⟩

end Condor.GridManager
