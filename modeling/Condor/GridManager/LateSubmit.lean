import Condor.GridManager.StepCases

/-! A new `DELTACLOUD_VM_SUBMIT` is issued in `GM_CREATE_VM` only, which does not look at
`condorState`. Two of the states before it let a removed or held job through, and an evaluation may
begin there. -/
namespace Condor.GridManager
open Condor.Lib

def submits : List HistoryEvent → List (List String × JobStatus) :=
  List.filterMap fun
    | .issued .vmSubmit args status => some (args, status)
    | _ => none

def NoLateSubmit (history : List HistoryEvent) : Prop :=
  ∀ args status, .issued .vmSubmit args status ∈ history → status.leaving = false

theorem noLateSubmit_iff (history : List HistoryEvent) :
    NoLateSubmit history ↔ ∀ entry ∈ submits history, entry.2.leaving = false := by
  unfold NoLateSubmit submits
  constructor
  · intro none_late entry member
    obtain ⟨e, here, issued⟩ := List.mem_filterMap.mp member
    split at issued
    · cases issued
      exact none_late _ _ here
    · cases issued
  · intro none_late args status here
    exact none_late (args, status) (List.mem_filterMap.mpr ⟨_, here, rfl⟩)

theorem NoLateSubmit.congr {history history' : List HistoryEvent} (h : NoLateSubmit history)
    (same : submits history' = submits history) : NoLateSubmit history' := by
  rw [noLateSubmit_iff] at h ⊢
  rw [same]
  exact h

theorem submits_issued {command : Command} (other : command ≠ .vmSubmit) (args : List String)
    (status : JobStatus) (past : List HistoryEvent) :
    submits (.issued command args status :: past) = submits past := by
  cases command with
  | vmSubmit => exact absurd rfl other
  | vmStatusAll => rfl
  | vmAction => rfl
  | vmInfo => rfl
  | vmFind => rfl

namespace World
variable {w w' : World}

@[simp] theorem submits_noteInstanceId (w : World) (id : Option String) :
    submits (w.noteInstanceId id).history = submits w.history := by
  unfold noteInstanceId
  cases w.job.instanceId <;> cases id <;> rfl

theorem submits_processInstanceAttrs (w : World) (attrs : List String) (time : Int) :
    submits (w.processInstanceAttrs attrs time).history = submits w.history :=
  processInstanceAttrs_induct (P := fun w' => submits w'.history = submits w.history) time
    (fun _ _ _ _ _ same => same)
      (fun w' id same => (submits_noteInstanceId w' (some id)).trans same)
    (fun _ same => same) (fun _ _ same => same) w attrs rfl

variable {inp : PassInput}

theorem Back.submits {p : PendingRequest} (back : Back w inp p w') :
    submits w'.history = submits w.history := by
  rcases back.history with answered | ⟨late, -⟩
  · rw [answered]
    rfl
  · rw [late]
    rfl

/-- One new request at most, in `GM_CREATE_VM` and only when none is pending. -/
theorem PassCase.submits (case : PassCase w inp w') :
    submits w'.history = submits w.history ∨
      w.job.gmState = .createVm ∧ w.gahp.mode = .normal ∧ w.gahp.Free .vmSubmit ∧
        ∃ args, submits w'.history = (args, w.job.condorState) :: submits w.history := by
  induction case with
  | steps next unnamed edge view named aside settled =>
    exact .inl (congrArg GridManager.submits aside.history)
  | checks state unknown named view aside =>
    exact .inl (congrArg GridManager.submits aside.history)
  | restored state known view aside => exact .inl (congrArg GridManager.submits aside.history)
  | clears next edge state unknown synced blank gahp history excepted settled gone careless =>
    exact .inl (history ▸ submits_noteInstanceId w none)
  | issued p asks unanswered free mode view status pending history excepted =>
    rw [history]
    by_cases submit : p.command = .vmSubmit
    · rw [submit] at asks free ⊢
      refine .inr ⟨?_, mode, free, p.args, rfl⟩
      have state := asks.state
      cases here : w.job.gmState <;> rw [here] at state <;> first | rfl | cases state
    · exact .inl (submits_issued submit _ _ _)
  | returned next back edge view aside =>
    exact .inl ((congrArg GridManager.submits aside.history).trans back.submits)
  | found id back state view gahp history excepted result read =>
    exact .inl (history ▸ (submits_noteInstanceId _ (some id)).trans back.submits)
  | @created p w₁ attrs argv back state result read =>
    have created := submits_processInstanceAttrs (w₁.submitAttempted inp.time) attrs inp.time
    refine .inl (Eq.trans ?_ (created.trans back.submits))
    unfold instanceCreated
    simp only
    split
    · rfl
    · split <;> rfl
  | @probed p w₁ attrs back state =>
    exact .inl ((submits_processInstanceAttrs w₁ attrs inp.time).trans back.submits)
  | @destroyed p w₁ back state unfinished =>
    obtain ⟨-, -, history, -⟩ := destroyed_spec w₁ inp.time
    exact .inl (history ▸ (submits_noteInstanceId w₁ none).trans back.submits)
  | aborts message reason before ih => exact ih

end World

variable {state : GMState} {input : Input}

theorem GMState.goes_createVm (edge : state.goes .createVm = true) :
    state = .saveInstanceName := by
  cases state <;> first | rfl | cases edge

theorem GMState.clears_createVm (state : GMState) : state.clears .createVm = false := by
  cases state <;> rfl

theorem GMState.returns_createVm (edge : state.returns .createVm = true) :
    state = .checkVm := by
  cases state <;> first | rfl | cases edge

namespace World
variable {w w' : World}

theorem PassCase.creates {inp : PassInput} (case : PassCase w inp w')
    (create : w'.job.gmState = .createVm) :
    w.job.gmState = .createVm ∨ w.job.gmState = .saveInstanceName ∨ w.job.gmState = .checkVm := by
  induction case with
  | steps next unnamed edge view named aside settled =>
    have state : _ = next := congrArg InstanceView.gmState view
    rcases edge with same | goes
    · exact .inl (same.symm.trans (state.symm.trans create))
    · rw [state.symm.trans create] at goes
      exact .inr (.inl (GMState.goes_createVm goes))
  | checks state unknown named view aside =>
    cases (congrArg InstanceView.gmState view).symm.trans create
  | restored state known view aside => cases (congrArg InstanceView.gmState view).symm.trans create
  | clears next edge state unknown synced blank gahp history excepted settled gone careless =>
    rw [state.symm.trans create, GMState.clears_createVm] at edge
    cases edge
  | issued p asks unanswered free mode view status pending history excepted =>
    exact .inl ((congrArg InstanceView.gmState view).symm.trans create)
  | returned next back edge view aside =>
    have state : _ = next := congrArg InstanceView.gmState view
    rcases edge with same | returns
    · exact .inl (same.symm.trans (state.symm.trans create))
    · rw [state.symm.trans create] at returns
      exact .inr (.inr (GMState.returns_createVm returns))
  | found id back state view gahp history excepted result read => exact .inr (.inr state)
  | created back state result read => exact .inl state
  | probed attrs back state => cases create
  | @destroyed p w₁ back state unfinished =>
    obtain ⟨-, -, -, next, edge, moved, -⟩ := destroyed_spec w₁ inp.time
    rw [moved.symm.trans create] at edge
    cases edge
  | aborts message reason before ih => exact ih create

/-- `GM_CREATE_VM` would issue a new request, and the job is going away. -/
def Ready (w : World) (now : Int) : Prop :=
  w.job.condorState.leaving = true ∧ w.gahp.mode = .normal ∧
    w.job.numSubmitAttempts < maxSubmitAttempts ∧ w.job.lastSubmitAttempt + submitInterval ≤ now ∧
    w.resource.grants w.job.self = true

/-- `GM_SAVE_INSTANCE_NAME` does not have to wait for the schedd. -/
def NameSaved (w : World) (inp : PassInput) : Prop :=
  unsaved w.job .gridJobId = false ∧
    (unnamed w.job = false ∨ w.job.jobAd.stringOf .gridJobId =
      DCloudJob.fullJobId (some (buildInstanceName w.job inp.collectors)) w.job.instanceId)

/-- The reply that `GM_CHECK_VM` will read says that there is no instance. -/
def NotFound (w : World) : Prop :=
  ∃ p ∈ w.gahp.pending, p.command = .vmFind ∧ ∃ argv ∈ p.result,
    (readFindReply argv).1 = .ok none ∨ (readFindReply argv).1 = .ok (some "")

theorem isPending_eq_false_iff (g : GahpClient) (command : Command) :
    g.isPending command = false ↔ g.Free command := by
  unfold GahpClient.isPending GahpClient.Free
  cases g.pending with
  | none => simp
  | some p => simp

/-- `GM_CREATE_VM` makes a request when it has a slot and its interval has passed,
whatever `condorState` is. -/
theorem gmCreateVm_asks (now : Int) (inp : PassInput) :
    (w.gmCreateVm now inp).history = w.history ∨
      w.job.numSubmitAttempts < maxSubmitAttempts ∧ w.job.lastSubmitAttempt + submitInterval ≤ now ∧
        w.resource.grants w.job.self = true := by
  unfold gmCreateVm
  split
  · exact .inl rfl
  · next attempts =>
      split
      · next waited =>
          split
          · exact .inl rfl
          · simp only
            split <;> exact .inl rfl
          · next r granted =>
              exact .inr ⟨Nat.lt_of_not_le attempts, waited,
                  BaseResource.grants_iff.mpr ⟨r, granted⟩⟩
      · split <;> exact .inl rfl

theorem gmCheckVm_missing (now : Int) (inp : PassInput) (state : w.job.gmState = .checkVm)
    (moved : (w.gmCheckVm inp).job.gmState = .createVm) (ready : (w.gmCheckVm inp).Ready now) :
    w.Ready now ∧ w.NotFound := by
  have fin := w.finishCall_finished inp .vmFind [gahpArg w.job.serviceUrl, gahpArg w.job.username,
    gahpArg w.job.password, gahpArg w.job.instanceId] "DELTACLOUD_VM_FIND timed out" readFindReply
  unfold gmCheckVm dcloudFind at moved ready
  generalize finishCall _ readFindReply (w.gahpCall inp .vmFind _) = r at fin moved ready
  obtain ⟨rc, w₁⟩ := r
  have stays : w₁.job.gmState ≠ .createVm := by
    rw [fin.job, state]
    decide
  have absent : rc = .ok none ∨ rc = .ok (some "") → w₁.Ready now → w.Ready now ∧ w.NotFound := by
    intro missing late
    cases fin with
    | replied p argv _ pending name result job resource free mode history excepted =>
      refine ⟨?_, p, pending, name, argv, result, missing⟩
      unfold Ready at late ⊢
      rw [← job, ← resource, ← mode]
      exact late
    | timedOut p _ pending name late job resource free mode history excepted => simp at missing
    | waiting p pending name => simp at missing
    | issued _ free mode job resource gahp history => simp at missing
    | notSubmitted free mode => simp at missing
  cases rc with
  | ok found =>
    cases found with
    | none => exact absent (.inl rfl) ready
    | some id =>
      simp only at moved ready
      split at ready
      · next blank => exact absent (.inr (by rw [blank])) ready
      · next named =>
          rw [if_neg named] at moved
          cases moved
  | failed => cases moved
  | timedOut => cases moved
  | pending => exact absurd moved stays
  | notSubmitted => exact absurd moved stays
  | excepted message => exact absurd moved stays

theorem setInstanceName_kept (j : DCloudJob) (name : Option String) (time : Int) :
    (j.setInstanceName name time).condorState = j.condorState ∧
      (j.setInstanceName name time).self = j.self ∧
      (j.setInstanceName name time).numSubmitAttempts = j.numSubmitAttempts ∧
      (j.setInstanceName name time).lastSubmitAttempt = j.lastSubmitAttempt := by
  unfold DCloudJob.setInstanceName DCloudJob.setRemoteJobId DCloudJob.setGridJobId
  simp only
  split
  · exact ⟨rfl, rfl, rfl, rfl⟩
  · split <;> split <;> exact ⟨rfl, rfl, rfl, rfl⟩

theorem saved_of_setInstanceName {j : DCloudJob} {name : String} {time : Int} (nonempty : name ≠ "")
    (saved : unsaved (j.setInstanceName (some name) time) .gridJobId = false) :
    unsaved j .gridJobId = false ∧
      j.jobAd.stringOf .gridJobId = DCloudJob.fullJobId (some name) j.instanceId := by
  have text : DCloudJob.fullJobId (some name) j.instanceId ≠ "" := by
    unfold DCloudJob.fullJobId
    simp only [nonempty, if_false]
    split
    · simp
    · split <;> simp
  unfold DCloudJob.setInstanceName DCloudJob.setRemoteJobId DCloudJob.setGridJobId at saved
  simp only at saved
  split at saved
  · next same => exact ⟨saved, same⟩
  · simp [unsaved, JobAd.getDirtyFlag, DCloudJob.assign, JobAd.assign] at saved

theorem named_spec (now : Int) (inp : PassInput) (w' : World)
    (named : w' = if unnamed w.job then
      w.setInstanceName (some (buildInstanceName w.job inp.collectors)) inp.time else w) :
    w'.gahp = w.gahp ∧ w'.job.gmState = w.job.gmState ∧
      (unsaved w'.job .gridJobId = false → w.NameSaved inp) ∧ (w'.Ready now → w.Ready now) := by
  have nonempty : buildInstanceName w.job inp.collectors ≠ "" := by
    unfold buildInstanceName
    simp
  split at named
  · have same := setInstanceName_kept w.job (some (buildInstanceName w.job inp.collectors)) inp.time
    subst named
    refine ⟨rfl, gmState_setInstanceName w _ _, ?_, ?_⟩
    · intro saved
      have held := saved_of_setInstanceName nonempty saved
      exact ⟨held.1, .inr held.2⟩
    · intro ready
      unfold Ready at ready ⊢
      rw [← same.1, ← same.2.1, ← same.2.2.1, ← same.2.2.2]
      exact ready
  · next known =>
      subst named
      exact ⟨rfl, rfl, fun saved => ⟨saved, .inl (Bool.eq_false_iff.mpr known)⟩, id⟩

theorem gmSaveInstanceName_saved (now : Int) (inp : PassInput)
    (state : w.job.gmState = .saveInstanceName)
    (create : (w.gmSaveInstanceName inp).job.gmState = .createVm)
    (late : (w.gmSaveInstanceName inp).Ready now) :
    (w.gmSaveInstanceName inp).gahp = w.gahp ∧ w.Ready now ∧ w.NameSaved inp := by
  revert create late
  unfold gmSaveInstanceName
  extract_lets w₁
  obtain ⟨s, moved, stays⟩ : ∃ s, w₁ = w.goto s ∧ s ≠ .createVm := by
    simp only [w₁]
    split
    · exact ⟨.delete, rfl, nofun⟩
    · exact ⟨w.job.gmState, rfl, by rw [state]; decide⟩
  clear_value w₁
  subst moved
  split
  · exact fun moved => absurd moved stays
  · exact fun moved => absurd moved stays
  · next r granted =>
      extract_lets w₂ w₃
      obtain ⟨gahp, here, saved, ready⟩ := named_spec (w := w₂) now inp w₃ rfl
      split
      · intro moved
        rw [here] at moved
        exact absurd moved stays
      · next clean =>
          intro _ late
          have name := saved (Bool.eq_false_iff.mpr clean)
          obtain ⟨leaving, mode, attempts, waited, -⟩ := ready late
          exact ⟨gahp, ⟨leaving, mode, attempts, waited,
            BaseResource.grants_iff.mpr ⟨r, granted⟩⟩, name⟩

/-- The condition on a pass: the missing `break` of `GM_SAVE_INSTANCE_NAME` does not
lead on to a late request, and neither does `GM_CHECK_VM`, which does not look at
`condorState`. -/
def TimelyPass (w : World) (inp : PassInput) : Phase → Prop
  | .idle => True
  | .evaluating now =>
    (w.job.gmState = .saveInstanceName → w.Ready now → w.NameSaved inp →
      w.gahp.isPending .vmSubmit = true) ∧
    (w.job.gmState = .checkVm → w.Ready now → ¬w.NotFound)

end World

/-- The condition on a step. The third way to a late request is an evaluation that
begins in `GM_CREATE_VM`. -/
def Timely (s : System) : Input → Prop
  | .evaluate now => s.world.job.gmState = .createVm → s.world.enterEvaluation.Ready now →
      s.world.gahp.isPending .vmSubmit = true
  | .pass inp => s.world.TimelyPass inp s.phase
  | _ => True

instance (w : World) (now : Int) : Decidable (w.Ready now) := by
  delta World.Ready
  infer_instance

instance (w : World) (inp : PassInput) : Decidable (w.NameSaved inp) := by
  delta World.NameSaved
  infer_instance

instance (w : World) : Decidable w.NotFound := by
  delta World.NotFound
  infer_instance

instance (w : World) (inp : PassInput) (phase : Phase) : Decidable (w.TimelyPass inp phase) :=
  match phase with
  | .idle => .isTrue trivial
  | .evaluating now => inferInstanceAs (Decidable (
      (w.job.gmState = .saveInstanceName → w.Ready now → w.NameSaved inp →
        w.gahp.isPending .vmSubmit = true) ∧
      (w.job.gmState = .checkVm → w.Ready now → ¬w.NotFound)))

instance (s : System) (input : Input) : Decidable (Timely s input) :=
  match input with
  | .evaluate now => inferInstanceAs (Decidable (s.world.job.gmState = .createVm →
      s.world.enterEvaluation.Ready now → s.world.gahp.isPending .vmSubmit = true))
  | .pass inp => inferInstanceAs (Decidable (s.world.TimelyPass inp s.phase))
  | .scheddStatus _ _ | .leaseExpired _ | .periodicPolicy _ _ _ | .scheddCommit
  | .gahpReply _ | .gahpSends _ | .batchStatus _ _ | .checkRemoteStatus _ | .resourceDown _
  | .resourceUp | .otherRequest _ | .otherCancel _ | .reconfig _ => .isTrue trivial

/-- The invariant: no late request so far, and none in the evaluation under way. -/
structure System.OnTime (s : System) : Prop where
  history : NoLateSubmit s.world.history
  create : ∀ now, s.phase = .evaluating now → s.world.job.gmState = .createVm →
    s.world.Ready now → s.world.gahp.isPending .vmSubmit = true

variable {w : World}

theorem World.pass_of_checkVm (now : Int) (inp : PassInput) (state : w.job.gmState = .checkVm) :
    w.pass now inp = w.gmCheckVm inp := by
  simp only [pass, state]

theorem World.pass_of_saveInstanceName (now : Int) (inp : PassInput)
    (state : w.job.gmState = .saveInstanceName) : w.pass now inp = w.gmSaveInstanceName inp := by
  simp only [pass, state]

theorem World.pass_of_createVm (now : Int) (inp : PassInput) (state : w.job.gmState = .createVm) :
    w.pass now inp = w.gmCreateVm now inp := by
  simp only [pass, state]

theorem World.pass_noLate (now : Int) (inp : PassInput) (before : NoLateSubmit w.history)
    (create : w.job.gmState = .createVm → w.Ready now → w.gahp.isPending .vmSubmit = true)
    (save : w.job.gmState = .saveInstanceName → w.Ready now → w.NameSaved inp →
      w.gahp.isPending .vmSubmit = true)
    (check : w.job.gmState = .checkVm → w.Ready now → ¬w.NotFound) :
    NoLateSubmit (w.pass now inp).history ∧
      ((w.pass now inp).job.gmState = .createVm → w.job.gmState ≠ .createVm →
        (w.pass now inp).Ready now → (w.pass now inp).gahp.isPending .vmSubmit = true) := by
  have case := w.pass_case now inp
  refine ⟨?_, fun moved away ready => ?_⟩
  · rcases case.submits with same | ⟨creating, mode, free, args, issued⟩
    · exact before.congr same
    · rw [pass_of_createVm now inp creating] at issued ⊢
      rcases gmCreateVm_asks (w := w) now inp with same | asks
      · exact same ▸ before
      · rw [noLateSubmit_iff] at before ⊢
        rw [issued]
        intro entry member
        rcases List.mem_cons.mp member with rfl | past
        · by_contra leaving
          have pending := create creating ⟨Bool.not_eq_false _ ▸ leaving, mode, asks⟩
          rw [(isPending_eq_false_iff w.gahp .vmSubmit).mpr free] at pending
          cases pending
        · exact before entry past
  · rcases case.creates moved with creating | saving | checking
    · exact absurd creating away
    · rw [pass_of_saveInstanceName now inp saving] at moved ready ⊢
      obtain ⟨gahp, wasReady, saved⟩ := gmSaveInstanceName_saved now inp saving moved ready
      rw [gahp]
      exact save saving wasReady saved
    · rw [pass_of_checkVm now inp checking] at moved ready
      obtain ⟨wasReady, missing⟩ := gmCheckVm_missing now inp checking moved ready
      exact absurd missing (check checking wasReady)

theorem World.pass_submits (now : Int) (inp : PassInput) :
    submits w.history <:+ submits (w.pass now inp).history := by
  rcases (w.pass_case now inp).submits with same | ⟨-, -, -, args, issued⟩
  · simp only [same, List.suffix_refl]
  · simp only [issued, List.suffix_cons]

theorem World.EnvironmentCase.submits {w' : World} (case : EnvironmentCase w input w') :
    submits w'.history = submits w.history := by
  cases case with
  | aside view aside settled => exact congrArg GridManager.submits aside.history
  | replied argv => rfl
  | sent time => rfl
  | reported status time known same => rfl

theorem System.step_onTime {s t : System} (h : s.OnTime) (timely : Timely s input)
    (taken : s.step input = some t) : t.OnTime := by
  obtain ⟨-, -, case⟩ := step_case taken
  cases case with
  | enters now =>
    refine ⟨h.history, fun now' evaluating created ready => ?_⟩
    cases evaluating
    exact timely created ready
  | turns now inp evaluating =>
    unfold Timely at timely
    rw [evaluating] at timely
    obtain ⟨late, moves⟩ := World.pass_noLate now inp h.history (h.create now evaluating)
      timely.1 timely.2
    refine ⟨late, fun now' phase created ready => ?_⟩
    simp only at phase created ready
    split at phase
    · cases phase
    · next away =>
        cases phase
        exact moves created (fun here => away (created.trans here.symm)) ready
  | outside deleted case => exact ⟨h.history.congr case.submits, nofun⟩

/-- In a run whose steps are all timely no instance is requested for a job that is
removed or held. -/
theorem timely_runs_request_nothing_late (self : JobRef) (ad : JobAd) (resubmit gahpDefined : Bool)
    (time : Int) (resource : BaseResource) (table : Utils.HashTable String JobRef)
    {inputs : List Input} {t : System}
    (run : Run (Guarded (Takes System.step) Timely)
      (System.initial (World.construct self ad resubmit gahpDefined time resource table))
        inputs t) :
    NoLateSubmit t.world.history := by
  have start : (System.initial (World.construct self ad resubmit gahpDefined time resource
      table)).OnTime := by
    refine ⟨?_, fun now phase => by cases phase⟩
    change NoLateSubmit (World.construct self ad resubmit gahpDefined time resource table).history
    rw [World.construct_history]
    exact nofun
  exact (run.invariant start fun _ _ _ onTime taken =>
    System.step_onTime onTime taken.1 taken.2).history

def newAd : JobAd where
  value
    | .jobStatus => some (.status .idle)
    | .gridResource => some (.string "deltacloud http://cloud")
    | .globalJobId => some (.string "schedd#1.0")
    | .deltacloudUsername => some (.string "user")
    | .deltacloudPasswordFile => some (.string "password")
    | .deltacloudImageId => some (.string "image")
    | _ => none
  dirty := []

def newJob : World :=
  World.construct 1 newAd false true 0 ⟨[], [], 10⟩ (.create (fun _ => 0) .rejectDuplicateKeys)

def openPass (time : Int) : Input :=
  .pass ⟨time, true, false, true, .staysInQueue, "", none, none⟩

def nameSaved : List Input :=
  [.resourceUp, .evaluate 1, openPass 1, openPass 1, openPass 1, openPass 1, openPass 1,
    .scheddCommit]

def requestInstance : List Input := [.evaluate 400, openPass 400, openPass 400]

def removeNamed : List Input :=
  nameSaved ++ [.scheddStatus ⟨.removed, fun _ => none, false⟩ 2] ++ requestInstance

theorem removeNamed_submits :
    (execute System.step (System.initial newJob) removeNamed).map
      (fun t => (submits t.world.history).map Prod.snd) = some [.removed] := by
  decide +kernel

/-- The instance of a removed job is requested all the same. -/
theorem removed_job_requests_instance :
    ∃ t, System.Runs (System.initial newJob) removeNamed t ∧ ¬NoLateSubmit t.world.history := by
  obtain ⟨t, ended, requests⟩ := Option.map_eq_some_iff.mp removeNamed_submits
  refine ⟨t, .of_execute ended, fun none_late => ?_⟩
  obtain ⟨entry, here, status⟩ : ∃ entry ∈ submits t.world.history, entry.2 = .removed :=
    List.mem_map.mp (requests ▸ List.mem_singleton_self _)
  have late := (noLateSubmit_iff _).mp none_late entry here
  rw [status] at late
  cases late

theorem requestInstance_submits :
    (execute (guardedStep System.step Timely) (System.initial newJob)
      (nameSaved ++ requestInstance)).map
      (fun t => (submits t.world.history).map Prod.snd) = some [.idle] := by
  decide +kernel

theorem timely_runs_request_nothing_late_idle :
    ∃ t, Run (Guarded (Takes System.step) Timely) (System.initial newJob)
      (nameSaved ++ requestInstance) t ∧ (submits t.world.history).map Prod.snd = [.idle] ∧
      NoLateSubmit t.world.history := by
  obtain ⟨t, ended, requests⟩ := Option.map_eq_some_iff.mp requestInstance_submits
  have run : Run (Guarded (Takes System.step) Timely) (System.initial newJob)
      (nameSaved ++ requestInstance) t := .of_execute_guarded ended
  exact ⟨t, run, requests, timely_runs_request_nothing_late 1 newAd false true 0 ⟨[], [], 10⟩
    (.create (fun _ => 0) .rejectDuplicateKeys) run⟩

end Condor.GridManager
